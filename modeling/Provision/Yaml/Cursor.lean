/-
**Cursors.**

A cursor stands before a character of a document and knows its line and column, both counted from
zero.  Five characters end a line; a carriage return followed by a line feed ends one line, not
two.  A byte order mark takes no column.

Main definitions:

* `Provision.Yaml.isBreak`, `Provision.Yaml.isBlank`, `Provision.Yaml.isNameChar` — classes of
  characters;
* `Provision.Yaml.Cursor` — a position in a document;
* `Provision.Yaml.Cursor.advance`, `Provision.Yaml.Cursor.advanceBy`,
  `Provision.Yaml.Cursor.advanceWhile` — moving on;
* `Provision.Yaml.Cursor.lineBreak` — reading the end of a line;
* `Provision.Yaml.Cursor.atMarker` — whether a document marker starts here.

Main results:

* `Provision.Yaml.Cursor.advanceBy_rest` — moving on by `n` leaves the text without its first `n`
  characters.
-/

set_option relaxedAutoImplicit false
set_option autoImplicit false

namespace Provision.Yaml

/-! ### Classes of characters -/

/-- The characters that end a line. -/
def isBreak (c : Char) : Bool :=
  c = '\n' || c = '\r' || c = '\x85' || c = '\u2028' || c = '\u2029'

/-- Space and tabulator. -/
def isBlank (c : Char) : Bool := c = ' ' || c = '\t'

/-- The characters of anchors, handles and directive names: ASCII letters and digits, hyphen and
underscore. -/
def isNameChar (c : Char) : Bool := c.isAlphanum || c = '-' || c = '_'

/-- The brackets and the comma of the flow style. -/
def isFlowIndicator (c : Char) : Bool :=
  c = ',' || c = '[' || c = ']' || c = '\x7b' || c = '\x7d'

/-- The characters that a document may hold. -/
def isAllowed (c : Char) : Bool :=
  c = '\t' || c = '\n' || c = '\r' || (0x20 ≤ c.toNat && c.toNat ≤ 0x7E) || c = '\x85' ||
    (0xA0 ≤ c.toNat && c.toNat ≤ 0xFFFD) || 0x10000 ≤ c.toNat

/-- The value of a hexadecimal digit. -/
def hexValue? (c : Char) : Option Nat :=
  if '0' ≤ c ∧ c ≤ '9' then some (c.toNat - '0'.toNat)
  else if 'a' ≤ c ∧ c ≤ 'f' then some (c.toNat - 'a'.toNat + 10)
  else if 'A' ≤ c ∧ c ≤ 'F' then some (c.toNat - 'A'.toNat + 10)
  else none

/-- The number that a list of hexadecimal digits writes. -/
def hexNumber? (cs : List Char) : Option Nat :=
  cs.foldl (fun n c => do return 16 * (← n) + (← hexValue? c)) (some 0)

/-! ### Positions -/

/-- A position in a document. -/
structure Cursor where
  /-- The text from here on. -/
  rest : List Char
  /-- How many characters stand before. -/
  index : Nat := 0
  line : Nat := 0
  column : Nat := 0
  deriving DecidableEq, Repr, Inhabited

namespace Cursor

/-- The character `n` places ahead; none at the end of the document. -/
def peek (c : Cursor) (n : Nat := 0) : Option Char := c.rest[n]?

/-- Whether the character `n` places ahead is `x`. -/
def at? (c : Cursor) (x : Char) (n : Nat := 0) : Bool := c.peek n = some x

/-- Whether the character `n` places ahead is in a class, the end of the document counting as
one more member of it. -/
def atEndOr (c : Cursor) (p : Char → Bool) (n : Nat := 0) : Bool := (c.peek n).all p

/-- Whether the text goes on with a blank, the end of a line, or not at all. -/
def atSeparator (c : Cursor) (n : Nat := 0) : Bool := c.atEndOr (fun x => isBlank x || isBreak x) n

/-- Whether the text goes on with a space, the end of a line, or not at all. -/
def atSpaceOrBreak (c : Cursor) (n : Nat := 0) : Bool :=
  c.atEndOr (fun x => x = ' ' || isBreak x) n

/-- Whether the line ends here. -/
def atLineEnd (c : Cursor) : Bool := c.atEndOr isBreak

/-- Whether a character of the class stands here. -/
def atClass (c : Cursor) (p : Char → Bool) : Bool := (c.peek).any p

/-- Moves past one character. -/
def advance (c : Cursor) : Cursor :=
  match c.rest with
  | [] => c
  | x :: rest =>
      if x = '\r' ∧ rest.head? = some '\n' then ⟨rest, c.index + 1, c.line, c.column + 1⟩
      else if isBreak x then ⟨rest, c.index + 1, c.line + 1, 0⟩
      else if x = '\ufeff' then ⟨rest, c.index + 1, c.line, c.column⟩
      else ⟨rest, c.index + 1, c.line, c.column + 1⟩

/-- Moves past `n` characters. -/
def advanceBy : Nat → Cursor → Cursor
  | 0, c => c
  | n + 1, c => advanceBy n c.advance

/-- The longest run of characters of a class from here on. -/
def run (c : Cursor) (p : Char → Bool) : List Char := c.rest.takeWhile p

/-- Moves past the longest run of characters of a class. -/
def advanceWhile (c : Cursor) (p : Char → Bool) : Cursor := c.advanceBy (c.run p).length

/-- Moves to the end of the line. -/
def toLineEnd (c : Cursor) : Cursor := c.advanceWhile fun x => !isBreak x

/-- Moves past spaces. -/
def pastSpaces (c : Cursor) : Cursor := c.advanceWhile (· = ' ')

/-- Reads the end of a line: the usual three become a line feed, the two separators of Unicode
stay.  Nothing is read where no line ends. -/
def lineBreak (c : Cursor) : List Char × Cursor :=
  match c.rest with
  | '\r' :: '\n' :: _ => (['\n'], c.advanceBy 2)
  | x :: _ =>
      if x = '\n' ∨ x = '\r' ∨ x = '\x85' then (['\n'], c.advance)
      else if isBreak x then ([x], c.advance)
      else ([], c)
  | [] => ([], c)

/-- Whether three characters `x` and then a blank, a line end or nothing stand here. -/
def atTriple (c : Cursor) (x : Char) : Bool :=
  c.at? x && c.at? x 1 && c.at? x 2 && c.atSeparator 3

/-- Whether a document marker stands here. -/
def atMarker (c : Cursor) : Bool := c.atTriple '-' || c.atTriple '.'

@[simp] theorem advance_rest (c : Cursor) : c.advance.rest = c.rest.tail := by
  unfold advance
  split
  · next h => simp [h]
  · next h => split <;> (try split) <;> (try split) <;> simp [h]

/-- **Moving on by `n` characters.** -/
@[simp] theorem advanceBy_rest (n : Nat) (c : Cursor) :
    (c.advanceBy n).rest = c.rest.drop n := by
  induction n generalizing c with
  | zero => rfl
  | succ n ih =>
      rw [advanceBy, ih, advance_rest, List.drop_tail]

@[simp] theorem advanceWhile_rest (c : Cursor) (p : Char → Bool) :
    (c.advanceWhile p).rest = c.rest.dropWhile p := by
  rw [advanceWhile, advanceBy_rest, run]
  induction c.rest with
  | nil => rfl
  | cons x l ih => by_cases h : p x <;> simp [h, ih]

end Cursor

end Provision.Yaml
