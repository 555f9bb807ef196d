/-
**Scalars.**

The three ways to write a text in a document.  A plain scalar goes on until a colon or a comment
could start; a quoted one until its quote; a block scalar as long as its lines are indented.  Line
ends inside a plain or quoted scalar are folded: one becomes a space, several lose the first.

Main definitions:

* `Provision.Yaml.Scalar.plain` — plain scalars;
* `Provision.Yaml.Scalar.quotedText` — scalars between quotes, with their escapes;
* `Provision.Yaml.Scalar.block` — literal and folded block scalars.
-/

import Provision.Yaml.Cursor
import Provision.Yaml.Fault

set_option relaxedAutoImplicit false
set_option autoImplicit false

namespace Provision.Yaml.Scalar

/-! ### Plain scalars -/

/-- Whether a plain scalar ends before `c`, with `next` behind it. -/
def endsPlain (inFlow : Bool) (c : Char) (next : Option Char) : Bool :=
  isBlank c || isBreak c ||
    (c = ':' && next.all fun x => isBlank x || isBreak x || (inFlow && isFlowIndicator x)) ||
    (inFlow && (c = '?' || isFlowIndicator c))

/-- The longest run of characters that belongs to a plain scalar. -/
def plainRun (inFlow : Bool) : List Char → List Char
  | [] => []
  | c :: rest => if endsPlain inFlow c rest.head? then [] else c :: plainRun inFlow rest

/-- Reads further line ends and the spaces between them.  The result is none if a document marker
stands at the start of a line. -/
def furtherBreaks : Nat → Cursor → List Char → Option (List Char) × Cursor
  | 0, c, breaks => (some breaks, c)
  | fuel + 1, c, breaks =>
      if c.at? ' ' then furtherBreaks fuel c.advance breaks
      else if c.atClass isBreak then
        let (b, c) := c.lineBreak
        if c.atMarker then (none, c) else furtherBreaks fuel c (breaks ++ b)
      else (some breaks, c)

/-- The text of folded line ends: the first one alone counts as a space. -/
def fold (first further : List Char) : List Char :=
  (if first ≠ ['\n'] then first else if further = [] then [' '] else []) ++ further

/-- What stands between two runs of a plain scalar: the text that it counts for, the cursor behind
it, and whether a line ended.  Nothing at all ends the scalar. -/
def plainGap (c : Cursor) : List Char × Cursor × Bool :=
  let spaces := c.run (· = ' ')
  let c := c.pastSpaces
  if c.atClass isBreak then
    let (first, c) := c.lineBreak
    if c.atMarker then ([], c, true)
    else match furtherBreaks (c.rest.length + 1) c [] with
      | (none, c) => ([], c, true)
      | (some further, c) => (fold first further, c, true)
  else (spaces, c, false)

/-- Reads runs and gaps of a plain scalar; `gap` is what was read before the next run.  The flag of
the result tells whether the cursor has come to a new line. -/
def plainRuns (inFlow : Bool) (indent : Int) :
    Nat → Cursor → List Char → List Char → Bool → List Char × Cursor × Bool
  | 0, c, _, text, fresh => (text, c, fresh)
  | fuel + 1, c, gap, text, fresh =>
      let run := if c.at? '#' then [] else plainRun inFlow c.rest
      if run = [] then (text, c, fresh)
      else
        let text := text ++ gap ++ run
        let (gap, c, fresh) := plainGap (c.advanceBy run.length)
        if gap = [] ∨ c.at? '#' ∨ (inFlow = false ∧ (c.column : Int) < indent) then
          (text, c, fresh)
        else plainRuns inFlow indent fuel c gap text fresh

/-- **A plain scalar** in lines indented by at least `indent`: its text, the cursor behind it, and
whether that is at the start of a new line. -/
def plain (inFlow : Bool) (indent : Int) (c : Cursor) : List Char × Cursor × Bool :=
  plainRuns inFlow indent (c.rest.length + 1) c [] [] false

/-! ### Quoted scalars -/

/-- What a one-letter escape stands for. -/
def escaped? (c : Char) : Option Char :=
  match c with
  | '0' => some '\x00'
  | 'a' => some '\x07'
  | 'b' => some '\x08'
  | 't' => some '\t'
  | '\t' => some '\t'
  | 'n' => some '\n'
  | 'v' => some '\x0b'
  | 'f' => some '\x0c'
  | 'r' => some '\r'
  | 'e' => some '\x1b'
  | ' ' => some ' '
  | '/' => some '/'
  | 'N' => some '\x85'
  | '_' => some '\xa0'
  | 'L' => some '\u2028'
  | 'P' => some '\u2029'
  | c => if c = '\x22' ∨ c = '\x5c' then some c else none

/-- How many hexadecimal digits an escape letter asks for. -/
def escapeWidth? (c : Char) : Option Nat :=
  match c with
  | 'x' => some 2
  | 'u' => some 4
  | 'U' => some 8
  | _ => none

/-- Reads the line ends behind a line end inside quotes, and the blanks at the start of each
line. -/
def quotedBreaks : Nat → Cursor → List Char → Except Fault (List Char × Cursor)
  | 0, c, breaks => .ok (breaks, c)
  | fuel + 1, c, breaks =>
      if c.atMarker then .error .markerInQuote
      else
        let c := c.advanceWhile isBlank
        if c.atClass isBreak then
          let (b, c) := c.lineBreak
          quotedBreaks fuel c (breaks ++ b)
        else .ok (breaks, c)

/-- Reads the number of an escape, which has `width` hexadecimal digits. -/
def escapeNumber (width : Nat) (c : Cursor) : Except Fault (Nat × Cursor) :=
  let digits := c.rest.take width
  match (if digits.length = width then hexNumber? digits else none) with
  | none => .error .escape
  | some n =>
      if n < 0x110000 then .ok (n, c.advanceBy width)
      else .error (.overrun (if n < 0x80000000 then .character else .word))

/-- Whether a number is that of half a character. -/
def isHalf (n : Nat) : Bool := 0xD800 ≤ n && n < 0xE000

/-- Reads an escape by number, which has `width` digits.  Halves do not make up a character, not even
where two of them stand side by side. -/
def numericEscape (width : Nat) (c : Cursor) : Except Fault (List Char × Cursor) := do
  let (n, c) ← escapeNumber width c
  if isHalf n then throw (.overrun .half)
  return ([Char.ofNat n], c)

/-- Reads what stands behind a backslash in double quotes. -/
def escapeSequence (c : Cursor) : Except Fault (List Char × Cursor) :=
  match c.peek with
  | none => .error .escape
  | some x =>
      match escaped? x with
      | some y => .ok ([y], c.advance)
      | none =>
          match escapeWidth? x with
          | some width => numericEscape width c.advance
          | none =>
              if isBreak x then quotedBreaks (c.rest.length + 1) c.lineBreak.2 []
              else .error .escape

/-- Whether a character stands for itself between quotes wherever it stands. -/
def isQuotedChar (c : Char) : Bool :=
  !(c = '\x27' || c = '\x22' || c = '\x5c' || isBlank c || isBreak c)

/-- Reads a quoted scalar up to its quote.  `double` tells which quote it is. -/
def quotedRuns (double : Bool) : Nat → Cursor → List Char → Except Fault (List Char × Cursor)
  | 0, _, _ => .error .unclosedQuote
  | fuel + 1, c, text => do
      let run := c.run isQuotedChar
      let c := c.advanceBy run.length
      let text := text ++ run
      match c.peek with
      | none => .error .unclosedQuote
      | some x =>
          if x = '\x27' ∧ double = false then
            if c.at? '\x27' 1 then quotedRuns double fuel (c.advanceBy 2) (text ++ ['\x27'])
            else .ok (text, c.advance)
          else if x = '\x22' ∧ double = true then .ok (text, c.advance)
          else if x = '\x5c' ∧ double = true then
            let (piece, c) ← escapeSequence c.advance
            quotedRuns double fuel c (text ++ piece)
          else if isBlank x ∨ isBreak x then
            let blanks := c.run isBlank
            let c := c.advanceWhile isBlank
            if c.rest = [] then .error .unclosedQuote
            else if c.atClass isBreak then
              let (first, c) := c.lineBreak
              let (further, c) ← quotedBreaks (c.rest.length + 1) c []
              quotedRuns double fuel c (text ++ fold first further)
            else quotedRuns double fuel c (text ++ blanks)
          else quotedRuns double fuel c.advance (text ++ [x])

/-- **A quoted scalar**: its text and the cursor behind the closing quote.  The cursor stands at
the opening quote. -/
def quotedText (double : Bool) (c : Cursor) : Except Fault (List Char × Cursor) :=
  quotedRuns double (c.rest.length + 1) c.advance []

/-! ### Block scalars -/

/-- What becomes of the line ends at the end of a block scalar. -/
inductive Chomping where
  /-- All of them go. -/
  | strip
  /-- The first one stays. -/
  | clip
  /-- All of them stay. -/
  | keep
  deriving DecidableEq, Repr, Inhabited

/-- The sign that sets the chomping. -/
def chompingSign? (c : Char) : Option Chomping :=
  if c = '+' then some .keep else if c = '-' then some .strip else none

/-- The header of a block scalar behind its `|` or `>`: an indentation digit and a chomping sign,
in either order, each at most once; then blanks and a comment up to the end of the line. -/
def blockHeader (c : Cursor) : Except Fault (Chomping × Option Nat × Cursor) := do
  let sign (c : Cursor) : Option Chomping × Cursor :=
    match c.peek.bind chompingSign? with
    | some s => (some s, c.advance)
    | none => (none, c)
  let digit (c : Cursor) : Option Nat × Cursor :=
    match c.peek with
    | some x => if '0' ≤ x ∧ x ≤ '9' then (some (x.toNat - '0'.toNat), c.advance) else (none, c)
    | none => (none, c)
  let (before, c) := sign c
  let (increment, c) := digit c
  let (after, c) :=
    if before.isNone ∧ increment.isSome then sign c else (none, c)
  if increment = some 0 then throw .blockHeader
  if !c.atSpaceOrBreak then throw .blockHeader
  let c := c.pastSpaces
  let c := if c.at? '#' then c.toLineEnd else c
  if !c.atLineEnd then throw .blockHeader
  return ((before.or after).getD .clip, increment, c.lineBreak.2)

/-- Reads blank lines, and finds how far the farthest of them is indented, the line behind them
included. -/
def leadingBreaks : Nat → Cursor → List Char → Nat → List Char × Nat × Cursor
  | 0, c, breaks, deepest => (breaks, deepest, c)
  | fuel + 1, c, breaks, deepest =>
      if c.at? ' ' then
        let c := c.advance
        leadingBreaks fuel c breaks (max deepest c.column)
      else if c.atClass isBreak then
        let (b, c) := c.lineBreak
        leadingBreaks fuel c (breaks ++ b) deepest
      else (breaks, deepest, c)

/-- Moves past at most as many spaces as are missing to the column `indent`. -/
def indentTo (indent : Nat) (c : Cursor) : Cursor :=
  c.advanceBy ((c.run (· = ' ')).take (indent - c.column)).length

/-- Reads blank lines of a block scalar whose lines start at column `indent`, and the indentation
of the line behind them. -/
def blockBreaks (indent : Nat) : Nat → Cursor → List Char → List Char × Cursor
  | 0, c, breaks => (breaks, c)
  | fuel + 1, c, breaks =>
      let c := indentTo indent c
      if c.atClass isBreak then
        let (b, c) := c.lineBreak
        blockBreaks indent fuel c (breaks ++ b)
      else (breaks, c)

/-- Reads the lines of a block scalar.  `breaks` are the blank lines before the next line, and
`text` what was read so far.  The result has the last line end and the blank lines after it apart,
for the chomping. -/
def blockLines (folded : Bool) (indent : Nat) :
    Nat → Cursor → List Char → List Char → List Char × List Char × List Char × Cursor
  | 0, c, breaks, text => (text, [], breaks, c)
  | fuel + 1, c, breaks, text =>
      if c.column = indent ∧ c.rest ≠ [] then
        let opensWithBlank := c.atClass isBlank
        let line := c.run fun x => !isBreak x
        let text := text ++ breaks ++ line
        let (lineEnd, c) := (c.advanceBy line.length).lineBreak
        let (breaks, c) := blockBreaks indent (c.rest.length + 1) c []
        if c.column = indent ∧ c.rest ≠ [] then
          let joint :=
            if folded ∧ lineEnd = ['\n'] ∧ opensWithBlank = false ∧ c.atClass isBlank = false then
              if breaks = [] then [' '] else []
            else lineEnd
          blockLines folded indent fuel c breaks (text ++ joint)
        else (text, lineEnd, breaks, c)
      else (text, [], breaks, c)

/-- **A block scalar** inside a block indented by `outer`: its text and the cursor behind it.  The
cursor stands at the `|` or `>`. -/
def block (folded : Bool) (outer : Int) (c : Cursor) : Except Fault (List Char × Cursor) := do
  let (chomping, increment, c) ← blockHeader c.advance
  let least := (max (outer + 1) 1).toNat
  let fuel := c.rest.length + 1
  let (indent, breaks, c) :=
    match increment with
    | none =>
        let (breaks, deepest, c) := leadingBreaks fuel c [] 0
        (max least deepest, breaks, c)
    | some n =>
        let indent := least + n - 1
        let (breaks, c) := blockBreaks indent fuel c []
        (indent, breaks, c)
  let (text, lineEnd, breaks, c) := blockLines folded indent fuel c breaks []
  match chomping with
  | .strip => return (text, c)
  | .clip => return (text ++ lineEnd, c)
  | .keep => return (text ++ lineEnd ++ breaks, c)

end Provision.Yaml.Scalar
