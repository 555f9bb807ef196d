/-
**From text to tokens.**

The reader goes through the text once.  Indentation opens and closes lists and mappings of the
block style.  Whether a token is a mapping key shows only at the colon behind it, so the reader
remembers for each open bracket the last place where a key could have started; the key token, and
with it perhaps the start of a mapping, is put there when the colon comes.  A key must stand on the
line of its colon and at most 1024 characters before it.

Where a fault stops the reader, the tokens before it still count: they may hold a fault of their own
that is met first.  Behind a place that could still have become a key nothing is certain, so the
tokens end there.

Main definitions:

* `Provision.Yaml.TokenStream` — tokens, and what ends them;
* `Provision.Yaml.PendingKey`, `Provision.Yaml.Reader` — the state of the reader;
* `Provision.Yaml.Reader.fetch` — reads one token;
* `Provision.Yaml.Reader.settled` — the tokens that are certain;
* `Provision.Yaml.tokens` — **the tokens of a text**.
-/

import Provision.Yaml.Token.Property
import Provision.Yaml.Token.Scalar

set_option relaxedAutoImplicit false
set_option autoImplicit false

namespace Provision.Yaml

/-- The tokens of a text, as far as they can be read. -/
structure TokenStream where
  tokens : List Token
  /-- Why there are no further ones; none at the end of the text. -/
  fault : Option Fault := none
  deriving DecidableEq, Repr, Inhabited

/-- A place where a mapping key may have started. -/
structure PendingKey where
  /-- How many tokens stand before the key. -/
  tokensBefore : Nat
  /-- Whether the place has to turn out to be a key. -/
  required : Bool
  index : Nat
  line : Nat
  column : Nat
  deriving DecidableEq, Repr, Inhabited

/-- Whether a key at the place may have its colon at the cursor. -/
def PendingKey.reaches (k : PendingKey) (c : Cursor) : Bool :=
  k.line = c.line && c.index - k.index ≤ 1024

/-- The state of the reader. -/
structure Reader where
  cursor : Cursor
  /-- The tokens so far, the last one first. -/
  emitted : List Token := []
  /-- The column of the innermost open block; -1 outside of all blocks. -/
  indent : Int := -1
  /-- The columns of the blocks around it. -/
  indents : List Int := []
  /-- Whether a key may start here. -/
  keyAllowed : Bool := true
  /-- The place of a possible key inside the innermost bracket. -/
  pending : Option PendingKey := none
  /-- The same for the brackets around it, the outermost last; empty outside of all brackets. -/
  outer : List (Option PendingKey) := []
  deriving Inhabited

namespace Reader

/-- Whether the reader is inside a bracket. -/
def inFlow (r : Reader) : Bool := !r.outer.isEmpty

/-- Appends a token. -/
def emit (r : Reader) (t : Token) : Reader := { r with emitted := t :: r.emitted }

/-- Inserts a token behind the first `n` ones. -/
def insertAt (r : Reader) (n : Nat) (t : Token) : Reader :=
  let late := r.emitted.length - n
  { r with emitted := r.emitted.take late ++ t :: r.emitted.drop late }

/-! ### Blanks, comments and indentation -/

/-- Moves to the next token, past blanks, comments and line ends. -/
def skipBlanks : Nat → Reader → Reader
  | 0, r => r
  | fuel + 1, r =>
      let c := r.cursor.pastSpaces
      let c := if c.at? '#' then c.toLineEnd else c
      if c.atClass isBreak then
        skipBlanks fuel
          { r with cursor := c.lineBreak.2, keyAllowed := r.keyAllowed || !r.inFlow }
      else { r with cursor := c }

/-- Closes the blocks that are indented further than `column`. -/
def unwindFrom (column : Int) : List Int → Reader → Reader
  | [], r => r
  | outer :: rest, r =>
      if r.indent > column then
        unwindFrom column rest { r with indent := outer, indents := rest,
                                        emitted := .blockEnd :: r.emitted }
      else r

/-- Closes blocks by indentation; inside brackets there are none to close. -/
def unwind (r : Reader) (column : Int) : Reader :=
  if r.inFlow then r else unwindFrom column r.indents r

/-- Whether a block opens at `column`. -/
def opensBlock (r : Reader) (column : Nat) : Bool := r.indent < (column : Int)

/-- Opens a block at `column`. -/
def openBlock (r : Reader) (column : Nat) : Reader :=
  { r with indent := column, indents := r.indent :: r.indents }

/-! ### Possible keys -/

/-- Forgets a possible key that can no longer be one. -/
def expire (c : Cursor) : Option PendingKey → Except Fault (Option PendingKey)
  | none => .ok none
  | some k =>
      if k.reaches c then .ok (some k)
      else if k.required then .error .missingColon
      else .ok none

/-- Forgets the possible keys that can no longer be one. -/
def expireKeys (r : Reader) : Except Fault Reader := do
  let outer ← r.outer.mapM (expire r.cursor)
  let pending ← expire r.cursor r.pending
  return { r with pending, outer }

/-- Gives up the possible key inside the innermost bracket. -/
def dropKey (r : Reader) : Except Fault Reader :=
  match r.pending with
  | some k => if k.required then .error .missingColon else .ok { r with pending := none }
  | none => .ok r

/-- Remembers this place as that of a possible key, if one may start here. -/
def saveKey (r : Reader) : Except Fault Reader :=
  if r.keyAllowed then do
    let r ← r.dropKey
    let c := r.cursor
    let required : Bool := !r.inFlow && r.indent = (c.column : Int)
    return { r with pending := some ⟨r.emitted.length, required, c.index, c.line, c.column⟩ }
  else .ok r

/-! ### The tokens -/

/-- A document marker or directive closes all blocks. -/
def closeAll (r : Reader) : Except Fault Reader := do
  let r ← (r.unwind (-1)).dropKey
  return { r with keyAllowed := false }

/-- A directive. -/
def fetchDirective (r : Reader) : Except Fault Reader := do
  let r ← r.closeAll
  let (d, cursor) ← Property.directive r.cursor
  return { r with cursor, emitted := .directive d :: r.emitted }

/-- A document marker. -/
def fetchMarker (r : Reader) (t : Token) : Except Fault Reader := do
  let r ← r.closeAll
  return { r with cursor := r.cursor.advanceBy 3, emitted := t :: r.emitted }

/-- An opening bracket, which may also start a key. -/
def fetchOpening (r : Reader) (t : Token) : Except Fault Reader := do
  let r ← r.saveKey
  return { r with
    cursor := r.cursor.advance, emitted := t :: r.emitted, keyAllowed := true,
    pending := none, outer := r.pending :: r.outer }

/-- A closing bracket. -/
def fetchClosing (r : Reader) (t : Token) : Except Fault Reader := do
  let r ← r.dropKey
  match r.outer with
  | [] => throw .unopenedBracket
  | pending :: outer =>
      return { r with
        cursor := r.cursor.advance, emitted := t :: r.emitted, keyAllowed := false,
        pending, outer }

/-- A comma inside brackets. -/
def fetchComma (r : Reader) : Except Fault Reader := do
  let r ← r.dropKey
  return { r with
    cursor := r.cursor.advance, emitted := .flowEntry :: r.emitted, keyAllowed := true }

/-- The hyphen of a list entry. -/
def fetchEntry (r : Reader) : Except Fault Reader := do
  if !r.inFlow && !r.keyAllowed then throw .misplaced
  let column := r.cursor.column
  let r :=
    if !r.inFlow && r.opensBlock column then (r.openBlock column).emit .blockSequenceStart else r
  let r ← r.dropKey
  return { r with
    cursor := r.cursor.advance, emitted := .blockEntry :: r.emitted, keyAllowed := true }

/-- The question mark of an explicit key. -/
def fetchKey (r : Reader) : Except Fault Reader := do
  if !r.inFlow && !r.keyAllowed then throw .misplaced
  let column := r.cursor.column
  let r :=
    if !r.inFlow && r.opensBlock column then (r.openBlock column).emit .blockMappingStart else r
  let r ← r.dropKey
  return { r with
    cursor := r.cursor.advance, emitted := .key :: r.emitted, keyAllowed := !r.inFlow }

/-- The colon before a value.  If a key may have started before it, that place becomes a key. -/
def fetchValue (r : Reader) : Except Fault Reader := do
  match r.pending with
  | some k =>
      let r := { r.insertAt k.tokensBefore .key with pending := none, keyAllowed := false }
      let r :=
        if !r.inFlow && r.opensBlock k.column then
          (r.openBlock k.column).insertAt k.tokensBefore .blockMappingStart
        else r
      return { r with cursor := r.cursor.advance, emitted := .value :: r.emitted }
  | none =>
      if !r.inFlow && !r.keyAllowed then throw .misplaced
      let column := r.cursor.column
      let r :=
        if !r.inFlow && r.opensBlock column then
          (r.openBlock column).emit .blockMappingStart
        else r
      return { r with
        cursor := r.cursor.advance, emitted := .value :: r.emitted, keyAllowed := !r.inFlow }

/-- An anchor or an alias. -/
def fetchName (r : Reader) (token : String → Token) : Except Fault Reader := do
  let r ← r.saveKey
  let (name, cursor) ← Property.name r.cursor
  return { r with cursor, emitted := token name :: r.emitted, keyAllowed := false }

/-- A tag. -/
def fetchTag (r : Reader) : Except Fault Reader := do
  let r ← r.saveKey
  let (handle, cursor) ← Property.tag r.cursor
  return { r with cursor, emitted := .tag handle :: r.emitted, keyAllowed := false }

/-- A block scalar.  A key may follow it. -/
def fetchBlock (r : Reader) (folded : Bool) : Except Fault Reader := do
  let r ← r.dropKey
  let (text, cursor) ← Scalar.block folded r.indent r.cursor
  return { r with
    cursor, emitted := .scalar (String.ofList text) :: r.emitted, keyAllowed := true }

/-- A quoted scalar. -/
def fetchQuoted (r : Reader) (double : Bool) : Except Fault Reader := do
  let r ← r.saveKey
  let (text, cursor) ← Scalar.quotedText double r.cursor
  return { r with
    cursor, emitted := .scalar (String.ofList text) :: r.emitted, keyAllowed := false }

/-- A plain scalar.  A key may follow it only if it ended at the start of a new line. -/
def fetchPlain (r : Reader) : Except Fault Reader := do
  let r ← r.saveKey
  let (text, cursor, fresh) := Scalar.plain r.inFlow (r.indent + 1) r.cursor
  return { r with
    cursor, emitted := .scalar (String.ofList text) :: r.emitted, keyAllowed := fresh }

/-- The characters that cannot start a plain scalar. -/
def isIndicator (c : Char) : Bool :=
  isFlowIndicator c ||
    c ∈ ['-', '?', ':', '#', '&', '*', '!', '|', '>', '\x27', '\x22', '%', '@', '\x60']

/-- Whether a plain scalar can start here. -/
def startsPlain (r : Reader) : Bool :=
  match r.cursor.peek with
  | none => false
  | some x =>
      !(isBlank x || isBreak x || isIndicator x) ||
        (!r.cursor.atSeparator 1 && (x = '-' || (!r.inFlow && (x = '?' || x = ':'))))

/-- **Reads the token that starts with `x`**, the character under the cursor. -/
def fetch (r : Reader) (x : Char) : Except Fault Reader :=
  let c := r.cursor
  let spaced := r.inFlow || c.atSeparator 1
  if x = '%' ∧ c.column = 0 then r.fetchDirective
  else if c.column = 0 ∧ c.atTriple '-' then r.fetchMarker .documentStart
  else if c.column = 0 ∧ c.atTriple '.' then r.fetchMarker .documentEnd
  else if x = '[' then r.fetchOpening .flowSequenceStart
  else if x = '\x7b' then r.fetchOpening .flowMappingStart
  else if x = ']' then r.fetchClosing .flowSequenceEnd
  else if x = '\x7d' then r.fetchClosing .flowMappingEnd
  else if x = ',' then r.fetchComma
  else if x = '-' ∧ c.atSeparator 1 then r.fetchEntry
  else if x = '?' ∧ spaced then r.fetchKey
  else if x = ':' ∧ spaced then r.fetchValue
  else if x = '*' then r.fetchName .alias
  else if x = '&' then r.fetchName .anchor
  else if x = '!' then r.fetchTag
  else if x = '|' ∧ r.inFlow = false then r.fetchBlock false
  else if x = '>' ∧ r.inFlow = false then r.fetchBlock true
  else if x = '\x27' then r.fetchQuoted false
  else if x = '\x22' then r.fetchQuoted true
  else if r.startsPlain then r.fetchPlain
  else .error .strayCharacter

/-! ### Reading on -/

/-- Moves to the next token, and closes the blocks that end before it. -/
def approach (r : Reader) : Except Fault Reader := do
  let r ← (skipBlanks (r.cursor.rest.length + 1) r).expireKeys
  return r.unwind r.cursor.column

/-- Reads the next token, and tells whether there was one; at the end of the text all blocks are
closed instead. -/
def advance (r : Reader) : Except Fault (Bool × Reader) := do
  let r ← r.approach
  match r.cursor.peek with
  | some x => return (true, ← r.fetch x)
  | none => return (false, ← (r.unwind (-1)).dropKey)

/-- The possible keys of all brackets that may still become keys. -/
def openKeys (r : Reader) : List PendingKey :=
  (r.pending :: r.outer).filterMap fun k => k.filter (·.reaches r.cursor)

/-- **The tokens that are certain**: those before the first place that may still become a key. -/
def settled (r : Reader) : List Token :=
  r.emitted.reverse.take ((r.openKeys.map (·.tokensBefore)).foldl min r.emitted.length)

/-- Reads tokens up to the end of the text or a fault.  `fuel` bounds their number. -/
def readAll : Nat → Reader → TokenStream
  | 0, r => ⟨r.settled, some .strayCharacter⟩
  | fuel + 1, r =>
      match r.advance with
      | .error fault => ⟨r.settled, some fault⟩
      | .ok (true, r) => readAll fuel r
      | .ok (false, r) => ⟨r.emitted.reverse, none⟩

end Reader

/-- The cursor at the start of a text, behind a byte order mark. -/
def Cursor.start (text : List Char) : Cursor :=
  if text.head? = some '\ufeff' then Cursor.advance ⟨text, 0, 0, 0⟩ else ⟨text, 0, 0, 0⟩

/-- **The tokens of a text.**  A text with a character that documents may not hold has none. -/
def tokens (text : List Char) : TokenStream :=
  if text.all isAllowed then
    Reader.readAll (text.length + 1) { cursor := Cursor.start text }
  else ⟨[], some .forbiddenCharacter⟩

end Provision.Yaml
