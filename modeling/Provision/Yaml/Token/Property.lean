/-
**Directives, anchors and tags.**

The parts of a document that say something about a value instead of being one.  Of a tag only the
handle matters, which has to be declared; values keep their text whatever their tag says.

Main definitions:

* `Provision.Yaml.Property.directive` — a line that starts with a percent sign;
* `Provision.Yaml.Property.name` — the name of an anchor or alias;
* `Provision.Yaml.Property.tag` — a tag.
-/

import Provision.Yaml.Cursor
import Provision.Yaml.Fault
import Provision.Yaml.Token

set_option relaxedAutoImplicit false
set_option autoImplicit false

namespace Provision.Yaml.Property

/-- A non-empty run of name characters. -/
def nameRun (c : Cursor) (fault : Fault) : Except Fault (String × Cursor) :=
  let run := c.run isNameChar
  if run = [] then .error fault else .ok (String.ofList run, c.advanceBy run.length)

/-! ### Anchors and aliases -/

/-- What may follow the name of an anchor or alias. -/
def endsName (c : Char) : Bool :=
  isBlank c || isBreak c || c ∈ ['?', ':', ',', ']', '\x7d', '%', '@', '\x60']

/-- The name of an anchor or alias; the cursor stands at its sign. -/
def name (c : Cursor) : Except Fault (String × Cursor) := do
  let (name, c) ← nameRun c.advance .anchorName
  if c.atEndOr endsName then return (name, c) else throw .anchorName

/-! ### Tags -/

/-- The characters of the part of a tag that is not the handle. -/
def isUriChar (c : Char) : Bool :=
  c.isAlphanum ||
    c ∈ ['-', ';', '/', '?', ':', '@', '&', '=', '+', '$', ',', '_', '.', '!', '~', '*', '\x27',
      '(', ')', '[', ']', '%']

/-- Reads percent escapes that stand side by side: the bytes that they write. -/
def percentBytes : Nat → Cursor → List UInt8 → Except Fault (List UInt8 × Cursor)
  | 0, c, bytes => .ok (bytes, c)
  | fuel + 1, c, bytes =>
      if c.at? '%' then
        let c := c.advance
        let digits := c.rest.take 2
        match (if digits.length = 2 then hexNumber? digits else none) with
        | none => .error .tag
        | some n => percentBytes fuel (c.advanceBy 2) (bytes ++ [n.toUInt8])
      else .ok (bytes, c)

/-- Reads a run of tag characters with percent escapes, and tells whether there was any. -/
def uriRuns : Nat → Cursor → Bool → Except Fault (Bool × Cursor)
  | 0, c, any => .ok (any, c)
  | fuel + 1, c, any => do
      if c.at? '%' then
        let (bytes, c) ← percentBytes (c.rest.length + 1) c []
        if (String.fromUTF8? (ByteArray.mk bytes.toArray)).isNone then throw .tag
        uriRuns fuel c true
      else if c.atClass isUriChar then
        uriRuns fuel (c.advanceWhile fun x => isUriChar x && x ≠ '%') true
      else return (any, c)

/-- The part of a tag that is not the handle; the result is its text as written. -/
def uri (c : Cursor) : Except Fault (String × Cursor) := do
  let (any, after) ← uriRuns (c.rest.length + 1) c false
  if any then return (String.ofList (c.rest.take (after.index - c.index)), after) else throw .tag

/-- A tag handle: `!`, `!!` or `!name!`. -/
def handle (c : Cursor) : Except Fault (String × Cursor) :=
  if !c.at? '!' then .error .tag
  else
    let c := c.advance
    if c.at? ' ' then .ok ("!", c)
    else
      let run := c.run isNameChar
      let c := c.advanceBy run.length
      if c.at? '!' then .ok (String.ofList ('!' :: run ++ ['!']), c.advance)
      else .error .tag

/-- A tag: its handle, if it has one, and the cursor behind it.  The cursor stands at the `!`. -/
def tag (c : Cursor) : Except Fault (Option String × Cursor) := do
  let (found, c) ←
    if c.at? '<' 1 then do
      let (_, c) ← uri (c.advanceBy 2)
      if c.at? '>' then pure (none, c.advance) else throw .tag
    else if c.atSeparator 1 then pure (none, c.advance)
    else do
      let ahead := c.advance.run fun x => !(x = '!' || x = ' ' || isBreak x)
      let (found, c) ←
        if c.advance.at? '!' ahead.length then handle c else pure ("!", c.advance)
      let (_, c) ← uri c
      pure (some found, c)
  if c.atSpaceOrBreak then return (found, c) else throw .tag

/-! ### Directives -/

/-- A decimal number, which may not have too many digits. -/
def number (c : Cursor) : Except Fault (Nat × Cursor) :=
  let run := c.run Char.isDigit
  if run = [] then .error .directive
  else if Text.maxDigits < run.length then .error (.overrun (.digits run.length))
  else .ok (run.foldl (fun n x => 10 * n + (x.toNat - '0'.toNat)) 0, c.advanceBy run.length)

/-- The version behind `%YAML`. -/
def versionDirective (c : Cursor) : Except Fault (Directive × Cursor) := do
  let (major, c) ← number c.pastSpaces
  if !c.at? '.' then throw .directive
  let (minor, c) ← number c.advance
  if c.atSpaceOrBreak then return (.version major minor, c) else throw .directive

/-- The handle and its meaning behind `%TAG`. -/
def handleDirective (c : Cursor) : Except Fault (Directive × Cursor) := do
  let (handle, c) ← handle c.pastSpaces
  if !c.at? ' ' then throw .directive
  let (uri, c) ← uri c.pastSpaces
  if c.atSpaceOrBreak then return (.handle handle uri, c) else throw .directive

/-- A directive with the rest of its line; the cursor stands at the percent sign. -/
def directive (c : Cursor) : Except Fault (Directive × Cursor) := do
  let (name, c) ← nameRun c.advance .directive
  if !c.atSpaceOrBreak then throw .directive
  let (d, c) ←
    if name = "YAML" then versionDirective c
    else if name = "TAG" then handleDirective c
    else pure (.other name, c.toLineEnd)
  let c := c.pastSpaces
  let c := if c.at? '#' then c.toLineEnd else c
  if c.atLineEnd then return (d, c.lineBreak.2) else throw .directive

end Provision.Yaml.Property
