/-
**From tokens to the value of a document.**

A stream of tokens holds at most one document.  Its value is read by descending through lists and
mappings.  An anchor gives a name to a value, and an alias stands for the value of its anchor; an
alias inside the value that it stands for is refused, and so is a key that is a list or a mapping.

Of several faults the first one to be met counts.  Tokens are looked at only when they are needed,
so the fault that ends the stream is met when the token behind the last one is needed.  A refused
alias or key is met last of all, when the whole stream has been read and the value is put together.

Main definitions:

* `Provision.Yaml.Anchors` — the values that have a name;
* `Provision.Yaml.Parse` — the tokens still to be read, the anchors so far, and the fault that is
  met last;
* `Provision.Yaml.node` and its companions — the value at the start of a list of tokens;
* `Provision.Yaml.document`, `Provision.Yaml.TokenStream.value` — the value of a stream of tokens, and
  with regard to the room that it takes;
* `Provision.Yaml.parse` — **the value of a text**.
-/

import Provision.Text.Utf8
import Provision.Yaml.Depth
import Provision.Yaml.Value

set_option relaxedAutoImplicit false
set_option autoImplicit false

namespace Provision.Yaml

/-- The anchors so far, the last one first.  An anchor whose value is still being read has none
yet. -/
abbrev Anchors := List (String × Option Value)

/-- What is left to read. -/
structure Parse where
  /-- The tokens still to be read, and what ends them. -/
  stream : TokenStream
  /-- The anchors so far. -/
  anchors : Anchors := []
  /-- The first fault that is met only when the value is put together. -/
  deferred : Option Fault := none
  deriving Inhabited

namespace Parse

/-- The next token; none at the end of the stream. -/
def peek (p : Parse) : Except Fault (Option Token) :=
  match p.stream.tokens, p.stream.fault with
  | t :: _, _ => .ok (some t)
  | [], none => .ok none
  | [], some fault => .error fault

/-- Whether the next token is one of these. -/
def nextIn (p : Parse) (ts : List Token) : Except Fault Bool :=
  return (← p.peek).any (· ∈ ts)

/-- With other tokens still to be read. -/
def withTokens (p : Parse) (ts : List Token) : Parse :=
  { p with stream := { p.stream with tokens := ts } }

/-- Without the next token. -/
def skip (p : Parse) : Parse := p.withTokens p.stream.tokens.tail

/-- Notes a fault that is met when the value is put together. -/
def defer (p : Parse) (fault : Fault) : Parse :=
  { p with deferred := p.deferred.or (some fault) }

/-- Gives a name, if there is one, to the value that comes next. -/
def openAnchor (p : Parse) : Option String → Except Fault Parse
  | none => .ok p
  | some name => do
      let _ ← p.peek
      if (p.anchors.lookup name).isSome then throw .repeatedAnchor
      return { p with anchors := (name, none) :: p.anchors }

/-- Sets the value of an anchor. -/
def closeAnchor (p : Parse) (name : Option String) (v : Value) : Parse :=
  match name with
  | none => p
  | some name => { p with anchors := (name, some v) :: p.anchors }

end Parse

/-! ### Properties of a value -/

/-- Checks that the handle of a tag is declared. -/
def checkHandle (handles : List String) : Option String → Except Fault Unit
  | none => .ok ()
  | some h => if h ∈ handles then .ok () else .error .undeclaredHandle

/-- Reads the anchor and the tag of a value, in either order: the anchor's name, and whether there
was one of the two. -/
def properties (handles : List String) (p : Parse) :
    Except Fault (Option String × Bool × Parse) := do
  match ← p.peek with
  | some (.anchor name) =>
      match ← p.skip.peek with
      | some (.tag handle) =>
          checkHandle handles handle
          return (some name, true, p.skip.skip)
      | _ => return (some name, true, p.skip)
  | some (.tag handle) =>
      let second ← p.skip.peek
      checkHandle handles handle
      match second with
      | some (.anchor name) => return (some name, true, p.skip.skip)
      | _ => return (none, true, p.skip)
  | _ => return (none, false, p)

/-- The empty text, which stands for a value that is left out. -/
def absent : Value := .scalar ""

/-- The value that an alias stands for. -/
def aliased (name : String) (p : Parse) : Except Fault (Value × Parse) :=
  match p.anchors.lookup name with
  | none => .error .undefinedAlias
  | some none => .ok (absent, p.defer .recursiveAlias)
  | some (some v) => .ok (v, p)

/-- The text of a key. -/
def keyText (k : Value) (p : Parse) : String × Parse :=
  match k with
  | .scalar s => (s, p)
  | _ => ("", p.defer .compoundKey)

/-! ### Values -/

/-- Where a value stands, which decides what it may be. -/
inductive Context where
  /-- Inside brackets: no block lists and mappings. -/
  | flow
  /-- In the block style. -/
  | block
  /-- In a block mapping, where the entries of a list may stand at the column of the keys. -/
  | inMapping
  deriving DecidableEq, Repr, Inhabited

mutual

/-- **The value at the start of the tokens.** -/
def node (handles : List String) : Nat → Context → Parse → Except Fault (Value × Parse)
  | 0, _, _ => .error .unexpectedToken
  | fuel + 1, ctx, p => do
      match ← p.peek with
      | some (.alias name) => aliased name p.skip
      | _ =>
          let (anchor, given, p) ← properties handles p
          let p ← p.openAnchor anchor
          let (v, p) ← content handles fuel ctx given p
          return (v, p.closeAnchor anchor v)

/-- A value behind its anchor and tag; `given` tells whether it has one of these, in which case it
may be left out. -/
def content (handles : List String) :
    Nat → Context → Bool → Parse → Except Fault (Value × Parse)
  | 0, _, _, _ => .error .unexpectedToken
  | fuel + 1, ctx, given, p => do
      match ← p.peek with
      | some (.scalar s) => return (.scalar s, p.skip)
      | some .flowSequenceStart => flowSequence handles fuel true [] p.skip
      | some .flowMappingStart => flowMapping handles fuel true [] p.skip
      | next =>
          if next = some .blockEntry ∧ ctx = .inMapping then indentless handles fuel [] p
          else if next = some .blockSequenceStart ∧ ctx ≠ .flow then
            blockSequence handles fuel [] p.skip
          else if next = some .blockMappingStart ∧ ctx ≠ .flow then
            blockMapping handles fuel [] p.skip
          else if given then return (absent, p)
          else throw .unexpectedToken

/-- A value, or none where one of the tokens `ends` comes at once. -/
def optional (handles : List String) :
    Nat → Context → List Token → Parse → Except Fault (Value × Parse)
  | 0, _, _, _ => .error .unexpectedToken
  | fuel + 1, ctx, ends, p => do
      if ← p.nextIn ends then return (absent, p) else node handles fuel ctx p

/-- The value behind a key: the empty text unless there is a colon and something behind it. -/
def valuePart (handles : List String) :
    Nat → Context → List Token → Parse → Except Fault (Value × Parse)
  | 0, _, _, _ => .error .unexpectedToken
  | fuel + 1, ctx, ends, p => do
      if ← p.nextIn [.value] then optional handles fuel ctx ends p.skip else return (absent, p)

/-- The entries of a block list behind its start; `items` are those before, the last one first. -/
def blockSequence (handles : List String) :
    Nat → List Value → Parse → Except Fault (Value × Parse)
  | 0, _, _ => .error .unexpectedToken
  | fuel + 1, items, p => do
      match ← p.peek with
      | some .blockEntry =>
          let (v, p) ← optional handles fuel .block [.blockEntry, .blockEnd] p.skip
          blockSequence handles fuel (v :: items) p
      | some .blockEnd => return (.sequence items.reverse, p.skip)
      | _ => throw .unexpectedToken

/-- The entries of a block list at the column of the keys around it. -/
def indentless (handles : List String) :
    Nat → List Value → Parse → Except Fault (Value × Parse)
  | 0, _, _ => .error .unexpectedToken
  | fuel + 1, items, p => do
      match ← p.peek with
      | some .blockEntry =>
          let (v, p) ←
            optional handles fuel .block [.blockEntry, .key, .value, .blockEnd] p.skip
          indentless handles fuel (v :: items) p
      | _ => return (.sequence items.reverse, p)

/-- The pairs of a block mapping behind its start. -/
def blockMapping (handles : List String) :
    Nat → List (String × Value) → Parse → Except Fault (Value × Parse)
  | 0, _, _ => .error .unexpectedToken
  | fuel + 1, pairs, p => do
      match ← p.peek with
      | some .key =>
          let ends := [.key, .value, .blockEnd]
          let (k, p) ← optional handles fuel .inMapping ends p.skip
          let (v, p) ← valuePart handles fuel .inMapping ends p
          let (key, p) := keyText k p
          blockMapping handles fuel (Value.insert key v pairs) p
      | some .blockEnd => return (.mapping pairs, p.skip)
      | _ => throw .unexpectedToken

/-- The entries of a list in brackets; `first` tells whether none came before. -/
def flowSequence (handles : List String) :
    Nat → Bool → List Value → Parse → Except Fault (Value × Parse)
  | 0, _, _, _ => .error .unexpectedToken
  | fuel + 1, first, items, p => do
      if ← p.nextIn [.flowSequenceEnd] then return (.sequence items.reverse, p.skip)
      let p ← if first then pure p
        else if ← p.nextIn [.flowEntry] then pure p.skip
        else throw .unexpectedToken
      match ← p.peek with
      | some .key =>
          let (k, p) ←
            optional handles fuel .flow [.value, .flowEntry, .flowSequenceEnd] p.skip
          let (v, p) ← valuePart handles fuel .flow [.flowEntry, .flowSequenceEnd] p
          let (key, p) := keyText k p
          flowSequence handles fuel false (.mapping [(key, v)] :: items) p
      | some .flowSequenceEnd => return (.sequence items.reverse, p.skip)
      | _ =>
          let (v, p) ← node handles fuel .flow p
          flowSequence handles fuel false (v :: items) p

/-- The pairs of a mapping in brackets; `first` tells whether none came before. -/
def flowMapping (handles : List String) :
    Nat → Bool → List (String × Value) → Parse → Except Fault (Value × Parse)
  | 0, _, _, _ => .error .unexpectedToken
  | fuel + 1, first, pairs, p => do
      if ← p.nextIn [.flowMappingEnd] then return (.mapping pairs, p.skip)
      let p ← if first then pure p
        else if ← p.nextIn [.flowEntry] then pure p.skip
        else throw .unexpectedToken
      match ← p.peek with
      | some .key =>
          let (k, p) ←
            optional handles fuel .flow [.value, .flowEntry, .flowMappingEnd] p.skip
          let (v, p) ← valuePart handles fuel .flow [.flowEntry, .flowMappingEnd] p
          let (key, p) := keyText k p
          flowMapping handles fuel false (Value.insert key v pairs) p
      | some .flowMappingEnd => return (.mapping pairs, p.skip)
      | _ =>
          let (k, p) ← node handles fuel .flow p
          let (key, p) := keyText k p
          flowMapping handles fuel false (Value.insert key absent pairs) p

end

/-- The value at the start of what is left to read, with fuel for all of it. -/
def rootNode (handles : List String) (p : Parse) : Except Fault (Value × Parse) :=
  node handles (4 * p.stream.tokens.length + 4) .block p

/-! ### Documents -/

/-- The directives before a document: the handles that they declare, and the tokens behind them. -/
def directives : List Token → Bool → List String → Except Fault (List String × List Token)
  | .directive (.version major _) :: rest, versioned, handles =>
      if versioned then .error .repeatedDirective
      else if major ≠ 1 then .error .unsupportedVersion
      else directives rest true handles
  | .directive (.handle h _) :: rest, versioned, handles =>
      if h ∈ handles then .error .repeatedDirective else directives rest versioned (h :: handles)
  | .directive (.other _) :: rest, versioned, handles => directives rest versioned handles
  | rest, _, handles => .ok (handles, rest)

/-- The handles that need no declaration. -/
def usualHandles : List String := ["!", "!!"]

/-- The directives and the start of a document: the handles that may be used in it. -/
def documentHead (p : Parse) : Except Fault (List String × Parse) := do
  let (declared, rest) ← directives p.stream.tokens false []
  let p := p.withTokens rest
  if ← p.nextIn [.documentStart] then return (declared ++ usualHandles, p.skip)
  else throw .unexpectedToken

/-- The value behind the start of a document, which may be left out. -/
def documentBody (handles : List String) (p : Parse) : Except Fault (Value × Parse) := do
  match ← p.peek with
  | none | some (.directive _) | some .documentStart | some .documentEnd => return (absent, p)
  | _ => rootNode handles p

/-- The first document of a non-empty stream. -/
def firstDocument (p : Parse) : Except Fault (Value × Parse) := do
  match ← p.peek with
  | some (.directive _) | some .documentStart =>
      let (handles, p) ← documentHead p
      documentBody handles p
  | _ => rootNode usualHandles p

/-- Checks that nothing comes behind a document but marks of its end. -/
def checkEnd (p : Parse) : Except Fault Unit := do
  let p := p.withTokens (p.stream.tokens.dropWhile (· = .documentEnd))
  if (← p.peek).isSome then
    let _ ← documentHead p
    throw .secondDocument

/-- **The value of a stream of tokens**; none if the stream is empty. -/
def document (s : TokenStream) : Except Fault (Option Value) := do
  let p : Parse := { stream := s }
  if (← p.peek).isNone then return none
  let (v, p) ← firstDocument p
  checkEnd p
  match p.deferred with
  | some fault => throw fault
  | none => return some v

/-- **The value of a stream of tokens** for which there is room. -/
def TokenStream.value (s : TokenStream) : Except Fault (Option Value) := do
  let v ← document s.cut
  if s.goesTooDeep then throw (.overrun .nesting)
  return v

/-- A document that does not go too deep has its value. -/
theorem TokenStream.value_eq {s : TokenStream} (h : s.goesTooDeep = false) :
    s.value = document s := by
  rw [value, cut_eq_self h, h]
  cases document s <;> rfl

/-- A document that goes too deep has none. -/
theorem TokenStream.exists_value_eq_error {s : TokenStream} (h : s.goesTooDeep = true) :
    ∃ fault, s.value = .error fault := by
  rw [value, h]
  cases document s.cut with
  | error fault => exact ⟨fault, rfl⟩
  | ok v => exact ⟨.overrun .nesting, rfl⟩

/-- **The value of a text**; none if it holds no document. -/
def parse (text : String) : Except Fault (Option Value) := (tokens (Text.chars text)).value

theorem parse_eq (text : String) : parse text = (tokens text.toList).value := by
  rw [parse, Text.chars_eq]

/-- The value of a text that does not go too deep. -/
theorem parse_eq_document {text : String} (h : (tokens (Text.chars text)).goesTooDeep = false) :
    parse text = document (tokens text.toList) := by
  rw [parse, TokenStream.value_eq h, Text.chars_eq]

/-- Half a character cannot be read, not even next to its other half. -/
example : (match parse "go: \"\\ud83d\\ude00\"" with
    | .error fault => some fault
    | .ok _ => none) = some (.overrun .half) := by decide +kernel

end Provision.Yaml
