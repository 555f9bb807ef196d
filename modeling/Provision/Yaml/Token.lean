/-
**Tokens of a document.**

A document is first cut into tokens.  Brackets and commas of the flow style are tokens of their
own; the block style has tokens for the start and the end of a list or mapping, which stand in the
text as indentation only.

Main definitions:

* `Provision.Yaml.Directive` — the directives before a document;
* `Provision.Yaml.Token` — the tokens.
-/

set_option relaxedAutoImplicit false
set_option autoImplicit false

namespace Provision.Yaml

/-- A directive before a document. -/
inductive Directive where
  /-- The version of the format that the document is written in. -/
  | version (major minor : Nat)
  /-- A tag handle and what it stands for. -/
  | handle (handle uri : String)
  /-- Any other directive; it has no effect. -/
  | other (name : String)
  deriving DecidableEq, Repr, Inhabited

/-- A token of a document. -/
inductive Token where
  | directive (d : Directive)
  | documentStart
  | documentEnd
  | blockSequenceStart
  | blockMappingStart
  | blockEnd
  | flowSequenceStart
  | flowSequenceEnd
  | flowMappingStart
  | flowMappingEnd
  | blockEntry
  | flowEntry
  | key
  | value
  | alias (name : String)
  | anchor (name : String)
  | tag (handle : Option String)
  | scalar (text : String)
  deriving DecidableEq, Repr, Inhabited

end Provision.Yaml
