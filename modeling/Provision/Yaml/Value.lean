/-
**Values of documents.**

A document holds one value: a text, a list, or a mapping from texts to values.  No text is read as
a number or a date, so that a version such as `1.10` keeps its zero.  A mapping keeps its keys in
the order of their first appearance; a key that comes again keeps its place and takes the new
value.

Main definitions:

* `Provision.Yaml.Value` — the values;
* `Provision.Yaml.Value.get?` — the value of a key;
* `Provision.Yaml.Value.insert` — a mapping with one more pair;
* `Provision.Yaml.Value.kind` — the word for the kind of a value in messages.
-/

set_option relaxedAutoImplicit false
set_option autoImplicit false

namespace Provision.Yaml

/-- The value of a document or of a part of it. -/
inductive Value where
  | scalar (text : String)
  | sequence (items : List Value)
  /-- A mapping, its pairs in order. -/
  | mapping (pairs : List (String × Value))
  deriving Inhabited

namespace Value

/-- The pairs of a mapping after setting `key` to `value`. -/
def insert (key : String) (value : Value) : List (String × Value) → List (String × Value)
  | [] => [(key, value)]
  | (k, v) :: rest => if k = key then (k, value) :: rest else (k, v) :: insert key value rest

/-- The value of a key among the pairs of a mapping. -/
def get? (pairs : List (String × Value)) (key : String) : Option Value := pairs.lookup key

/-- The word for the kind of a value that messages use; nothing at all is a kind of its own. -/
def kind : Option Value → String
  | none => "NoneType"
  | some (scalar _) => "str"
  | some (sequence _) => "list"
  | some (mapping _) => "dict"

end Value

end Provision.Yaml
