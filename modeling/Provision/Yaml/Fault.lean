/-
**Faults of documents.**

Why a document cannot be read.  The causes are told apart here; a message shows nearly all of them
by the same short text.  The exception is what lies beyond what can be read at all: a number that is
too large, half a character, too many levels.  Such an overrun is no ordinary fault, and says what is
wrong.

Main definitions:

* `Provision.Yaml.Overrun`, `Provision.Yaml.Overrun.message` — what is beyond what can be read;
* `Provision.Yaml.Fault`, `Provision.Yaml.Fault.message` — the causes, and the text for each.
-/

import Provision.Text.Integer

set_option relaxedAutoImplicit false
set_option autoImplicit false

namespace Provision.Yaml

/-- What lies beyond what can be read. -/
inductive Overrun where
  /-- An escape for a number above that of the last character. -/
  | character
  /-- An escape for a number that does not even fit into a signed word of 32 bits. -/
  | word
  /-- A number in a directive that has too many digits. -/
  | digits (count : Nat)
  /-- An escape for half a character.  No text can hold one, and no name of a file. -/
  | half
  /-- More lists and mappings inside one another than there is room for. -/
  | nesting
  deriving DecidableEq, Repr, Inhabited

/-- The text of an overrun. -/
def Overrun.message : Overrun → String
  | character => "chr() arg not in range(0x110000)"
  | word => "Python int too large to convert to C int"
  | digits count =>
      "Exceeds the limit (" ++ toString Text.maxDigits ++
        " digits) for integer string conversion: value has " ++ toString count ++
        " digits; use sys.set_int_max_str_digits() to increase the limit"
  | half => "surrogates not allowed"
  | nesting => "maximum recursion depth exceeded"

/-- Why a document cannot be read. -/
inductive Fault where
  | forbiddenCharacter
  | strayCharacter
  | missingColon
  /-- A list entry, a key or a value where none may start. -/
  | misplaced
  | directive
  | anchorName
  | tag
  /-- A block scalar whose first line cannot be read. -/
  | blockHeader
  | escape
  | overrun (o : Overrun)
  | unclosedQuote
  | markerInQuote
  | unopenedBracket
  /-- A token that does not fit where it stands. -/
  | unexpectedToken
  | undeclaredHandle
  | repeatedDirective
  | unsupportedVersion
  | undefinedAlias
  | recursiveAlias
  | repeatedAnchor
  | compoundKey
  | secondDocument
  deriving DecidableEq, Repr, Inhabited

/-- The text of a fault; all but overruns share it. -/
def Fault.message : Fault → String
  | overrun o => o.message
  | _ => "<yaml>"

end Provision.Yaml
