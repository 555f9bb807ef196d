/-
**Reading a command line.**

The words of a command line are first told apart: options, values and the separator `--`, behind
which everything is a value.  A long option may be shortened to a prefix that no other option has,
and may have its value behind an equals sign.  A word that starts with a hyphen counts as a value
only if it is a lone hyphen, a negative number, or holds a blank.  Then the options are taken from
left to right, each with the value that it needs.

The older form of this syntax is followed.  A separator behind `--x=` stores nothing, a letter behind
`-h` that is no option is an ignored value, and what stands behind `-h=` are further letters; the newer
form stores the separator, shows the help, and refuses the value.

Main definitions:

* `Provision.UsageError`, `Provision.UsageError.message` — what can be wrong with a command line;
* `Provision.Word`, `Provision.Word.ofString` — the words of a command line;
* `Provision.Arguments.Outcome`, `Provision.Arguments.read` — **what a command line asks for**.
-/

import Provision.Arguments.Option
import Provision.Text.DecimalDigit

set_option relaxedAutoImplicit false
set_option autoImplicit false

namespace Provision

/-- What can be wrong with a command line. -/
inductive UsageError where
  /-- A shortened option could be several ones. -/
  | ambiguous (word : String) (names : List String)
  /-- An option comes without its value. -/
  | missingValue (option : String)
  /-- An option comes with a value that it does not take. -/
  | ignoredValue (option value : String)
  /-- There are words that mean nothing. -/
  | unrecognized (words : List String)
  deriving DecidableEq, Repr, Inhabited

/-- The text of a usage error. -/
def UsageError.message : UsageError → String
  | ambiguous word names =>
      "ambiguous option: " ++ word ++ " could match " ++ ", ".intercalate names
  | missingValue option => "argument " ++ option ++ ": expected one argument"
  | ignoredValue option value =>
      "argument " ++ option ++ ": ignored explicit argument " ++ Text.quoted value
  | unrecognized words => "unrecognized arguments: " ++ " ".intercalate words

/-! ### Words -/

/-- A word of a command line. -/
inductive Word where
  | plain (text : String)
  | separator
  /-- An option under one of its names, perhaps with a value in the same word. -/
  | option (o : CommandOption) (name : String) (value : Option String)
  /-- What looks like an option but is none. -/
  | unknown (text : String)

namespace Word

/-- All names of all options, with their options. -/
def names : List (String × CommandOption) :=
  CommandOption.all.flatMap fun o => o.names.map fun name => (name, o)

/-- Whether a text is a negative number: digits, with at most one dot before the last of them.  A
line feed at the end does not matter. -/
def isNegativeNumber (s : List Char) : Bool :=
  match s with
  | '-' :: body =>
      let body := if body.getLast? = some '\n' then body.dropLast else body
      let whole := body.takeWhile Text.isDecimalDigit
      match body.drop whole.length with
      | [] => whole ≠ []
      | '.' :: fraction => fraction ≠ [] && fraction.all Text.isDecimalDigit
      | _ => false
  | _ => false

/-- A text before its first equals sign, and what stands behind it. -/
def splitValue (s : List Char) : List Char × Option (List Char) :=
  let name := s.takeWhile (· ≠ '=')
  match s.drop name.length with
  | _ :: value => (name, some value)
  | [] => (name, none)

/-- The options that a word may stand for, none of whose names it is. -/
def matching (s : List Char) : List Word :=
  match s with
  | '-' :: '-' :: _ =>
      let (start, value) := splitValue s
      (names.filter fun x => start.isPrefixOf x.1.toList).map fun x =>
        option x.2 x.1 (value.map String.ofList)
  | hyphen :: letter :: rest =>
      (names.filter fun x => x.1.toList = [hyphen, letter]).map fun x =>
        option x.2 x.1 (some (String.ofList rest))
  | _ => []

/-- The name of an option word. -/
def name : Word → String
  | option _ name _ => name
  | _ => ""

/-- **What a word is**, the separator apart. -/
def ofString (word : String) : Except UsageError Word :=
  let s := word.toList
  if s.head? ≠ some '-' then .ok (plain word)
  else match names.lookup word with
    | some o => .ok (option o word none)
    | none =>
        if s.length = 1 then .ok (plain word)
        else
          let (start, value) := splitValue s
          match value, names.lookup (String.ofList start) with
          | some v, some o => .ok (option o (String.ofList start) (some (String.ofList v)))
          | _, _ =>
              match matching s with
              | [w] => .ok w
              | w :: v :: ws => .error (.ambiguous word ((w :: v :: ws).map name))
              | [] =>
                  if isNegativeNumber s ∨ ' ' ∈ s then .ok (plain word) else .ok (unknown word)

/-- What the words of a command line are; everything behind the separator is a value. -/
def ofStrings : List String → Except UsageError (List Word)
  | [] => .ok []
  | word :: words =>
      if word = "--" then .ok (separator :: words.map plain)
      else do
        let w ← ofString word
        let ws ← ofStrings words
        return w :: ws

end Word

namespace Arguments

/-! ### Taking the options -/

/-- What a command line comes to. -/
inductive Outcome where
  | run (a : Arguments)
  | help
  /-- The command line is wrong. -/
  | wrong (e : UsageError)
  deriving DecidableEq, Repr, Inhabited

/-- A value as it is stored: the separator is dropped. -/
def stored (value : String) : Setting := if value = "--" then .cleared else .given value

/-- Takes the letters behind a one-letter option in the same word; each of them has to be such an
option too.  The only one is that for the help. -/
def takeLetters (o : CommandOption) : List Char → Outcome
  | [] => .help
  | c :: rest =>
      match Word.names.lookup (String.ofList ['-', c]) with
      | some next => takeLetters next rest
      | none => .wrong (.ignoredValue o.title (String.ofList (c :: rest)))

/-- Takes an option that needs no value and came with one. -/
def takeOverfull (o : CommandOption) (name value : String) : Outcome :=
  if value = "" ∨ "--".toList.isPrefixOf name.toList then .wrong (.ignoredValue o.title value)
  else takeLetters o value.toList

/-- Takes the options from left to right; `extras` are the words that mean nothing so far. -/
def take : List Word → Arguments → List String → Outcome
  | [], a, extras => if extras = [] then .run a else .wrong (.unrecognized extras)
  | .plain s :: ws, a, extras => take ws a (extras ++ [s])
  | .separator :: ws, a, extras => take ws a (extras ++ ["--"])
  | .unknown s :: ws, a, extras => take ws a (extras ++ [s])
  | .option o name (some v) :: ws, a, extras =>
      match o.action with
      | .value _ set => take ws (set (stored v) a) extras
      | _ => takeOverfull o name v
  | .option o _ none :: ws, a, extras =>
      match o.action with
      | .help => .help
      | .flag set => take ws (set a) extras
      | .value _ set =>
          match ws with
          | .plain v :: ws => take ws (set (stored v) a) extras
          | _ => .wrong (.missingValue o.title)

/-- **What a command line asks for.** -/
def read (words : List String) : Outcome :=
  match Word.ofStrings words with
  | .ok ws => take ws {} []
  | .error e => .wrong e

end Arguments

end Provision
