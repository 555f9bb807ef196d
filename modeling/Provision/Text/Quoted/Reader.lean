/-
**Reading quoted text.**

The quoted form of a text is read back from the front of whatever it stands in.  The first character
is the quote, and the next one like it that is not escaped ends the text.  In between a backslash
opens an escape: for a quote or a backslash, for one of three blanks, or for a character by the
hexadecimal digits of its number.  Every other character stands for itself.

Main definitions:

* `Provision.Text.Quoted.escaped?` — what the character behind a backslash stands for;
* `Provision.Text.Quoted.readBody?` — the text up to its closing quote;
* `Provision.Text.Quoted.read?` — **the text at the front, and what stands behind it**.
-/

import Provision.Text.Quoted

set_option relaxedAutoImplicit false
set_option autoImplicit false

namespace Provision.Text.Quoted

/-- What the character behind a backslash stands for. -/
inductive Escaped where
  | char (c : Char)
  /-- The character whose number follows; it has `more` digits behind the first one. -/
  | code (more : Nat)
  deriving DecidableEq, Repr, Inhabited

/-- What the character behind a backslash stands for, if there is such an escape. -/
def escaped? (c : Char) : Option Escaped :=
  if c = apostrophe ∨ c = doubleQuote ∨ c = backslash then some (.char c)
  else if c = 'n' then some (.char '\n')
  else if c = 'r' then some (.char '\r')
  else if c = 't' then some (.char '\t')
  else if c = 'x' then some (.code 1)
  else if c = 'u' then some (.code 3)
  else if c = 'U' then some (.code 7)
  else none

/-- The value of a hexadecimal digit. -/
def hexValue? (c : Char) : Option Nat :=
  if '0' ≤ c ∧ c ≤ '9' then some (c.toNat - '0'.toNat)
  else if 'a' ≤ c ∧ c ≤ 'f' then some (c.toNat - 'a'.toNat + 10)
  else none

/-- Where a reader is inside quoted text. -/
inductive Place where
  | plain
  /-- Behind a backslash. -/
  | escape
  /-- Before a digit with `more` digits behind it; `n` is the number so far. -/
  | code (more n : Nat)
  deriving DecidableEq, Repr, Inhabited

/-- Puts a character in front of a text that was read. -/
def push (c : Char) (read : Option (List Char × List Char)) : Option (List Char × List Char) :=
  read.map fun (text, rest) => (c :: text, rest)

/-- **Reads up to the closing quote `q`**: the text, and what stands behind the quote. -/
def readBody? (q : Char) : Place → List Char → Option (List Char × List Char)
  | _, [] => none
  | .plain, c :: s =>
      if c = q then some ([], s)
      else if c = backslash then readBody? q .escape s
      else push c (readBody? q .plain s)
  | .escape, c :: s =>
      match escaped? c with
      | some (.char d) => push d (readBody? q .plain s)
      | some (.code more) => readBody? q (.code more 0) s
      | none => none
  | .code more n, c :: s =>
      match hexValue? c with
      | none => none
      | some v =>
          match more with
          | more + 1 => readBody? q (.code more (16 * n + v)) s
          | 0 =>
              if (16 * n + v).isValidChar then push (Char.ofNat (16 * n + v)) (readBody? q .plain s)
              else none

/-- **Reads quoted text** at the front: the text, and what stands behind it. -/
def read? : List Char → Option (List Char × List Char)
  | [] => none
  | q :: s => if q = apostrophe ∨ q = doubleQuote then readBody? q .plain s else none

end Provision.Text.Quoted
