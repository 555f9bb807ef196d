/-
**Quoted text.**

Messages show names and command lines between quotes, in one line and without characters that a
terminal would swallow.  The quote is the apostrophe, unless the text holds an apostrophe and no
double quote.  Inside, the backslash, the quote itself, the three usual blanks and every character
that is not printable are written as escapes; everything else stands for itself.

Main definitions:

* `Provision.Text.Quoted.delimiter` — the quote a text is put between;
* `Provision.Text.Quoted.escape` — how one character is written between given quotes;
* `Provision.Text.Quoted.encode`, `Provision.Text.quoted` — the quoted form of a text.
-/

import Provision.Text.Printable

set_option relaxedAutoImplicit false
set_option autoImplicit false

namespace Provision.Text

namespace Quoted

/-- The apostrophe, the usual quote. -/
def apostrophe : Char := '\x27'

/-- The double quote. -/
def doubleQuote : Char := '\x22'

/-- The backslash, which opens an escape. -/
def backslash : Char := '\x5c'

/-- The quote around `s`: double quotes only for a text with an apostrophe and without a double
quote. -/
def delimiter (s : List Char) : Char :=
  if apostrophe ∈ s ∧ doubleQuote ∉ s then doubleQuote else apostrophe

/-- The `width` lowest hexadecimal digits of `n`, the highest first. -/
def hexDigits : Nat → Nat → List Char
  | 0, _ => []
  | width + 1, n => hexDigits width (n / 16) ++ [Nat.digitChar (n % 16)]

/-- An escape by code point: two digits below 256, four below 65536, else eight. -/
def codeEscape (n : Nat) : List Char :=
  if n < 0x100 then backslash :: 'x' :: hexDigits 2 n
  else if n < 0x10000 then backslash :: 'u' :: hexDigits 4 n
  else backslash :: 'U' :: hexDigits 8 n

/-- How the character `c` is written between two quotes `q`. -/
def escape (q c : Char) : List Char :=
  if c = q ∨ c = backslash then [backslash, c]
  else if c = '\n' then [backslash, 'n']
  else if c = '\r' then [backslash, 'r']
  else if c = '\t' then [backslash, 't']
  else if isPrintable c then [c]
  else codeEscape c.toNat

/-- The quoted form of a list of characters. -/
def encode (s : List Char) : List Char :=
  let q := delimiter s
  q :: (s.flatMap (escape q) ++ [q])

end Quoted

/-- **The quoted form of a text.** -/
def quoted (s : String) : String := String.ofList (Quoted.encode s.toList)

@[simp] theorem quoted_toList (s : String) : (quoted s).toList = Quoted.encode s.toList := by
  simp [quoted]

end Provision.Text
