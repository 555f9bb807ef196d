/-
**Integers in text.**

An integer is written with digits of any script, perhaps a sign before them, single underscores
between them, and blanks around it all.  A number with too many digits is not read at all.

Main definitions:

* `Provision.Text.isSpace` — the blanks;
* `Provision.Text.maxDigits` — how many digits a number may have;
* `Provision.Text.natural?` — the number that digits stand for;
* `Provision.Text.integer?` — **the integer that a text stands for**.
-/

import Provision.Text.DecimalDigit
import Provision.Text.Split

set_option relaxedAutoImplicit false
set_option autoImplicit false

namespace Provision.Text

/-- Closed ranges of the blanks around a number. -/
def spaceRanges : List (Nat × Nat) :=
  [(0x09, 0x0D), (0x20, 0x20), (0x85, 0x85), (0xA0, 0xA0), (0x1680, 0x1680), (0x2000, 0x200A),
   (0x2028, 0x2029), (0x202F, 0x202F), (0x205F, 0x205F), (0x3000, 0x3000)]

/-- Whether a character is a blank. -/
def isSpace (c : Char) : Bool := inRanges spaceRanges c.toNat

/-- The value of a decimal digit; every range of digits starts with a zero. -/
def digitValue (c : Char) : Nat :=
  match decimalDigitRanges.find? fun r => r.1 ≤ c.toNat && c.toNat ≤ r.2 with
  | some r => (c.toNat - r.1) % 10
  | none => 0

/-- The greatest number of digits, zeros at the front included, that a number is read with. -/
def maxDigits : Nat := 4300

/-- The number that digits with underscores between them stand for. -/
def natural? (s : List Char) : Option Nat :=
  let groups := pieces '_' s
  if groups.all fun g => g ≠ [] && g.all isDecimalDigit then
    let digits := groups.flatten
    if digits.length ≤ maxDigits then some (digits.foldl (fun n c => 10 * n + digitValue c) 0)
    else none
  else none

/-- **The integer that a text stands for**, if it stands for one. -/
def integer? (s : String) : Option Int :=
  let body := (s.toList.dropWhile isSpace).reverse.dropWhile isSpace |>.reverse
  match body with
  | '-' :: digits => (natural? digits).map fun n => -(n : Int)
  | '+' :: digits => (natural? digits).map fun n => (n : Int)
  | digits => (natural? digits).map fun n => (n : Int)

end Provision.Text
