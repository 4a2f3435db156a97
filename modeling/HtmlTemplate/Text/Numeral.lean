import HtmlTemplate.Text.Basic

/-!
Decimal numerals. `numeral` writes a number without leading zeros; the readers take digits
only, and say which bounds they keep.
-/

namespace HtmlTemplate.Text

/-- The decimal digit of a number below ten. -/
def digit (n : Nat) : Char := Char.ofNat (48 + n)

/-- The hexadecimal digit of a number below sixteen, in lower case. -/
def hexDigit (n : Nat) : Char := if n < 10 then digit n else Char.ofNat (87 + n)

/-- A number in decimal digits, without leading zeros. -/
def numeral (n : Nat) : Text :=
  if n < 10 then [digit n] else numeral (n / 10) ++ [digit (n % 10)]

/-- An integer in decimal digits, after a minus sign if it is negative. -/
def signedNumeral (n : Int) : Text :=
  if n < 0 then '-' :: numeral n.natAbs else numeral n.natAbs

/-- The number that a row of digits denotes. -/
def digitsValue (t : Text) : Nat := t.foldl (fun n c => 10 * n + (c.toNat - 48)) 0

/-- Reads a text of one or more decimal digits. -/
def natural? (t : Text) : Option Nat :=
  if t ≠ [] ∧ t.all Char.isDigit then some (digitsValue t) else none

/-- The number of values that 64 bits hold. -/
def wordBound : Nat := 1 <<< 64

/-- The greatest signed 64-bit integer. -/
def int64Max : Int := 9223372036854775807

/-- The least signed 64-bit integer. -/
def int64Min : Int := -9223372036854775808

/-- Reads digits whose number fits 63 bits. -/
def natural63? (t : Text) : Option Nat :=
  (natural? t).filter (· ≤ int64Max)

/-- Reads digits whose number fits 64 bits; one plus sign may stand before them. -/
def index? (t : Text) : Option Nat :=
  (natural? ((after? ['+'] t).getD t)).filter (· < wordBound)

end HtmlTemplate.Text
