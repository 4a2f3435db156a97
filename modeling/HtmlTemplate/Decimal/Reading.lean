import HtmlTemplate.Decimal.Double

/-!
Reading decimals as doubles. A numeral is digits with an optional point and exponent, and its
value is rounded once, to the nearest double.
-/

namespace HtmlTemplate.Double

def infinity : Float := 1 / 0

/-- The double nearest to `± digits · 10 ^ exponent`. Past 400 places in either direction
nothing but infinity or zero can be meant. -/
def ofDecimal (negative : Bool) (digits : Nat) (exponent : Int) : Float :=
  let places := (Text.numeral digits).length + exponent
  let size :=
    if digits = 0 ∨ places < -400 then 0
    else if 400 < places then infinity
    else Float.ofScientific digits (exponent < 0) exponent.natAbs
  if negative then -size else size

/-- The sign before a numeral, and what follows it. -/
def splitSign : Text → Bool × Text
  | '-' :: t => (true, t)
  | '+' :: t => (false, t)
  | t => (false, t)

/-- Reads an exponent part that spans the whole text; no exponent stands for zero. -/
def exponent? : Text → Option Int
  | [] => some 0
  | e :: t =>
    if e = 'e' ∨ e = 'E' then
      let (negative, digits) := splitSign t
      (Text.natural? digits).map fun n => if negative then -(n : Int) else n
    else none

/-- Reads digits with an optional point and exponent. -/
def unsigned? (negative : Bool) (t : Text) : Option Float :=
  let (whole, t) := t.span Char.isDigit
  let (fraction, t) :=
    match t with
    | '.' :: t => t.span Char.isDigit
    | t => ([], t)
  if whole = [] ∧ fraction = [] then none
  else
    (exponent? t).map fun e =>
      ofDecimal negative (Text.digitsValue (whole ++ fraction)) (e - fraction.length)

/-- Reads a double: an optional sign, then a numeral, or a name for infinity or for no number,
in any case of letters. -/
def read? (t : Text) : Option Float :=
  let (negative, t) := splitSign t
  let name := t.map Char.toLower
  if name = ("inf" : Text) ∨ name = ("infinity" : Text) then
    some (if negative then -infinity else infinity)
  else if name = ("nan" : Text) then some (0 / 0)
  else unsigned? negative t

end HtmlTemplate.Double
