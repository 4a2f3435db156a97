import HtmlTemplate.Decimal.Shortest

/-!
How a double is written: the shortest digits that read back, laid out with a point or with an
exponent. A `Layout` holds the decisions in which the written forms differ.
-/

namespace HtmlTemplate.Decimal

structure Layout where
  tie : Tie
  /-- Positional notation is kept while the point stands from the first to the second of these
  positions, counted from the first digit; without them it is always kept. -/
  positions : Option (Int × Int)
  /-- What follows the digits of a whole number in positional notation. -/
  wholeEnding : Text

/-- Where the point stands: after so many digits, or before that many zeros if negative. -/
def point (d : Decimal) : Int := (Text.numeral d.digits).length + d.exponent

def positional (wholeEnding : Text) (d : Decimal) : Text :=
  let s := Text.numeral d.digits
  if 0 ≤ d.exponent then s ++ Text.repeated d.exponent.toNat '0' ++ wholeEnding
  else if 0 < d.point then s.take d.point.toNat ++ '.' :: s.drop d.point.toNat
  else '0' :: '.' :: Text.repeated (-d.point).toNat '0' ++ s

/-- One digit, the others after a point, and a signed power of ten. -/
def scientific (d : Decimal) : Text :=
  let power := d.point - 1
  let sign := if power < 0 then '-' else '+'
  let digits := match Text.numeral d.digits with
    | [] => []
    | [c] => [c]
    | c :: cs => c :: '.' :: cs
  digits ++ 'e' :: sign :: Text.numeral power.natAbs

def write (layout : Layout) (d : Decimal) : Text :=
  match layout.positions with
  | none => d.positional layout.wholeEnding
  | some (first, last) =>
    if first ≤ d.point ∧ d.point ≤ last then d.positional layout.wholeEnding else d.scientific

end HtmlTemplate.Decimal

namespace HtmlTemplate.Double

/-- A double in decimal digits. -/
def write (layout : Decimal.Layout) (x : Float) : Text :=
  if x.isNaN then "NaN"
  else
    let size : Text := if x.isFinite then (shortest layout.tie x).write layout else "inf"
    if (binary x).negative then '-' :: size else size

/-- Always positional, and a whole number without a point. -/
def plainLayout : Decimal.Layout := ⟨.upper, none, []⟩

/-- A number as templates print it: a whole one as a signed 64-bit integer, the nearest one if
it lies beyond them, and any other in positional notation. -/
def display (x : Float) : Text :=
  if isWhole x then Text.signedNumeral (toInt64 x) else write plainLayout x

end HtmlTemplate.Double
