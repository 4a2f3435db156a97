import HtmlTemplate.Decimal.Double

/-!
The shortest decimal that reads back as a given double. The decimals with one number of places
form a grid; the coarsest grid with a point among the reals that round to the double wins, and
on it the point nearest to the double. A `Tie` says which of two points equally near is taken.
-/

namespace HtmlTemplate

/-- The number `digits · 10 ^ exponent`. -/
structure Decimal where
  digits : Nat
  exponent : Int

/-- Which of two neighbours on a grid stands for a number halfway between them. -/
inductive Tie where
  | even
  | upper
  deriving DecidableEq

/-- The neighbour that stands for the number halfway from `d` to `d + 1`. -/
def Tie.choose (tie : Tie) (d : Nat) : Nat := if tie = .even ∧ d % 2 = 0 then d else d + 1

namespace Double

/-- The reals that round to a double, from `low` to `high` in units of `2 ^ exponent`, with the
double itself at `value`. The ends belong to it if `closed`. -/
structure Interval where
  low : Nat
  value : Nat
  high : Nat
  exponent : Int
  closed : Bool

/-- A quarter of the last place is the unit. Below a power of two the doubles lie twice as
dense, so there the lower half is half as wide. -/
def interval (b : Binary) : Interval where
  low := if b.mantissa = hiddenBit ∧ leastExponent < b.exponent then 4 * b.mantissa - 1
    else 4 * b.mantissa - 2
  value := 4 * b.mantissa
  high := 4 * b.mantissa + 2
  exponent := b.exponent - 2
  closed := b.mantissa % 2 == 0

namespace Interval

/-- `10 ^ place` and one unit of the interval, both as multiples of one small number. -/
def scales (i : Interval) (place : Int) : Nat × Nat :=
  (Nat.pow 10 place.toNat <<< (-i.exponent).toNat, Nat.pow 10 (-place).toNat <<< i.exponent.toNat)

/-- The multiple of `10 ^ place` in the interval that lies nearest to the double. -/
def gridPoint? (tie : Tie) (i : Interval) (place : Int) : Option Nat :=
  let (step, unit) := i.scales place
  let inside (n : Nat) : Bool :=
    if i.closed then i.low * unit ≤ n * step && n * step ≤ i.high * unit
    else i.low * unit < n * step && n * step < i.high * unit
  let d := i.value * unit / step
  match inside d, inside (d + 1) with
  | false, false => none
  | true, false => some d
  | false, true => some (d + 1)
  | true, true =>
    match compare (2 * (i.value * unit)) ((2 * d + 1) * step) with
    | .lt => some d
    | .gt => some (d + 1)
    | .eq => some (tie.choose d)

/-- The first grid point met when the places go down from `place`. -/
def descend (tie : Tie) (i : Interval) : (steps : Nat) → (place : Int) → Decimal
  | 0, place => ⟨0, place⟩
  | steps + 1, place =>
    match i.gridPoint? tie place with
    | some d => ⟨d, place⟩
    | none => descend tie i steps (place - 1)

/-- A place above the whole interval. -/
def topPlace (i : Interval) : Int :=
  let whole := i.high <<< i.exponent.toNat >>> (-i.exponent).toNat
  (Text.numeral whole).length

end Interval

/-- The shortest decimal that rounds to the size of a finite double. No double needs a place
below the 345th after the point. -/
def shortest (tie : Tie) (x : Float) : Decimal :=
  let b := binary x
  if b.mantissa = 0 then ⟨0, 0⟩
  else
    let i := interval b
    i.descend tie (i.topPlace.toNat + 346) i.topPlace

end Double

end HtmlTemplate
