import HtmlTemplate.Text.Numeral

/-!
Doubles as exact numbers. A finite double is a whole number times a power of two, and what is
computed here from those two parts involves no rounding.
-/

namespace HtmlTemplate.Double

/-- The number `± mantissa · 2 ^ exponent`. -/
structure Binary where
  negative : Bool
  mantissa : Nat
  exponent : Int

/-- The exponent of the smallest positive double. -/
def leastExponent : Int := -1074

/-- The highest bit of a mantissa with all its 53 bits. -/
def hiddenBit : Nat := 1 <<< 52

/-- The parts of a finite double; the mantissa lies below `2 ^ 53`, and from `2 ^ 52` on if the
exponent is not the least one. -/
def binary (x : Float) : Binary :=
  let bits := x.toBits.toNat
  let biased : Nat := bits >>> 52 % 2048
  let fraction := bits % hiddenBit
  let negative := bits >>> 63 == 1
  if biased = 0 then ⟨negative, fraction, leastExponent⟩
  else ⟨negative, hiddenBit + fraction, (biased : Int) - 1075⟩

/-- The double that equals a number whose mantissa lies below `2 ^ 53` and whose exponent is
not below the least one. -/
def ofBinary (b : Binary) : Float :=
  let shift := min (52 - b.mantissa.log2) (b.exponent - leastExponent).toNat
  let m := b.mantissa <<< shift
  let e := b.exponent - shift
  let bits :=
    if b.mantissa = 0 then 0
    else if m < hiddenBit then m
    else (e + 1075).toNat <<< 52 + (m - hiddenBit)
  Float.ofBits (UInt64.ofNat (bits + if b.negative then 1 <<< 63 else 0))

/-- Whether a double is a whole number. -/
def isWhole (x : Float) : Bool :=
  x.isFinite &&
    let b := binary x
    (0 ≤ b.exponent || b.mantissa % (1 <<< (-b.exponent).toNat) == 0)

/-- The whole number that a double is, or its whole part. -/
def toInt (x : Float) : Int :=
  let b := binary x
  let n : Nat :=
    if 0 ≤ b.exponent then b.mantissa <<< b.exponent.toNat
    else b.mantissa >>> (-b.exponent).toNat
  if b.negative then -(n : Int) else n

/-- The nearest signed 64-bit integer to a whole number. -/
def toInt64 (x : Float) : Int := max Text.int64Min (min Text.int64Max (toInt x))

/-- The remainder of a division whose quotient is cut off toward zero. It has the sign of the
dividend, and is not a number when the dividend is infinite or the divisor zero. -/
def remainder (x y : Float) : Float :=
  if !x.isFinite || y.isNaN || y == 0 then 0 / 0
  else if !y.isFinite then x
  else
    let a := binary x
    let b := binary y
    let e := min a.exponent b.exponent
    let m := (a.mantissa <<< (a.exponent - e).toNat) % (b.mantissa <<< (b.exponent - e).toNat)
    ofBinary ⟨a.negative, m, e⟩

end HtmlTemplate.Double
