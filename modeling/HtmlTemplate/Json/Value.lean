import HtmlTemplate.Decimal.Layout
import HtmlTemplate.Record

/-!
JSON values. Whole numbers and doubles are kept apart, and the members of an object stay in the
order in which they were written.
-/

namespace HtmlTemplate

/-- A JSON number: one written without point and exponent is whole, if it fits 64 bits with or
without a sign; any other is a double. -/
inductive Number where
  | integer (n : Int)
  | double (x : Float)
  deriving DecidableEq

namespace Number

/-- Whether a whole number fits 64 bits, signed or unsigned. -/
def fits (n : Int) : Bool := Text.int64Min ≤ n && n < Text.wordBound

/-- The nearest double. -/
def toFloat : Number → Float
  | integer n => Float.ofInt n
  | double x => x

end Number

/-- A JSON value. -/
inductive Json where
  | null
  | bool (b : Bool)
  | number (n : Number)
  | string (s : Text)
  | array (items : List Json)
  | object (members : List (Text × Json))

namespace Json

/-- What kind of value it is, in one word. -/
def kindName : Json → Text
  | null => "null"
  | bool _ => "boolean"
  | number _ => "number"
  | string _ => "string"
  | array _ => "array"
  | object _ => "object"

def isNull : Json → Bool
  | null => true
  | _ => false

def ofNat (n : Nat) : Json := number (.integer n)

end Json

end HtmlTemplate
