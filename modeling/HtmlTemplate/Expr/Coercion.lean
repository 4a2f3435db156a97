import HtmlTemplate.Decimal.Reading
import HtmlTemplate.Json.Printer
import HtmlTemplate.Text.Space

/-!
What values count as where an expression needs a number, a condition or a text.
-/

namespace HtmlTemplate.Json

/-- The greatest whole number up to which all whole numbers are doubles. -/
def safeInteger : Int := 9007199254740991

/-- The value of a computed number: a whole one within the safe range is an integer, and what is
no finite number is `null`. -/
def ofFloat (x : Float) : Json :=
  if Double.isWhole x && (Double.toInt x).natAbs ≤ safeInteger.natAbs then
    number (.integer (Double.toInt x))
  else if x.isFinite then number (.double x)
  else null

/-- The number that a value counts as. -/
def toFloat : Json → Float
  | null => 0
  | bool b => if b then 1 else 0
  | number n => n.toFloat
  | string s => if Text.isBlank s then 0 else (Double.read? (Text.trim s)).getD (0 / 0)
  | array _ => 0 / 0
  | object _ => 0 / 0

/-- Whether a value counts as true. -/
def countsAsTrue : Json → Bool
  | null => false
  | bool b => b
  | number n => n.toFloat != 0 && !n.toFloat.isNaN
  | string s => !s.isEmpty
  | array _ => true
  | object _ => true

def displayNumber : Number → Text
  | .integer n => Text.signedNumeral n
  | .double x => Double.display x

mutual

/-- The text of a value in a template: arrays as their items with commas between them, objects
as JSON. -/
def display : Json → Text
  | null => "null"
  | bool b => if b then "true" else "false"
  | number n => displayNumber n
  | string s => s
  | array items => displayItems items
  | object members => print (object members)

def displayItems : List Json → Text
  | [] => []
  | [v] => display v
  | v :: w :: vs => display v ++ ',' :: displayItems (w :: vs)

end

end HtmlTemplate.Json
