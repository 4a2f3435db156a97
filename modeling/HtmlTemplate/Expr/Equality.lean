import HtmlTemplate.Expr.Coercion

/-!
When two values are the same. Inside arrays and objects whole numbers and doubles differ, and
the order of members does not matter; outside them all numbers are compared by size.
-/

namespace HtmlTemplate

/-- Whether two numbers are of one kind and of one size. -/
def Number.same : Number → Number → Bool
  | .integer m, .integer n => m == n
  | .double x, .double y => x == y
  | _, _ => false

namespace Json

mutual

/-- Whether two values have the same form and content. -/
def same : Json → Json → Bool
  | null, null => true
  | bool a, bool b => a == b
  | number m, number n => m.same n
  | string s, string t => s == t
  | array as, array bs => sameItems as bs
  | object as, object bs => as.length == bs.length && sameMembers as bs
  | _, _ => false

def sameItems : List Json → List Json → Bool
  | [], [] => true
  | a :: as, b :: bs => same a b && sameItems as bs
  | _, _ => false

/-- Whether every member of the first list has its equal under the same name in the second. -/
def sameMembers : List (Text × Json) → List (Text × Json) → Bool
  | [], _ => true
  | (k, a) :: as, bs =>
    (match Record.get? bs k with
    | some b => same a b
    | none => false) && sameMembers as bs

end

/-- Equality without conversion. -/
def strictEq : Json → Json → Bool
  | number m, number n => m.toFloat == n.toFloat
  | a, b => same a b

/-- Whether two values are compared as numbers: a number with a text, and a truth value with
anything. -/
def comparesAsNumbers : Json → Json → Bool
  | number _, string _ => true
  | string _, number _ => true
  | bool _, _ => true
  | _, bool _ => true
  | _, _ => false

/-- Equality with conversion; `null` is equal to itself only. -/
def looseEq (a b : Json) : Bool :=
  if comparesAsNumbers a b then
    if a.isNull || b.isNull then false else a.toFloat == b.toFloat
  else strictEq a b

end Json

end HtmlTemplate
