import HtmlTemplate.Expr.Context
import HtmlTemplate.Expr.Equality
import HtmlTemplate.Expr.Parser

/-!
The value of an expression in a context. A chain of links has no value once an optional link
meets `null`; nothing after that link is looked at, and the chain as a whole is `null`.
-/

namespace HtmlTemplate

/-- Why an expression has no value. `other` holds a message as it is. -/
inductive EvalError where
  | invalid (expression : Text) (error : ParseError)
  | undefined (name : Text)
  | nullAccess (key : Text)
  | other (message : Text)
  deriving DecidableEq

def EvalError.message : EvalError → Text
  | invalid expression e => "Invalid expression `" ++ expression ++ "`: " ++ e.display
  | undefined name => name ++ " is not defined"
  | nullAccess key => "Cannot read properties of null (reading '" ++ key ++ "')"
  | other message => message

namespace Json

/-- The key that a value is between brackets. -/
def toKey : Json → Text
  | string s => s
  | v => display v

/-- The property of a value under a key; a missing one is `null`. Texts and arrays have a
length, and parts under their positions. -/
def property (key : Text) : Json → Except EvalError Json
  | null => .error (.nullAccess key)
  | object members => .ok ((Record.get? members key).getD null)
  | array items =>
    if key = ("length" : Text) then .ok (ofNat items.length)
    else .ok (((Text.index? key).bind (items[·]?)).getD null)
  | string s =>
    if key = ("length" : Text) then .ok (ofNat s.length)
    else .ok ((((Text.index? key).bind (s[·]?)).map fun c => string [c]).getD null)
  | bool _ => .ok null
  | number _ => .ok null

end Json

/-- How two values stand to each other: texts by their characters, all else by size. -/
def Json.compare? : Json → Json → Option Ordering
  | .string s, .string t => some (Text.order s t)
  | a, b =>
    if a.toFloat < b.toFloat then some .lt
    else if b.toFloat < a.toFloat then some .gt
    else if a.toFloat == b.toFloat then some .eq
    else none

namespace BinaryOp

/-- Whether the value of the left operand settles the value of the whole. -/
def settledBy (op : BinaryOp) (left : Json) : Bool :=
  match op with
  | and => !left.countsAsTrue
  | or => left.countsAsTrue
  | coalesce => !left.isNull
  | _ => false

def isString : Json → Bool
  | .string _ => true
  | _ => false

/-- The value of an operator for two operands; of `and`, `or` and `coalesce`, once the left
operand does not settle it. -/
def apply (op : BinaryOp) (a b : Json) : Json :=
  match op with
  | add =>
    if isString a || isString b then .string (a.display ++ b.display)
    else Json.ofFloat (a.toFloat + b.toFloat)
  | sub => Json.ofFloat (a.toFloat - b.toFloat)
  | mul => Json.ofFloat (a.toFloat * b.toFloat)
  | div => Json.ofFloat (a.toFloat / b.toFloat)
  | mod => Json.ofFloat (Double.remainder a.toFloat b.toFloat)
  | equal => .bool (Json.looseEq a b)
  | notEqual => .bool (!Json.looseEq a b)
  | strictEqual => .bool (Json.strictEq a b)
  | strictNotEqual => .bool (!Json.strictEq a b)
  | less => .bool (Json.compare? a b == some .lt)
  | greater => .bool (Json.compare? a b == some .gt)
  | lessEqual => .bool (Json.compare? a b == some .lt || Json.compare? a b == some .eq)
  | greaterEqual => .bool (Json.compare? a b == some .gt || Json.compare? a b == some .eq)
  | and => b
  | or => b
  | coalesce => b

end BinaryOp

def UnaryOp.apply : UnaryOp → Json → Json
  | not, a => .bool !a.countsAsTrue
  | neg, a => Json.ofFloat (-a.toFloat)

namespace Expr

/-- The value of a whole chain of links: `null` if it was left early. -/
def settle (reached : Option Json) : Json := reached.getD .null

mutual

/-- The value that an expression reaches; `none` if it is a chain of links that an optional
link ended. -/
def reach (c : Context) : Expr → Except EvalError (Option Json)
  | number _ x => .ok (some (Json.ofFloat x))
  | string _ s => .ok (some (.string s))
  | boolean _ b => .ok (some (.bool b))
  | null _ => .ok (some .null)
  | undefined _ => .ok (some .null)
  | identifier _ name =>
    match c.get? name with
    | some v => .ok (some v)
    | none => .error (.undefined name)
  | unary _ op a => do
    let v ← reach c a
    return some (op.apply (settle v))
  | binary _ op a b => do
    let v ← reach c a
    if op.settledBy (settle v) then return some (settle v)
    else
      let w ← reach c b
      return some (op.apply (settle v) (settle w))
  | field _ o optional _ name => do
    match ← reach c o with
    | none => return none
    | some v =>
      if optional && v.isNull then return none
      else return some (← v.property name)
  | index _ o optional key => do
    match ← reach c o with
    | none => return none
    | some v =>
      if optional && v.isNull then return none
      else
        let k ← reach c key
        return some (← v.property (settle k).toKey)
  | ternary _ condition a b => do
    let v ← reach c condition
    if (settle v).countsAsTrue then
      let w ← reach c a
      return some (settle w)
    else
      let w ← reach c b
      return some (settle w)
  | array _ items => do
    return some (.array (← reachItems c items))
  | object _ properties => do
    return some (.object (Record.setAll [] (← reachProperties c properties)))

def reachItems (c : Context) : List Expr → Except EvalError (List Json)
  | [] => .ok []
  | e :: es => do
    let v ← reach c e
    return settle v :: (← reachItems c es)

def reachProperties (c : Context) : List (Property Expr) → Except EvalError (List (Text × Json))
  | [] => .ok []
  | ⟨key, e, _⟩ :: ps => do
    let v ← reach c e
    return (key, settle v) :: (← reachProperties c ps)

end

/-- The value of an expression. -/
def eval (c : Context) (e : Expr) : Except EvalError Json := (reach c e).map settle

end Expr

end HtmlTemplate
