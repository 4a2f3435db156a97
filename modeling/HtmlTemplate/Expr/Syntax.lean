import HtmlTemplate.Expr.Token

/-!
Expressions as trees. Every node keeps the extent of the text it was read from.
-/

namespace HtmlTemplate

inductive UnaryOp where
  | not
  | neg
  deriving DecidableEq

inductive BinaryOp where
  | add
  | sub
  | mul
  | div
  | mod
  | equal
  | notEqual
  | strictEqual
  | strictNotEqual
  | less
  | greater
  | lessEqual
  | greaterEqual
  | and
  | or
  | coalesce
  deriving DecidableEq

/-- A property of an object literal; `shorthand` if its value is the variable of its name. -/
structure Property (α : Type) where
  key : Text
  value : α
  shorthand : Bool

/-- An expression. `field` is a link by name and `index` one by a computed key; an optional
link stops at `null`. -/
inductive Expr where
  | number (extent : Extent) (x : Float)
  | string (extent : Extent) (s : Text)
  | boolean (extent : Extent) (b : Bool)
  | null (extent : Extent)
  | undefined (extent : Extent)
  | identifier (extent : Extent) (name : Text)
  | unary (extent : Extent) (op : UnaryOp) (operand : Expr)
  | binary (extent : Extent) (op : BinaryOp) (left right : Expr)
  | field (extent : Extent) (object : Expr) (optional : Bool) (nameExtent : Extent) (name : Text)
  | index (extent : Extent) (object : Expr) (optional : Bool) (key : Expr)
  | ternary (extent : Extent) (condition consequent alternate : Expr)
  | array (extent : Extent) (items : List Expr)
  | object (extent : Extent) (properties : List (Property Expr))

namespace Expr

def extent : Expr → Extent
  | number e _ | string e _ | boolean e _ | null e | undefined e | identifier e _ | unary e _ _
  | binary e _ _ _ | field e _ _ _ _ | index e _ _ _ | ternary e _ _ _ | array e _
  | object e _ => e

/-- The same expression, read from another extent. -/
def withExtent (e : Extent) : Expr → Expr
  | number _ x => number e x
  | string _ s => string e s
  | boolean _ b => boolean e b
  | null _ => null e
  | undefined _ => undefined e
  | identifier _ n => identifier e n
  | unary _ op a => unary e op a
  | binary _ op a b => binary e op a b
  | field _ o q ne n => field e o q ne n
  | index _ o q k => index e o q k
  | ternary _ c a b => ternary e c a b
  | array _ as => array e as
  | object _ ps => object e ps

end Expr

end HtmlTemplate
