import Mathlib.Tactic.Lemma
import HtmlTemplate.Expr.Parser

/-!
The grammar of expressions.

Each rule gives the tree of what it derives, with extents left out. Binary operators stand in
seven levels, and on each level the left operand is of the same level, so that operators of one
level group from the left.
-/

namespace HtmlTemplate

namespace Expr

/-- The extent of a tree that was not read from any text. -/
def nowhere : Extent := ⟨0, 0⟩

mutual

/-- The tree of an expression, without its extents. -/
def bare : Expr → Expr
  | number _ x => .number nowhere x
  | string _ s => .string nowhere s
  | boolean _ b => .boolean nowhere b
  | null _ => .null nowhere
  | undefined _ => .undefined nowhere
  | identifier _ name => .identifier nowhere name
  | unary _ op a => .unary nowhere op (bare a)
  | binary _ op a b => .binary nowhere op (bare a) (bare b)
  | field _ o optional _ name => .field nowhere (bare o) optional nowhere name
  | index _ o optional key => .index nowhere (bare o) optional (bare key)
  | ternary _ condition a b => .ternary nowhere (bare condition) (bare a) (bare b)
  | array _ items => .array nowhere (bareItems items)
  | object _ properties => .object nowhere (bareProperties properties)

def bareItems : List Expr → List Expr
  | [] => []
  | e :: es => bare e :: bareItems es

def bareProperty : Property Expr → Property Expr
  | ⟨key, e, shorthand⟩ => ⟨key, bare e, shorthand⟩

def bareProperties : List (Property Expr) → List (Property Expr)
  | [] => []
  | p :: ps => bareProperty p :: bareProperties ps

end

@[simp]
lemma bare_withExtent (e : Expr) (x : Extent) : (e.withExtent x).bare = e.bare := by
  cases e <;> simp only [withExtent, bare]

end Expr

/-- What the rules of the grammar derive. Level 0 of the binary operators holds the ones that
bind least. -/
inductive Category where
  | ternary
  | binary (level : Nat)
  | unary
  | chain
  | primary
  | items
  | property
  | properties

/-- The trees of a category. -/
@[reducible]
def Category.Tree : Category → Type
  | items => List Expr
  | property => Property Expr
  | properties => List (Property Expr)
  | _ => Expr

namespace Grammar

/-- The binary operators, level by level. -/
def levels : List (List (Token × BinaryOp)) := [
  [(.coalesce, .coalesce)],
  [(.or, .or)],
  [(.and, .and)],
  [(.equal, .equal), (.notEqual, .notEqual), (.strictEqual, .strictEqual),
    (.strictNotEqual, .strictNotEqual)],
  [(.less, .less), (.greater, .greater), (.lessEqual, .lessEqual),
    (.greaterEqual, .greaterEqual)],
  [(.plus, .add), (.minus, .sub)],
  [(.star, .mul), (.slash, .div), (.percent, .mod)]]

/-- The operator of a token, on its level. -/
def Operator (level : Nat) (t : Token) (op : BinaryOp) : Prop :=
  ∃ ops, levels[level]? = some ops ∧ (t, op) ∈ ops

/-- Operands of a single token. -/
inductive Literal : Token → Expr → Prop
  | number (x : Float) : Literal (.number x) (.number Expr.nowhere x)
  | string (s : Text) : Literal (.string s) (.string Expr.nowhere s)
  | boolean (b : Bool) : Literal (.boolean b) (.boolean Expr.nowhere b)
  | null : Literal .null (.null Expr.nowhere)
  | undefined : Literal .undefined (.undefined Expr.nowhere)
  | identifier (name : Text) : Literal (.identifier name) (.identifier Expr.nowhere name)

/-- Names after a point. -/
inductive Name : Token → Text → Prop
  | identifier (name : Text) : Name (.identifier name) name
  | true : Name (.boolean true) "true"
  | false : Name (.boolean false) "false"
  | null : Name .null "null"
  | undefined : Name .undefined "undefined"

/-- Keys of object literals. -/
inductive Key : Token → Text → Prop
  | identifier (name : Text) : Key (.identifier name) name
  | string (s : Text) : Key (.string s) s
  | number (x : Float) : Key (.number x) (Double.display x)

end Grammar

open Grammar HtmlTemplate.Expr in
/-- The tokens that derive from a category, and their tree. -/
inductive Derives : (c : Category) → List Token → c.Tree → Prop
  | single {us : List Token} {a : Expr} (all : Derives (.binary 0) us a) : Derives .ternary us a
  | conditional {us vs ws : List Token} {a b c : Expr} (condition : Derives (.binary 0) us a)
      (consequent : Derives .ternary vs b) (alternate : Derives .ternary ws c) :
      Derives .ternary (us ++ .question :: vs ++ .colon :: ws) (.ternary nowhere a b c)
  | tighter {level : Nat} {us : List Token} {a : Expr} (all : Derives (.binary (level + 1)) us a) :
      Derives (.binary level) us a
  | operator {level : Nat} {us vs : List Token} {a b : Expr} {t : Token} {op : BinaryOp}
      (left : Derives (.binary level) us a) (between : Operator level t op)
      (right : Derives (.binary (level + 1)) vs b) :
      Derives (.binary level) (us ++ t :: vs) (.binary nowhere op a b)
  | operand {us : List Token} {a : Expr} (all : Derives .unary us a) :
      Derives (.binary levels.length) us a
  | plus {us : List Token} {a : Expr} (operand : Derives .unary us a) :
      Derives .unary (.plus :: us) a
  | not {us : List Token} {a : Expr} (operand : Derives .unary us a) :
      Derives .unary (.not :: us) (.unary nowhere .not a)
  | minus {us : List Token} {a : Expr} (operand : Derives .unary us a) :
      Derives .unary (.minus :: us) (.unary nowhere .neg a)
  | unsigned {us : List Token} {a : Expr} (all : Derives .chain us a) : Derives .unary us a
  | unlinked {us : List Token} {a : Expr} (all : Derives .primary us a) : Derives .chain us a
  | field {us : List Token} {a : Expr} {t : Token} {name : Text} (object : Derives .chain us a)
      (property : Name t name) :
      Derives .chain (us ++ [.dot, t]) (.field nowhere a false nowhere name)
  | optionalField {us : List Token} {a : Expr} {t : Token} {name : Text}
      (object : Derives .chain us a) (property : Name t name) :
      Derives .chain (us ++ [.optionalDot, t]) (.field nowhere a true nowhere name)
  | index {us vs : List Token} {a b : Expr} (object : Derives .chain us a)
      (key : Derives .ternary vs b) :
      Derives .chain (us ++ .leftBracket :: vs ++ [.rightBracket]) (.index nowhere a false b)
  | optionalIndex {us vs : List Token} {a b : Expr} (object : Derives .chain us a)
      (key : Derives .ternary vs b) :
      Derives .chain (us ++ .optionalDot :: .leftBracket :: vs ++ [.rightBracket])
        (.index nowhere a true b)
  | literal {t : Token} {a : Expr} (all : Literal t a) : Derives .primary [t] a
  | parens {us : List Token} {a : Expr} (inside : Derives .ternary us a) :
      Derives .primary (.leftParen :: us ++ [.rightParen]) a
  | array {us : List Token} {as : List Expr} (inside : Derives .items us as) :
      Derives .primary (.leftBracket :: us ++ [.rightBracket]) (.array nowhere as)
  | object {us : List Token} {ps : List (Property Expr)} (inside : Derives .properties us ps) :
      Derives .primary (.leftBrace :: us ++ [.rightBrace]) (.object nowhere ps)
  | noItems : Derives .items [] []
  | lastItem {us : List Token} {a : Expr} (all : Derives .ternary us a) : Derives .items us [a]
  | moreItems {us vs : List Token} {a : Expr} {as : List Expr} (first : Derives .ternary us a)
      (rest : Derives .items vs as) : Derives .items (us ++ .comma :: vs) (a :: as)
  | noProperties : Derives .properties [] []
  | lastProperty {us : List Token} {p : Property Expr} (all : Derives .property us p) :
      Derives .properties us [p]
  | moreProperties {us vs : List Token} {p : Property Expr} {ps : List (Property Expr)}
      (first : Derives .property us p) (rest : Derives .properties vs ps) :
      Derives .properties (us ++ .comma :: vs) (p :: ps)
  | pair {us : List Token} {a : Expr} {t : Token} {key : Text} (name : Key t key)
      (value : Derives .ternary us a) : Derives .property (t :: .colon :: us) ⟨key, a, false⟩
  | shorthand (name : Text) :
      Derives .property [.identifier name] ⟨name, .identifier nowhere name, true⟩

namespace Grammar

/-! ### The tables of the parser -/

lemma Literal.of_literal? {t : Token} {x : Extent} {e : Expr} (h : t.literal? x = some e) :
    Literal t e.bare := by
  cases t <;> simp only [Token.literal?, Option.some.injEq, reduceCtorEq] at h <;>
    (subst h; rw [Expr.bare]; constructor)

lemma Literal.exists_literal? {t : Token} {a : Expr} (h : Literal t a) (x : Extent) :
    ∃ e, t.literal? x = some e ∧ e.bare = a := by
  cases h <;> exact ⟨_, rfl, by rw [Expr.bare]⟩

lemma propertyName?_eq_some_iff {t : Token} {name : Text} :
    t.propertyName? = some name ↔ Name t name := by
  constructor
  · intro h
    cases t with
    | boolean b => cases b <;> cases h <;> constructor
    | _ => cases h <;> constructor
  · rintro (_ | _ | _ | _ | _) <;> rfl

lemma propertyKey?_eq_some_iff {t : Token} {key : Text} :
    t.propertyKey? = some key ↔ Key t key := by
  constructor
  · intro h
    cases t <;> cases h <;> constructor
  · rintro (_ | _ | _) <;> rfl

lemma binaryOp?_of_mem : ∀ level < levels.length, ∀ p ∈ levels[level]?.getD [],
    p.1.binaryOp? = some (p.2, level + 1) := by
  decide

/-- The power of an operator is the number of its level, counted from one. -/
lemma binaryOp?_eq_some_iff {t : Token} {op : BinaryOp} {power : Nat} :
    t.binaryOp? = some (op, power) ↔ ∃ level, power = level + 1 ∧ Operator level t op := by
  constructor
  · intro h
    cases t <;> simp only [Token.binaryOp?, Option.some.injEq, Prod.mk.injEq, reduceCtorEq] at h <;>
      obtain ⟨rfl, rfl⟩ := h <;> exact ⟨_, rfl, _, rfl, by simp⟩
  · rintro ⟨level, rfl, ops, h, hm⟩
    have hl := (List.getElem?_eq_some_iff.1 h).1
    exact binaryOp?_of_mem level hl (t, op) (by rwa [h])

lemma Operator.level_lt {level : Nat} {t : Token} {op : BinaryOp} (h : Operator level t op) :
    level < levels.length := by
  obtain ⟨ops, h, -⟩ := h
  exact (List.getElem?_eq_some_iff.1 h).1

end Grammar

end HtmlTemplate
