import HtmlTemplate.Proofs.Expr.Grammar
import HtmlTemplate.Proofs.Expr.Reading

/-!
The parser reads whatever derives from the grammar, up to where the derivation ends.

The proof is by induction on the derivation, with a budget of four steps for each token and a few
more for each rule. Chains and operators derive from the left while the parser loops to the right,
so what is shown of them is that the loop goes on with their tree.
-/

namespace HtmlTemplate

namespace Token

/-- Tokens that carry a chain on. -/
def Links (t : Token) : Prop := t = .dot ∨ t = .optionalDot ∨ t = .leftBracket

/-- Tokens before an operand. -/
def Signs (t : Token) : Prop := t = .plus ∨ t = .not ∨ t = .minus

/-- Tokens that an operand without a sign begins with. -/
def Begins : Token → Prop
  | number _ | string _ | boolean _ | null | undefined | identifier _ => True
  | leftParen | leftBracket | leftBrace => True
  | _ => False

lemma Begins.not_signs {t : Token} (h : t.Begins) : ¬ t.Signs := by
  rintro (rfl | rfl | rfl) <;> exact h

end Token

namespace Category

/-- How tokens that derive an expression begin. -/
def Start : Category → List Token → Prop
  | chain, t :: _ | primary, t :: _ => t.Begins
  | ternary, t :: _ | binary _, t :: _ | unary, t :: _ => t.Begins ∨ t.Signs
  | items, _ | property, _ | properties, _ => True
  | _, [] => False

lemma Start.append {c : Category} {us : List Token} (h : c.Start us) (vs : List Token) :
    c.Start (us ++ vs) := by
  cases us with
  | nil => cases c <;> first | exact h.elim | trivial
  | cons t us => cases c <;> exact h

end Category

namespace Derives

open Category

variable {c : Category} {us : List Token}

lemma start {t : c.Tree} (h : Derives c us t) : c.Start us := by
  induction h with
  | @single us _ _ ih | @tighter _ us _ _ ih | @operand us _ _ ih => cases us <;> exact ih
  | @conditional us vs ws _ _ _ _ _ _ ih =>
    rw [List.append_assoc]
    have h := ih.append (.question :: vs ++ .colon :: ws)
    cases us <;> exact h
  | operator _ _ _ ih => exact ih.append _
  | plus | not | minus => exact .inr (by simp [Token.Signs])
  | @unsigned us _ _ ih =>
    cases us with
    | nil => exact ih.elim
    | cons t us => exact .inl ih
  | @unlinked us _ _ ih => cases us <;> exact ih
  | field _ _ ih | optionalField _ _ ih => exact ih.append _
  | index _ _ ih | optionalIndex _ _ ih =>
    rw [List.append_assoc]
    exact ih.append _
  | literal h => cases h <;> trivial
  | parens | array | object => trivial
  | _ => trivial

lemma chain_eq_cons {a : Expr} (h : Derives .chain us a) : ∃ t vs, us = t :: vs ∧ t.Begins := by
  cases us with
  | nil => exact h.start.elim
  | cons t vs => exact ⟨t, vs, rfl, h.start⟩

variable {xs : Lexemes}

/-- No row ends before an expression. -/
lemma next_ne_rightBracket {a : Expr} (h : Derives .ternary us a)
    (hx : xs.map Lexeme.token = us) (rest : Lexemes) :
    (xs ++ rest).next.token ≠ .rightBracket := by
  have hstart := h.start
  subst hx
  cases xs with
  | nil => exact hstart.elim
  | cons l xs =>
    rintro (hl : l.token = .rightBracket)
    simp [Start, hl, Token.Begins, Token.Signs] at hstart

lemma next_ne_rightBrace {p : Property Expr} (h : Derives .property us p)
    (hx : xs.map Lexeme.token = us) (rest : Lexemes) :
    (xs ++ rest).next.token ≠ .rightBrace := by
  cases h with
  | pair hk _ =>
    obtain ⟨l, xs, rfl, rfl, -⟩ := List.map_eq_cons_iff.1 hx
    rintro (hl : l.token = .rightBrace)
    rw [hl] at hk
    cases hk
  | shorthand name =>
    obtain ⟨l, rfl, hl⟩ := List.map_eq_singleton_iff.1 hx
    simp [hl]

end Derives

namespace Category

/-- What may stand behind the tokens of a category for the parser to stop there. Behind a chain
and behind operators the parser may also go on. -/
def Follow : Category → Token → Prop
  | ternary, t => ¬ t.Links ∧ t.binaryOp? = none ∧ t ≠ .question
  | binary level, t => ¬ t.Links ∧ t.Slack (level + 1)
  | unary, t => ¬ t.Links
  | chain, _ | primary, _ => True
  | items, t => t = .rightBracket
  | property, t => t = .comma ∨ t = .rightBrace
  | properties, t => t = .rightBrace

lemma follow_of_binaryOp? {level : Nat} {t : Token} {op : BinaryOp}
    (h : t.binaryOp? = some (op, level + 1)) : (binary level).Follow t := by
  refine ⟨?_, fun op' power h' => ?_⟩
  · rintro (rfl | rfl | rfl) <;> cases h
  · rw [h] at h'
    cases h'
    exact Nat.le_refl _

/-- The steps that a category needs besides four for each token. -/
def margin : Category → Nat
  | ternary => 4
  | binary _ => 2
  | unary => 2
  | chain | primary | property => 1
  | items => 5
  | properties => 2

open HtmlTemplate.Parser in
/-- The parser reads `xs` within some steps and finds the tree there. -/
def Finds (steps : Nat) (xs rest : Lexemes) : (c : Category) → c.Tree → Prop
  | ternary, t => ∃ e, e.bare = t ∧ Reads (Parser.ternary steps) (xs ++ rest) e rest
  | binary level, t => ∀ least ≤ level, ∃ steps' e, e.bare = t ∧ steps ≤ steps' + xs.length ∧
      ∀ r ls', Reads (binaryRest steps' least e) rest r ls' →
        Reads (Parser.unary steps >>= binaryRest steps least) (xs ++ rest) r ls'
  | unary, t => ∃ e, e.bare = t ∧ Reads (Parser.unary steps) (xs ++ rest) e rest
  | chain, t => ∃ steps' e, e.bare = t ∧ steps ≤ steps' + xs.length ∧
      ∀ r ls', Reads (links steps' e) rest r ls' →
        Reads (Parser.primary steps >>= links steps) (xs ++ rest) r ls'
  | primary, t => ∃ e, e.bare = t ∧ Reads (Parser.primary steps) (xs ++ rest) e rest
  | items, t => ∃ es, Expr.bareItems es = t ∧ Reads (Parser.items steps) (xs ++ rest) es rest
  | property, t => ∃ p, Expr.bareProperty p = t ∧
      Reads (Parser.property steps) (xs ++ rest) p rest
  | properties, t => ∃ ps, Expr.bareProperties ps = t ∧
      Reads (Parser.properties steps) (xs ++ rest) ps rest

end Category

open Category HtmlTemplate.Parser Grammar Lexemes

/-- With steps enough, the parser finds the tree of these tokens wherever they stand. -/
def Complete (c : Category) (us : List Token) (t : c.Tree) : Prop :=
  ∀ (xs rest : Lexemes) (steps : Nat), xs.map Lexeme.token = us → rest ≠ [] →
    c.Follow rest.next.token → 4 * xs.length + c.margin ≤ steps → c.Finds steps xs rest t

namespace Complete

variable {us vs ws : List Token} {a b c : Expr} {t : Token} {level : Nat}

/-! ### Operators -/

lemma reads_binary (ha : Complete (.binary level) us a) {least : Nat} (hl : least ≤ level)
    (xs rest : Lexemes) (steps : Nat) (hx : xs.map Lexeme.token = us) (hr : rest ≠ [])
    (hlinks : ¬ rest.next.token.Links) (hs : rest.next.token.Slack least)
    (hsteps : 4 * xs.length + 3 ≤ steps) :
    ∃ e, e.bare = a ∧ Reads (Parser.binary steps least) (xs ++ rest) e rest := by
  obtain ⟨steps, rfl⟩ := Nat.exists_eq_add_of_le' (show 1 ≤ steps by omega)
  have hf : (Category.binary level).Follow rest.next.token :=
    ⟨hlinks, fun op power h => Nat.le_succ_of_le (Nat.le_trans (hs op power h) hl)⟩
  obtain ⟨steps', e, he, hle, hgo⟩ :=
    ha xs rest steps hx hr hf (by simp only [margin]; omega) least hl
  obtain ⟨steps', rfl⟩ := Nat.exists_eq_add_of_le' (show 1 ≤ steps' by omega)
  refine ⟨e, he, hgo e rest ?_⟩
  rw [binaryRest, reads_peek_bind]
  split
  · rename_i op power h
    simp [hs op power h]
  · simp

lemma operand (ha : Complete .unary us a) : Complete (.binary levels.length) us a := by
  intro xs rest steps hx hr hf hsteps least hl
  obtain ⟨e, he, h⟩ := ha xs rest steps hx hr hf.1 hsteps
  refine ⟨steps, e, he, by omega, fun r ls' hrest => ?_⟩
  exact reads_bind.2 ⟨e, rest, h, hrest⟩

lemma tighter (ha : Complete (.binary (level + 1)) us a) : Complete (.binary level) us a := by
  intro xs rest steps hx hr hf hsteps least hl
  have hf' : (Category.binary (level + 1)).Follow rest.next.token :=
    ⟨hf.1, fun op power h => Nat.le_succ_of_le (hf.2 op power h)⟩
  exact ha xs rest steps hx hr hf' hsteps least (Nat.le_succ_of_le hl)

lemma operator {op : BinaryOp} (ha : Complete (.binary level) us a) (hop : Operator level t op)
    (hb : Complete (.binary (level + 1)) vs b) :
    Complete (.binary level) (us ++ t :: vs) (.binary Expr.nowhere op a b) := by
  intro xs rest steps hx hr hf hsteps least hl
  obtain ⟨xs, zs, rfl, hus, hzs⟩ := List.map_eq_append_iff.1 hx
  obtain ⟨l, ys, rfl, rfl, hvs⟩ := List.map_eq_cons_iff.1 hzs
  simp only [List.length_append, List.length_cons, margin] at hsteps
  have hpower := binaryOp?_eq_some_iff.2 ⟨level, rfl, hop⟩
  obtain ⟨steps₁, e₁, he₁, hle, hgo⟩ := ha xs (l :: ys ++ rest) steps hus (by simp)
    (Category.follow_of_binaryOp? hpower) (by simp only [margin]; omega) least hl
  obtain ⟨steps₁, rfl⟩ := Nat.exists_eq_add_of_le' (show 1 ≤ steps₁ by omega)
  obtain ⟨e₂, he₂, h₂⟩ :=
    hb.reads_binary (Nat.le_refl _) ys rest steps₁ hvs hr hf.1 hf.2 (by omega)
  refine ⟨steps₁, .binary ⟨e₁.extent.start, e₂.extent.stop⟩ op e₁ e₂, ?_, ?_, fun r ls' h => ?_⟩
  · rw [Expr.bare, he₁, he₂]
  · simp only [List.length_append, List.length_cons]
    omega
  · rw [List.append_assoc]
    refine hgo r ls' ?_
    rw [binaryRest, reads_peek_bind]
    simp only [List.cons_append, next_cons, hpower]
    rw [if_neg (by omega), reads_advance_bind, rest_cons _ (by simp [hr]), reads_bind]
    exact ⟨e₂, rest, h₂, h⟩

/-! ### Signs -/

lemma signed (ha : Complete .unary us a) {sign : Token} {f : Expr → Expr}
    (hf : ∀ (l : Lexeme) (ls ls' : Lexemes) (steps : Nat) (e : Expr), l.token = sign →
      Reads (Parser.unary steps) (rest (l :: ls)) e ls' →
      ∃ e', e'.bare = f e.bare ∧ Reads (Parser.unary (steps + 1)) (l :: ls) e' ls') :
    Complete .unary (sign :: us) (f a) := by
  intro xs rest steps hx hr hfollow hsteps
  obtain ⟨l, xs, rfl, hl, hus⟩ := List.map_eq_cons_iff.1 hx
  simp only [List.length_cons, margin] at hsteps
  obtain ⟨steps, rfl⟩ := Nat.exists_eq_add_of_le' (show 1 ≤ steps by omega)
  obtain ⟨e, rfl, h⟩ := ha xs rest steps hus hr hfollow (by simp only [margin]; omega)
  exact hf l _ rest steps e hl (by rwa [rest_cons _ (by simp [hr])])

lemma plus (ha : Complete .unary us a) : Complete .unary (.plus :: us) a := by
  refine ha.signed (f := id) fun l ls ls' steps e hl h => ⟨e, rfl, ?_⟩
  simpa [Parser.unary, hl] using h

lemma not (ha : Complete .unary us a) :
    Complete .unary (.not :: us) (.unary Expr.nowhere .not a) := by
  refine ha.signed fun l ls ls' steps e hl h =>
    ⟨.unary ⟨l.extent.start, e.extent.stop⟩ .not e, rfl, ?_⟩
  simpa [Parser.unary, hl] using h

lemma minus (ha : Complete .unary us a) :
    Complete .unary (.minus :: us) (.unary Expr.nowhere .neg a) := by
  refine ha.signed fun l ls ls' steps e hl h =>
    ⟨.unary ⟨l.extent.start, e.extent.stop⟩ .neg e, rfl, ?_⟩
  simpa [Parser.unary, hl] using h

lemma reads_links_stop {ls : Lexemes} (h : ¬ ls.next.token.Links) (steps : Nat) (e : Expr) :
    Reads (links (steps + 1) e) ls e ls := by
  rw [links, reads_peek_bind]
  split
  · rename_i hl
    exact absurd (.inl hl) h
  · rename_i hl
    exact absurd (.inr (.inl hl)) h
  · rename_i hl
    exact absurd (.inr (.inr hl)) h
  · exact reads_pure.2 ⟨rfl, rfl⟩

lemma reads_unary_of_begins {ls ls' : Lexemes} {steps : Nat} {e : Expr}
    (hb : ls.next.token.Begins) (h : Reads (Parser.primary steps >>= links steps) ls e ls') :
    Reads (Parser.unary (steps + 1)) ls e ls' := by
  rw [Parser.unary, reads_peek_bind]
  split
  · rename_i hl
    exact absurd (.inl hl) hb.not_signs
  · rename_i hl
    exact absurd (.inr (.inl hl)) hb.not_signs
  · rename_i hl
    exact absurd (.inr (.inr hl)) hb.not_signs
  · exact h

lemma unsigned (hd : Derives .chain us a) (ha : Complete .chain us a) : Complete .unary us a := by
  intro xs rest steps hx hr hf hsteps
  obtain ⟨t, vs, rfl, ht⟩ := hd.chain_eq_cons
  obtain ⟨l, xs, rfl, rfl, -⟩ := List.map_eq_cons_iff.1 hx
  simp only [List.length_cons, margin] at hsteps
  obtain ⟨steps, rfl⟩ := Nat.exists_eq_add_of_le' (show 1 ≤ steps by omega)
  obtain ⟨steps', e, he, hle, hgo⟩ := ha (l :: xs) rest steps hx hr trivial
    (by simp only [List.length_cons, margin]; omega)
  simp only [List.length_cons] at hle
  obtain ⟨steps', rfl⟩ := Nat.exists_eq_add_of_le' (show 1 ≤ steps' by omega)
  exact ⟨e, he, reads_unary_of_begins ht (hgo e rest (reads_links_stop hf steps' e))⟩

/-! ### Chains -/

lemma unlinked (ha : Complete .primary us a) : Complete .chain us a := by
  intro xs rest steps hx hr hf hsteps
  obtain ⟨e, he, h⟩ := ha xs rest steps hx hr hf hsteps
  exact ⟨steps, e, he, by omega, fun r ls' hrest => reads_bind.2 ⟨e, rest, h, hrest⟩⟩

/-- One link more, of the tokens `vs`. -/
lemma linked {f : Expr → Expr} (ha : Complete .chain us a)
    (hlink : ∀ (xs rest : Lexemes) (steps : Nat) (e : Expr), xs.map Lexeme.token = vs → rest ≠ [] →
      4 * xs.length + 1 ≤ steps → ∃ e' steps', e'.bare = f e.bare ∧ steps ≤ steps' + xs.length ∧
        ∀ r ls', Reads (links steps' e') rest r ls' → Reads (links steps e) (xs ++ rest) r ls')
    (hvs : vs ≠ []) : Complete .chain (us ++ vs) (f a) := by
  intro xs rest steps hx hr hf hsteps
  obtain ⟨xs, ys, rfl, hus, hys⟩ := List.map_eq_append_iff.1 hx
  simp only [List.length_append, margin] at hsteps
  have hys' : ys ≠ [] := by
    rintro rfl
    exact hvs hys.symm
  obtain ⟨steps₁, e₁, rfl, hle₁, hgo₁⟩ := ha xs (ys ++ rest) steps hus (by simp [hr]) trivial
    (by simp only [margin]; omega)
  obtain ⟨e₂, steps₂, he₂, hle₂, hgo₂⟩ := hlink ys rest steps₁ e₁ hys hr (by omega)
  refine ⟨steps₂, e₂, he₂, by simp only [List.length_append]; omega, fun r ls' h => ?_⟩
  rw [List.append_assoc]
  exact hgo₁ r ls' (hgo₂ r ls' h)

/-- A link with a name, of which it is left to show how the parser comes to the name. -/
lemma named {sign : Token} {name : Text} {optional : Bool} (ha : Complete .chain us a)
    (hn : Name t name)
    (hread : ∀ (l m : Lexeme) (rest : Lexemes) (steps : Nat) (e : Expr), l.token = sign →
      m.token = t → ∀ r ls',
        Reads (Parser.field e optional >>= links steps) (m :: rest) r ls' →
        Reads (links (steps + 1) e) (l :: m :: rest) r ls') :
    Complete .chain (us ++ [sign, t]) (.field Expr.nowhere a optional Expr.nowhere name) := by
  refine ha.linked (f := fun a => .field Expr.nowhere a optional Expr.nowhere name)
    (fun xs rest steps e hx hr hsteps => ?_) (by simp)
  obtain ⟨l, ys, rfl, hl, hys⟩ := List.map_eq_cons_iff.1 hx
  obtain ⟨m, rfl, rfl⟩ := List.map_eq_singleton_iff.1 hys
  simp only [List.length_cons] at hsteps
  obtain ⟨steps, rfl⟩ := Nat.exists_eq_add_of_le' (show 1 ≤ steps by omega)
  refine ⟨.field ⟨e.extent.start, m.extent.stop⟩ e optional m.extent name, steps, rfl,
    by simp only [List.length_cons]; omega, fun r ls' h => ?_⟩
  refine hread l m rest steps e hl rfl r ls' (reads_bind.2 ⟨_, rest, ?_, h⟩)
  exact reads_field.2 ⟨name, propertyName?_eq_some_iff.2 hn, rfl, rest_cons m hr⟩

lemma field {name : Text} (ha : Complete .chain us a) (hn : Name t name) :
    Complete .chain (us ++ [.dot, t]) (.field Expr.nowhere a false Expr.nowhere name) := by
  refine ha.named hn fun l m rest steps e hl _ r ls' h => ?_
  rw [links, reads_peek_bind]
  simp only [next_cons, hl]
  rwa [reads_advance_bind, rest_cons _ (by simp)]

lemma optionalField {name : Text} (ha : Complete .chain us a) (hn : Name t name) :
    Complete .chain (us ++ [.optionalDot, t]) (.field Expr.nowhere a true Expr.nowhere name) := by
  refine ha.named hn fun l m rest steps e hl hm r ls' h => ?_
  have hbracket : m.token ≠ .leftBracket := by
    intro heq
    rw [← hm, heq] at hn
    cases hn
  rw [links, reads_peek_bind]
  simp only [next_cons, hl]
  rwa [reads_advance_bind, rest_cons _ (by simp), reads_peek_bind, next_cons, if_neg hbracket]

lemma reads_index (hb : Complete .ternary vs b) {xs rest : Lexemes} {steps : Nat}
    (hx : xs.map Lexeme.token = .leftBracket :: vs ++ [.rightBracket]) (hr : rest ≠ [])
    (hsteps : 4 * xs.length ≤ steps + 3) (object : Expr) (optional : Bool) :
    ∃ e, e.bare = .index Expr.nowhere object.bare optional b ∧
      Reads (Parser.index steps object optional) (xs ++ rest) e rest := by
  obtain ⟨xs', ys, rfl, hxs, hys⟩ := List.map_eq_append_iff.1 hx
  obtain ⟨l, xs, rfl, hl, hvs⟩ := List.map_eq_cons_iff.1 hxs
  obtain ⟨m, rfl, hm⟩ := List.map_eq_singleton_iff.1 hys
  simp only [List.length_append, List.length_cons, List.length_nil] at hsteps
  obtain ⟨steps, rfl⟩ := Nat.exists_eq_add_of_le' (show 1 ≤ steps by omega)
  obtain ⟨e, rfl, he⟩ := hb xs (m :: rest) steps hvs (by simp)
    (by simp [Follow, hm, Token.Links, Token.binaryOp?]) (by simp only [margin]; omega)
  refine ⟨.index ⟨object.extent.start, m.extent.stop⟩ object optional e, rfl, ?_⟩
  simp only [Parser.index, reads_bind, reads_expect, reads_pure]
  refine ⟨l, xs ++ m :: rest, ⟨hl, rfl, ?_⟩, e, m :: rest, he, m, rest,
    ⟨hm, rfl, rest_cons m hr⟩, rfl, rfl⟩
  simpa using rest_cons l (by simp : xs ++ m :: rest ≠ [])

lemma index (ha : Complete .chain us a) (hb : Complete .ternary vs b) :
    Complete .chain (us ++ .leftBracket :: vs ++ [.rightBracket])
      (.index Expr.nowhere a false b) := by
  rw [List.append_assoc]
  refine ha.linked (f := fun a => .index Expr.nowhere a false b)
    (fun xs rest steps e hx hr hsteps => ?_) (by simp)
  obtain ⟨steps, rfl⟩ := Nat.exists_eq_add_of_le' (show 1 ≤ steps by omega)
  obtain ⟨e', he', h'⟩ := reads_index hb hx hr (show 4 * xs.length ≤ steps + 3 by omega) e false
  obtain ⟨l, ys, rfl, hl, -⟩ := List.map_eq_cons_iff.1 hx
  refine ⟨e', steps, he', by simp only [List.length_cons]; omega, fun r ls' h => ?_⟩
  rw [links, reads_peek_bind]
  simp only [List.cons_append, next_cons, hl]
  exact reads_bind.2 ⟨e', rest, h', h⟩

lemma optionalIndex (ha : Complete .chain us a) (hb : Complete .ternary vs b) :
    Complete .chain (us ++ .optionalDot :: .leftBracket :: vs ++ [.rightBracket])
      (.index Expr.nowhere a true b) := by
  rw [List.append_assoc]
  refine ha.linked (f := fun a => .index Expr.nowhere a true b)
    (fun xs rest steps e hx hr hsteps => ?_) (by simp)
  obtain ⟨steps, rfl⟩ := Nat.exists_eq_add_of_le' (show 1 ≤ steps by omega)
  obtain ⟨l, xs, rfl, hl, hx⟩ := List.map_eq_cons_iff.1 hx
  simp only [List.length_cons] at hsteps
  obtain ⟨e', he', h'⟩ := reads_index hb hx hr (show 4 * xs.length ≤ steps + 3 by omega) e true
  obtain ⟨m, ys, rfl, hm, -⟩ := List.map_eq_cons_iff.1 hx
  refine ⟨e', steps, he', by simp only [List.length_cons]; omega, fun r ls' h => ?_⟩
  rw [links, reads_peek_bind]
  simp only [List.cons_append, next_cons, hl]
  rw [reads_advance_bind, rest_cons _ (by simp), reads_peek_bind, next_cons, if_pos hm]
  exact reads_bind.2 ⟨e', rest, h', h⟩

/-! ### Operands -/

lemma literal (h : Literal t a) : Complete .primary [t] a := by
  intro xs rest steps hx hr hf hsteps
  obtain ⟨l, rfl, rfl⟩ := List.map_eq_singleton_iff.1 hx
  obtain ⟨e, he, hb⟩ := h.exists_literal? l.extent
  obtain ⟨steps, rfl⟩ := Nat.exists_eq_add_of_le' (show 1 ≤ steps by simp only [margin] at *; omega)
  refine ⟨e, hb, ?_⟩
  rw [Parser.primary, reads_peek_bind]
  simp only [List.cons_append, next_cons, he]
  rw [reads_advance_bind, reads_pure]
  exact ⟨rfl, rest_cons l hr⟩

/-- An operand in brackets, of which it is left to show how the parser reads it once it finds what
is inside. -/
lemma enclosed {k : Category} {tree : k.Tree} {left right : Token} (ha : Complete k us tree)
    (hfollow : k.Follow right) (hmargin : k.margin ≤ 8)
    (hread : ∀ (l r : Lexeme) (xs rest : Lexemes) (steps : Nat), l.token = left →
      r.token = right → rest ≠ [] → k.Finds steps xs (r :: rest) tree →
      ∃ e, e.bare = a ∧ Reads (Parser.primary (steps + 1)) (l :: (xs ++ r :: rest)) e rest) :
    Complete .primary (left :: us ++ [right]) a := by
  intro xs rest steps hx hr hf hsteps
  obtain ⟨xs', ys, rfl, hxs, hys⟩ := List.map_eq_append_iff.1 hx
  obtain ⟨l, xs, rfl, hl, hus⟩ := List.map_eq_cons_iff.1 hxs
  obtain ⟨r, rfl, rfl⟩ := List.map_eq_singleton_iff.1 hys
  simp only [List.length_append, List.length_cons, margin] at hsteps
  obtain ⟨steps, rfl⟩ := Nat.exists_eq_add_of_le' (show 1 ≤ steps by omega)
  have hfinds := ha xs (r :: rest) steps hus (by simp) hfollow (by omega)
  obtain ⟨e, he, h⟩ := hread l r xs rest steps hl rfl hr hfinds
  exact ⟨e, he, by simpa using h⟩

lemma parens (ha : Complete .ternary us a) :
    Complete .primary (.leftParen :: us ++ [.rightParen]) a := by
  refine ha.enclosed (by simp [Follow, Token.Links, Token.binaryOp?]) (by simp [margin])
    fun l r xs rest steps hl hr hrest hfinds => ?_
  obtain ⟨e, rfl, he⟩ := hfinds
  refine ⟨e.withExtent ⟨l.extent.start, r.extent.stop⟩, Expr.bare_withExtent _ _, ?_⟩
  rw [Parser.primary, reads_peek_bind]
  simp only [next_cons, hl, Token.literal?]
  rw [reads_advance_bind, rest_cons l (by simp), reads_bind]
  exact ⟨e, r :: rest, he, by simp [hr, rest_cons r hrest]⟩

lemma array {as : List Expr} (has : Complete .items us as) :
    Complete .primary (.leftBracket :: us ++ [.rightBracket]) (.array Expr.nowhere as) := by
  refine has.enclosed rfl (by simp [margin]) fun l r xs rest steps hl hr hrest hfinds => ?_
  obtain ⟨es, rfl, hes⟩ := hfinds
  refine ⟨.array ⟨l.extent.start, r.extent.stop⟩ es, rfl, ?_⟩
  rw [Parser.primary, reads_peek_bind]
  simp only [next_cons, hl, Token.literal?]
  rw [reads_advance_bind, rest_cons l (by simp), reads_bind]
  exact ⟨es, r :: rest, hes, by simp [hr, rest_cons r hrest]⟩

lemma object {ps : List (Property Expr)} (hps : Complete .properties us ps) :
    Complete .primary (.leftBrace :: us ++ [.rightBrace]) (.object Expr.nowhere ps) := by
  refine hps.enclosed rfl (by simp [margin]) fun l r xs rest steps hl hr hrest hfinds => ?_
  obtain ⟨qs, rfl, hqs⟩ := hfinds
  refine ⟨.object ⟨l.extent.start, r.extent.stop⟩ qs, rfl, ?_⟩
  rw [Parser.primary, reads_peek_bind]
  simp only [next_cons, hl, Token.literal?]
  rw [reads_advance_bind, rest_cons l (by simp), reads_bind]
  exact ⟨qs, r :: rest, hqs, by simp [hr, rest_cons r hrest]⟩

/-! ### Items and properties -/

lemma noItems : Complete .items [] [] := by
  intro xs rest steps hx hr hf hsteps
  obtain rfl := List.map_eq_nil_iff.1 hx
  obtain ⟨steps, rfl⟩ := Nat.exists_eq_add_of_le' (show 1 ≤ steps by simp only [margin] at *; omega)
  refine ⟨[], rfl, ?_⟩
  rw [items_eq_row]
  exact reads_row_nil hf

lemma lastItem (hd : Derives .ternary us a) (ha : Complete .ternary us a) :
    Complete .items us [a] := by
  intro xs rest steps hx hr hf hsteps
  simp only [margin] at hsteps
  obtain ⟨steps, rfl⟩ := Nat.exists_eq_add_of_le' (show 1 ≤ steps by omega)
  have hclose : rest.next.token = .rightBracket := hf
  obtain ⟨e, rfl, h⟩ := ha xs rest steps hx hr
    (by simp [Follow, hclose, Token.Links, Token.binaryOp?]) (by simp only [margin]; omega)
  refine ⟨[e], rfl, ?_⟩
  rw [items_eq_row]
  exact reads_row_last (hd.next_ne_rightBracket hx rest) h (by simp [hclose])

lemma moreItems {as : List Expr} (hd : Derives .ternary us a) (ha : Complete .ternary us a)
    (has : Complete .items vs as) : Complete .items (us ++ .comma :: vs) (a :: as) := by
  intro xs rest steps hx hr hf hsteps
  obtain ⟨xs, zs, rfl, hus, hzs⟩ := List.map_eq_append_iff.1 hx
  obtain ⟨l, ys, rfl, hl, hvs⟩ := List.map_eq_cons_iff.1 hzs
  simp only [List.length_append, List.length_cons, margin] at hsteps
  obtain ⟨steps, rfl⟩ := Nat.exists_eq_add_of_le' (show 1 ≤ steps by omega)
  obtain ⟨e, rfl, h⟩ := ha xs (l :: ys ++ rest) steps hus (by simp)
    (by simp [Follow, hl, Token.Links, Token.binaryOp?]) (by simp only [margin]; omega)
  obtain ⟨es, rfl, hes⟩ := has ys rest steps hvs hr hf (by simp only [margin]; omega)
  refine ⟨e :: es, rfl, ?_⟩
  rw [items_eq_row, List.append_assoc]
  refine reads_row_more (hd.next_ne_rightBracket hus _) h hl ?_
  rwa [List.cons_append, rest_cons l (by simp [hr])]

lemma pair {key : Text} (hk : Key t key) (ha : Complete .ternary us a) :
    Complete .property (t :: .colon :: us) ⟨key, a, false⟩ := by
  intro xs rest steps hx hr hf hsteps
  obtain ⟨l, zs, rfl, rfl, hzs⟩ := List.map_eq_cons_iff.1 hx
  obtain ⟨m, xs, rfl, hm, hus⟩ := List.map_eq_cons_iff.1 hzs
  simp only [List.length_cons, margin] at hsteps
  obtain ⟨steps, rfl⟩ := Nat.exists_eq_add_of_le' (show 1 ≤ steps by omega)
  have hfollow : Category.ternary.Follow rest.next.token := by
    rcases hf with h | h <;> simp [Follow, h, Token.Links, Token.binaryOp?]
  obtain ⟨e, rfl, h⟩ := ha xs rest steps hus hr hfollow (by simp only [margin]; omega)
  refine ⟨⟨key, e, false⟩, rfl, ?_⟩
  rw [Parser.property, reads_peek_bind]
  simp only [List.cons_append, next_cons, propertyKey?_eq_some_iff.2 hk]
  rw [reads_advance_bind, rest_cons l (by simp), reads_peek_bind, next_cons, if_pos hm,
    reads_advance_bind, rest_cons m (by simp [hr]), reads_bind]
  exact ⟨e, rest, h, reads_pure.2 ⟨rfl, rfl⟩⟩

lemma shorthand (name : Text) :
    Complete .property [.identifier name] ⟨name, .identifier Expr.nowhere name, true⟩ := by
  intro xs rest steps hx hr hf hsteps
  obtain ⟨l, rfl, hl⟩ := List.map_eq_singleton_iff.1 hx
  obtain ⟨steps, rfl⟩ := Nat.exists_eq_add_of_le' (show 1 ≤ steps by simp only [margin] at *; omega)
  refine ⟨⟨name, .identifier l.extent name, true⟩, rfl, ?_⟩
  have hcolon : rest.next.token ≠ .colon := by
    rcases hf with h | h <;> simp [h]
  rw [Parser.property, reads_peek_bind]
  simp only [List.cons_append, List.nil_append, next_cons, hl, Token.propertyKey?]
  rw [reads_advance_bind, rest_cons l hr, reads_peek_bind, if_neg hcolon]
  exact reads_pure.2 ⟨rfl, rfl⟩

lemma noProperties : Complete .properties [] [] := by
  intro xs rest steps hx hr hf hsteps
  obtain rfl := List.map_eq_nil_iff.1 hx
  obtain ⟨steps, rfl⟩ := Nat.exists_eq_add_of_le' (show 1 ≤ steps by simp only [margin] at *; omega)
  refine ⟨[], rfl, ?_⟩
  rw [properties_eq_row]
  exact reads_row_nil hf

lemma lastProperty {p : Property Expr} (hd : Derives .property us p)
    (hp : Complete .property us p) : Complete .properties us [p] := by
  intro xs rest steps hx hr hf hsteps
  simp only [margin] at hsteps
  obtain ⟨steps, rfl⟩ := Nat.exists_eq_add_of_le' (show 1 ≤ steps by omega)
  have hclose : rest.next.token = .rightBrace := hf
  obtain ⟨q, rfl, h⟩ := hp xs rest steps hx hr (.inr hclose) (by simp only [margin]; omega)
  refine ⟨[q], rfl, ?_⟩
  rw [properties_eq_row]
  exact reads_row_last (hd.next_ne_rightBrace hx rest) h (by simp [hclose])

lemma moreProperties {p : Property Expr} {ps : List (Property Expr)} (hd : Derives .property us p)
    (hp : Complete .property us p) (hps : Complete .properties vs ps) :
    Complete .properties (us ++ .comma :: vs) (p :: ps) := by
  intro xs rest steps hx hr hf hsteps
  obtain ⟨xs, zs, rfl, hus, hzs⟩ := List.map_eq_append_iff.1 hx
  obtain ⟨l, ys, rfl, hl, hvs⟩ := List.map_eq_cons_iff.1 hzs
  simp only [List.length_append, List.length_cons, margin] at hsteps
  obtain ⟨steps, rfl⟩ := Nat.exists_eq_add_of_le' (show 1 ≤ steps by omega)
  obtain ⟨q, rfl, h⟩ := hp xs (l :: ys ++ rest) steps hus (by simp) (.inl hl)
    (by simp only [margin]; omega)
  obtain ⟨qs, rfl, hqs⟩ := hps ys rest steps hvs hr hf (by simp only [margin]; omega)
  refine ⟨q :: qs, rfl, ?_⟩
  rw [properties_eq_row, List.append_assoc]
  refine reads_row_more (hd.next_ne_rightBrace hus _) h hl ?_
  rwa [List.cons_append, rest_cons l (by simp [hr])]

/-! ### Conditionals -/

lemma single (ha : Complete (.binary 0) us a) : Complete .ternary us a := by
  intro xs rest steps hx hr hf hsteps
  simp only [margin] at hsteps
  obtain ⟨steps, rfl⟩ := Nat.exists_eq_add_of_le' (show 1 ≤ steps by omega)
  have hslack : rest.next.token.Slack 0 := fun op power h => by
    rw [hf.2.1] at h
    cases h
  obtain ⟨e, rfl, h⟩ :=
    ha.reads_binary (Nat.le_refl _) xs rest steps hx hr hf.1 hslack (by omega)
  refine ⟨e, rfl, ?_⟩
  rw [Parser.ternary, reads_bind]
  refine ⟨e, rest, h, ?_⟩
  rw [reads_peek_bind, if_neg hf.2.2]
  exact reads_pure.2 ⟨rfl, rfl⟩

lemma conditional (ha : Complete (.binary 0) us a) (hb : Complete .ternary vs b)
    (hc : Complete .ternary ws c) :
    Complete .ternary (us ++ .question :: vs ++ .colon :: ws)
      (.ternary Expr.nowhere a b c) := by
  intro xs rest steps hx hr hf hsteps
  obtain ⟨xs', zs', rfl, hxs, hzs⟩ := List.map_eq_append_iff.1 hx
  obtain ⟨xs, ys', rfl, hus, hys⟩ := List.map_eq_append_iff.1 hxs
  obtain ⟨q, ys, rfl, hq, hvs⟩ := List.map_eq_cons_iff.1 hys
  obtain ⟨k, zs, rfl, hk, hws⟩ := List.map_eq_cons_iff.1 hzs
  simp only [List.length_append, List.length_cons, margin] at hsteps
  obtain ⟨steps, rfl⟩ := Nat.exists_eq_add_of_le' (show 1 ≤ steps by omega)
  obtain ⟨e₁, rfl, h₁⟩ := ha.reads_binary (Nat.le_refl _) xs (q :: ys ++ k :: zs ++ rest)
    steps hus (by simp) (by simp [hq, Token.Links])
    (fun op power h => by simp [hq, Token.binaryOp?] at h) (by omega)
  obtain ⟨e₂, rfl, h₂⟩ := hb ys (k :: zs ++ rest) steps hvs (by simp)
    (by simp [Follow, hk, Token.Links, Token.binaryOp?]) (by simp only [margin]; omega)
  obtain ⟨e₃, rfl, h₃⟩ := hc zs rest steps hws hr hf (by simp only [margin]; omega)
  refine ⟨.ternary ⟨e₁.extent.start, e₃.extent.stop⟩ e₁ e₂ e₃, rfl, ?_⟩
  simp only [List.append_assoc, List.cons_append] at h₁ h₂ ⊢
  rw [Parser.ternary, reads_bind]
  refine ⟨e₁, _, h₁, ?_⟩
  rw [reads_peek_bind, next_cons, if_pos hq, reads_advance_bind, rest_cons q (by simp),
    reads_bind]
  refine ⟨e₂, _, h₂, ?_⟩
  simp only [reads_bind, reads_expect, reads_pure]
  exact ⟨k, _, ⟨hk, rfl, rest_cons k (by simp [hr])⟩, e₃, rest, h₃, rfl, rfl⟩

end Complete

/-- All derivations are read. -/
theorem Derives.complete {c : Category} {us : List Token} {t : c.Tree} (h : Derives c us t) :
    Complete c us t := by
  induction h with
  | single _ ih => exact ih.single
  | conditional _ _ _ iha ihb ihc => exact iha.conditional ihb ihc
  | tighter _ ih => exact ih.tighter
  | operator _ hop _ iha ihb => exact iha.operator hop ihb
  | operand _ ih => exact ih.operand
  | plus _ ih => exact ih.plus
  | not _ ih => exact ih.not
  | minus _ ih => exact ih.minus
  | unsigned h ih => exact .unsigned h ih
  | unlinked _ ih => exact ih.unlinked
  | field _ hn ih => exact ih.field hn
  | optionalField _ hn ih => exact ih.optionalField hn
  | index _ _ iha ihb => exact iha.index ihb
  | optionalIndex _ _ iha ihb => exact iha.optionalIndex ihb
  | literal h => exact .literal h
  | parens _ ih => exact ih.parens
  | array _ ih => exact ih.array
  | object _ ih => exact ih.object
  | noItems => exact .noItems
  | lastItem h ih => exact .lastItem h ih
  | moreItems h _ iha ihas => exact .moreItems h iha ihas
  | noProperties => exact .noProperties
  | lastProperty h ih => exact .lastProperty h ih
  | moreProperties h _ ihp ihps => exact .moreProperties h ihp ihps
  | pair hk _ ih => exact .pair hk ih
  | shorthand name => exact .shorthand name

end HtmlTemplate
