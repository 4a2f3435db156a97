import HtmlTemplate.Proofs.Expr.Coverage

/-!
Where expressions stand.

Every expression of a tree lies in the one around it, behind those before it. All rules of the
parser are shown together by induction on the steps: a rule that starts at a place reads expressions
from there on, and leaves the lexemes behind the last one that it has read. The whole expression
begins with the first token that is no sign plus, since such a sign in front leaves no trace, and it
ends with the last token.
-/

namespace HtmlTemplate

namespace Expr

/-- The expressions right inside another, from the left. The name after a point is a string. -/
def parts : Expr → List Expr
  | unary _ _ a => [a]
  | binary _ _ a b => [a, b]
  | field _ o _ x name => [o, .string x name]
  | index _ o _ key => [o, key]
  | ternary _ condition a b => [condition, a, b]
  | array _ items => items
  | object _ properties => properties.map Property.value
  | _ => []

/-- At every depth, the parts of an expression lie inside it, one behind the other. -/
inductive Laid : Expr → Prop
  | intro {e : Expr} (proper : e.extent.start < e.extent.stop)
      (inside : ∀ a ∈ e.parts, e.extent.start ≤ a.extent.start ∧ a.extent.stop ≤ e.extent.stop)
      (apart : e.parts.Pairwise fun a b => a.extent.stop ≤ b.extent.start)
      (parts : ∀ a ∈ e.parts, Laid a) : Laid e

lemma Laid.start_lt_stop {e : Expr} (h : Laid e) : e.extent.start < e.extent.stop := by
  cases h with
  | intro proper => exact proper

/-! ### Rows of expressions -/

/-- Expressions one behind the other, between two places. -/
def Between : Nat → List Expr → Nat → Prop
  | start, [], stop => start ≤ stop
  | start, e :: es, stop => start ≤ e.extent.start ∧ e.Laid ∧ Between e.extent.stop es stop

variable {start start' stop stop' : Nat} {e : Expr} {es : List Expr}

lemma Between.mono (h : Between start es stop) (hstart : start' ≤ start) (hstop : stop ≤ stop') :
    Between start' es stop' := by
  induction es generalizing start start' with
  | nil => exact hstart.trans (h.trans hstop)
  | cons e es ih =>
    obtain ⟨hle, hlaid, hrest⟩ := h
    exact ⟨hstart.trans hle, hlaid, ih hrest (Nat.le_refl _)⟩

lemma Between.le (h : Between start es stop) : start ≤ stop := by
  induction es generalizing start with
  | nil => exact h
  | cons e es ih =>
    obtain ⟨hle, hlaid, hrest⟩ := h
    exact hle.trans (hlaid.start_lt_stop.le.trans (ih hrest))

lemma Between.lt (h : Between start es stop) (hne : es ≠ []) : start < stop := by
  cases es with
  | nil => exact absurd rfl hne
  | cons e es => exact h.1.trans_lt (h.2.1.start_lt_stop.trans_le h.2.2.le)

lemma Between.forall_mem (h : Between start es stop) :
    ∀ a ∈ es, start ≤ a.extent.start ∧ a.extent.stop ≤ stop ∧ a.Laid := by
  induction es generalizing start with
  | nil => exact List.forall_mem_nil _
  | cons e es ih =>
    obtain ⟨hle, hlaid, hrest⟩ := h
    refine List.forall_mem_cons.2 ⟨⟨hle, hrest.le, hlaid⟩, fun a ha => ?_⟩
    obtain ⟨hstart, hstop, ha⟩ := ih hrest a ha
    exact ⟨hle.trans (hlaid.start_lt_stop.le.trans hstart), hstop, ha⟩

lemma Between.pairwise (h : Between start es stop) :
    es.Pairwise fun a b => a.extent.stop ≤ b.extent.start := by
  induction es generalizing start with
  | nil => exact List.Pairwise.nil
  | cons e es ih =>
    obtain ⟨-, -, hrest⟩ := h
    exact List.pairwise_cons.2 ⟨fun a ha => (hrest.forall_mem a ha).1, ih hrest⟩

/-- An expression around a row of parts. -/
lemma Laid.of_between (hproper : e.extent.start < e.extent.stop)
    (h : Between e.extent.start e.parts e.extent.stop) : e.Laid :=
  .intro hproper (fun a ha => ⟨(h.forall_mem a ha).1, (h.forall_mem a ha).2.1⟩) h.pairwise
    fun a ha => (h.forall_mem a ha).2.2

/-- Parentheses make an expression wider. -/
lemma Laid.withExtent (h : e.Laid) {x : Extent} (hstart : x.start ≤ e.extent.start)
    (hstop : e.extent.stop ≤ x.stop) : (e.withExtent x).Laid := by
  have hextent : (e.withExtent x).extent = x := by cases e <;> rfl
  have hparts : (e.withExtent x).parts = e.parts := by cases e <;> rfl
  cases h with
  | intro proper inside apart parts =>
    refine .intro ?_ ?_ ?_ ?_
    · rw [hextent]
      omega
    · rw [hextent, hparts]
      exact fun a ha => ⟨hstart.trans (inside a ha).1, (inside a ha).2.trans hstop⟩
    · rwa [hparts]
    · rwa [hparts]

end Expr

namespace Lexemes

variable {place stop stop' : Nat} {ls ms ls' : Lexemes} {t : Token}

/-- What is still to be read, from a place on up to the end. -/
structure At (place : Nat) (ls : Lexemes) : Prop where
  inOrder : InOrder place ls
  ended : Ended ls

lemma At.next (h : At place ls) (ht : ls.next.token = t) (hn : t ≠ .eof) :
    place ≤ ls.next.extent.start ∧ ls.next.extent.start < ls.next.extent.stop ∧
      At ls.next.extent.stop ls.rest := by
  have hne : ls.next.token ≠ .eof := ht ▸ hn
  obtain ⟨heq, hended⟩ := h.ended.eq_cons hne
  have hinOrder := h.inOrder
  rw [heq] at hinOrder
  obtain ⟨hplace, -, hlt, hrest⟩ := hinOrder
  exact ⟨hplace, hlt hne, hrest, hended⟩

/-- What is still to be read behind a lexeme that ends at a place. -/
structure Reaches (ls : Lexemes) (stop : Nat) (ls' : Lexemes) : Prop where
  behind : ∃ xs l, ls = xs ++ l :: ls' ∧ l.extent.stop = stop
  here : At stop ls'

lemma Reaches.of_suffix (h : Reaches ms stop ls') (hs : ms <:+ ls) : Reaches ls stop ls' := by
  obtain ⟨⟨xs, l, rfl, hl⟩, here⟩ := h
  obtain ⟨ys, rfl⟩ := hs
  exact ⟨⟨ys ++ xs, l, (List.append_assoc ..).symm, hl⟩, here⟩

lemma Reaches.suffix (h : Reaches ls stop ls') : ls' <:+ ls := by
  obtain ⟨⟨xs, l, rfl, -⟩, -⟩ := h
  exact ⟨xs ++ [l], by simp⟩

lemma Reaches.trans (h : Reaches ls stop ms) (h' : Reaches ms stop' ls') : Reaches ls stop' ls' :=
  h'.of_suffix h.suffix

lemma At.reaches (h : At place ls) (ht : ls.next.token = t) (hn : t ≠ .eof) :
    Reaches ls ls.next.extent.stop ls.rest :=
  ⟨⟨[], ls.next, (h.ended.eq_cons (ht ▸ hn)).1, rfl⟩, (h.next ht hn).2.2⟩

lemma exists_eq_concat {front xs ys : Lexemes} {l m : Lexeme} (h : front ++ [m] = xs ++ l :: ys)
    (hys : ys ≠ []) : ∃ zs, ys = zs ++ [m] ∧ front = xs ++ l :: zs := by
  rcases ys.eq_nil_or_concat' with rfl | ⟨zs, k, rfl⟩
  · exact absurd rfl hys
  · rw [← List.cons_append, ← List.append_assoc] at h
    obtain ⟨rfl, hlast⟩ := List.append_inj' h rfl
    exact ⟨zs, by rw [hlast], rfl⟩

end Lexemes

open Lexemes

namespace Expr

/-- An expression read from a place on: it begins with the first lexeme behind the signs plus, and
ends with the last lexeme before those that are left. -/
structure Spans (e : Expr) (place : Nat) (ls ls' : Lexemes) : Prop where
  start : ∃ signs l rest, ls = signs ++ l :: rest ∧
    (∀ s ∈ signs, s.token = .plus ∧ s.extent.stop ≤ e.extent.start) ∧
    l.token ≠ .plus ∧ l.token ≠ .eof ∧ l.extent.start = e.extent.start
  place_le : place ≤ e.extent.start
  laid : e.Laid
  reaches : Reaches ls e.extent.stop ls'

variable {place : Nat} {ls ms ls' : Lexemes} {e a : Expr}

/-- A larger expression with the same beginning. -/
lemma Spans.grow (h : a.Spans place ls ms) (hstart : e.extent.start = a.extent.start)
    (hlaid : e.Laid) (hreaches : Reaches ms e.extent.stop ls') : e.Spans place ls ls' := by
  refine ⟨?_, ?_, hlaid, h.reaches.trans hreaches⟩
  · rw [hstart]
    exact h.start
  · rw [hstart]
    exact h.place_le

/-- An expression that begins with the next lexeme. -/
lemma spans_of_next (h : At place ls) (hplus : ls.next.token ≠ .plus) (hend : ls.next.token ≠ .eof)
    (hstart : e.extent.start = ls.next.extent.start) (hlaid : e.Laid)
    (hreaches : Reaches ls e.extent.stop ls') : e.Spans place ls ls' :=
  ⟨⟨[], ls.next, ls.rest, (h.ended.eq_cons hend).1, List.forall_mem_nil _, hplus, hend,
    hstart.symm⟩, hstart ▸ (h.next rfl hend).1, hlaid, hreaches⟩

/-- A sign plus in front leaves no trace. -/
lemma Spans.behind_plus (h : At place ls) (hplus : ls.next.token = .plus)
    (he : e.Spans ls.next.extent.stop ls.rest ls') : e.Spans place ls ls' := by
  obtain ⟨hle, hlt, -⟩ := h.next hplus (by simp)
  obtain ⟨signs, l, rest, heq, hsigns, hl⟩ := he.start
  refine ⟨⟨ls.next :: signs, l, rest, ?_, ?_, hl⟩, hle.trans (hlt.le.trans he.place_le), he.laid,
    (h.reaches hplus (by simp)).trans he.reaches⟩
  · rw [List.cons_append, ← heq]
    exact (h.ended.eq_cons (by simp [hplus])).1
  · exact List.forall_mem_cons.2 ⟨⟨hplus, he.place_le⟩, hsigns⟩

/-- Two expressions, up to the end of the second. -/
lemma Between.pair {start : Nat} (ha : a.Laid) (he : e.Laid) (hstart : start ≤ a.extent.start)
    (h : a.extent.stop ≤ e.extent.start) : Between start [a, e] e.extent.stop :=
  ⟨hstart, ha, h, he, Nat.le_refl _⟩

end Expr

namespace Parser

open HtmlTemplate.Expr

variable {steps place stop : Nat} {ls ms ls' : Lexemes} {e a : Expr}

/-- What a rule reads within some steps stands in order. -/
structure Orderly (steps : Nat) : Prop where
  ternary : ∀ {place ls e ls'}, At place ls → Reads (ternary steps) ls e ls' →
    e.Spans place ls ls'
  binary : ∀ {place least ls e ls'}, At place ls → Reads (binary steps least) ls e ls' →
    e.Spans place ls ls'
  binaryRest : ∀ {place least left ls ms e ls'}, left.Spans place ls ms →
    Reads (binaryRest steps least left) ms e ls' → e.Spans place ls ls'
  unary : ∀ {place ls e ls'}, At place ls → Reads (unary steps) ls e ls' → e.Spans place ls ls'
  links : ∀ {place object ls ms e ls'}, object.Spans place ls ms →
    Reads (links steps object) ms e ls' → e.Spans place ls ls'
  index : ∀ {place object optional ls e ls'}, object.Laid → object.extent.stop ≤ place →
    At place ls → Reads (index steps object optional) ls e ls' →
    e.extent.start = object.extent.start ∧ e.Laid ∧ Reaches ls e.extent.stop ls'
  primary : ∀ {place ls e ls'}, At place ls → Reads (primary steps) ls e ls' →
    e.Spans place ls ls'
  items : ∀ {place ls es ls'}, At place ls → Reads (items steps) ls es ls' →
    ∃ stop, Between place es stop ∧ At stop ls' ∧ ls' <:+ ls
  properties : ∀ {place ls ps ls'}, At place ls → Reads (properties steps) ls ps ls' →
    ∃ stop, Between place (ps.map Property.value) stop ∧ At stop ls' ∧ ls' <:+ ls
  property : ∀ {place ls p ls'}, At place ls → Reads (property steps) ls p ls' →
    place ≤ p.value.extent.start ∧ p.value.Laid ∧ At p.value.extent.stop ls' ∧ ls' <:+ ls

lemma Orderly.zero : Orderly 0 := by
  constructor <;> intros <;>
    simp only [Parser.ternary, Parser.binary, Parser.binaryRest, Parser.unary, Parser.links,
      Parser.index, Parser.primary, Parser.items, Parser.properties, Parser.property,
      not_reads_exhausted] at *

lemma Orderly.ternary_succ (ih : Orderly steps) (h : At place ls)
    (hr : Reads (Parser.ternary (steps + 1)) ls e ls') : e.Spans place ls ls' := by
  simp only [Parser.ternary, reads_bind, reads_peek] at hr
  obtain ⟨a, ms, ha, l, ms', ⟨rfl, rfl⟩, hr⟩ := hr
  have ha := ih.binary h ha
  split at hr
  · rename_i hquestion
    simp only [reads_bind, reads_advance, reads_expect, reads_pure] at hr
    obtain ⟨-, ms', rfl, b, ms', hb, l, ms', ⟨hcolon, rfl, rfl⟩, c, ms', hc, rfl, rfl⟩ := hr
    obtain ⟨hle, hlt, hat⟩ := ha.reaches.here.next hquestion (by simp)
    have hb := ih.ternary hat hb
    obtain ⟨hle', hlt', hat'⟩ := hb.reaches.here.next hcolon (by simp)
    have hc := ih.ternary hat' hc
    have hab : a.extent.stop ≤ b.extent.start := hle.trans (hlt.le.trans hb.place_le)
    have hbc : b.extent.stop ≤ c.extent.start := hle'.trans (hlt'.le.trans hc.place_le)
    have hrow : Between a.extent.start [a, b, c] c.extent.stop :=
      ⟨Nat.le_refl _, ha.laid, .pair hb.laid hc.laid hab hbc⟩
    have hquestion := ha.reaches.here.reaches hquestion (by simp)
    have hcolon := hb.reaches.here.reaches hcolon (by simp)
    exact ha.grow rfl (.of_between (hrow.lt (by simp)) hrow)
      ((hquestion.trans hb.reaches).trans (hcolon.trans hc.reaches))
  · obtain ⟨rfl, rfl⟩ := reads_pure.1 hr
    exact ha

lemma Orderly.binary_succ (ih : Orderly steps) {least : Nat} (h : At place ls)
    (hr : Reads (Parser.binary (steps + 1) least) ls e ls') : e.Spans place ls ls' := by
  simp only [Parser.binary, reads_bind] at hr
  obtain ⟨a, ms, ha, hr⟩ := hr
  exact ih.binaryRest (ih.unary h ha) hr

lemma Orderly.binaryRest_succ (ih : Orderly steps) {least : Nat} {left : Expr}
    (hleft : left.Spans place ls ms)
    (hr : Reads (Parser.binaryRest (steps + 1) least left) ms e ls') : e.Spans place ls ls' := by
  simp only [Parser.binaryRest, reads_bind, reads_peek] at hr
  obtain ⟨l, ms', ⟨rfl, rfl⟩, hr⟩ := hr
  split at hr
  · rename_i op power hop
    split at hr
    · obtain ⟨rfl, rfl⟩ := reads_pure.1 hr
      exact hleft
    · simp only [reads_bind, reads_advance] at hr
      obtain ⟨-, ms', rfl, right, ms', hright, hr⟩ := hr
      have hend : ms.next.token ≠ .eof := by
        intro heq
        rw [heq] at hop
        cases hop
      obtain ⟨hle, hlt, hat⟩ := hleft.reaches.here.next rfl hend
      have hright := ih.binary hat hright
      have hrow := Between.pair hleft.laid hright.laid (Nat.le_refl _)
        (hle.trans (hlt.le.trans hright.place_le))
      have hboth : (Expr.binary ⟨left.extent.start, right.extent.stop⟩ op left right).Spans place
          ls ms' := hleft.grow rfl (.of_between (hrow.lt (by simp)) hrow)
        ((hleft.reaches.here.reaches rfl hend).trans hright.reaches)
      exact ih.binaryRest hboth hr
  · obtain ⟨rfl, rfl⟩ := reads_pure.1 hr
    exact hleft

/-- A sign that stays, and its operand. -/
lemma spans_unary {op : UnaryOp} {l : Lexeme} (h : At place ls) (hl : ls.next = l)
    (hplus : l.token ≠ .plus) (hend : l.token ≠ .eof)
    (ha : a.Spans l.extent.stop ls.rest ls') :
    (Expr.unary ⟨l.extent.start, a.extent.stop⟩ op a).Spans place ls ls' := by
  subst hl
  obtain ⟨-, hlt, -⟩ := h.next rfl hend
  have hrow : Between ls.next.extent.start [a] a.extent.stop :=
    ⟨hlt.le.trans ha.place_le, ha.laid, Nat.le_refl _⟩
  exact spans_of_next h hplus hend rfl (.of_between (hrow.lt (by simp)) hrow)
    ((h.reaches rfl hend).trans ha.reaches)

lemma Orderly.unary_succ (ih : Orderly steps) (h : At place ls)
    (hr : Reads (Parser.unary (steps + 1)) ls e ls') : e.Spans place ls ls' := by
  simp only [Parser.unary, reads_bind, reads_peek] at hr
  obtain ⟨l, ms, ⟨rfl, rfl⟩, hr⟩ := hr
  split at hr
  · rename_i hplus
    simp only [reads_bind, reads_advance] at hr
    obtain ⟨-, ms, rfl, hr⟩ := hr
    exact .behind_plus h hplus (ih.unary (h.next hplus (by simp)).2.2 hr)
  · rename_i hnot
    simp only [reads_bind, reads_advance, reads_pure] at hr
    obtain ⟨-, ms, rfl, a, ms, ha, rfl, rfl⟩ := hr
    exact spans_unary h rfl (by simp [hnot]) (by simp [hnot])
      (ih.unary (h.next hnot (by simp)).2.2 ha)
  · rename_i hminus
    simp only [reads_bind, reads_advance, reads_pure] at hr
    obtain ⟨-, ms, rfl, a, ms, ha, rfl, rfl⟩ := hr
    exact spans_unary h rfl (by simp [hminus]) (by simp [hminus])
      (ih.unary (h.next hminus (by simp)).2.2 ha)
  · simp only [reads_bind] at hr
    obtain ⟨a, ms, ha, hr⟩ := hr
    exact ih.links (ih.primary h ha) hr

/-- A link by name. -/
lemma spans_field {object : Expr} {optional : Bool} {name : Text}
    (hobject : object.Laid) (hle : object.extent.stop ≤ place) (h : At place ls)
    (hname : ls.next.token.propertyName? = some name) :
    let e := Expr.field ⟨object.extent.start, ls.next.extent.stop⟩ object optional
      ls.next.extent name
    e.extent.start = object.extent.start ∧ e.Laid ∧ Reaches ls e.extent.stop ls.rest := by
  intro e
  have hend : ls.next.token ≠ .eof := by
    intro heq
    rw [heq] at hname
    cases hname
  obtain ⟨hstart, hlt, -⟩ := h.next rfl hend
  have hstring : (Expr.string ls.next.extent name).Laid := .of_between hlt hlt.le
  have hrow := Between.pair (e := .string ls.next.extent name) hobject hstring (Nat.le_refl _)
    (hle.trans hstart)
  exact ⟨rfl, .of_between (hrow.lt (by simp)) hrow, h.reaches rfl hend⟩

lemma Orderly.links_succ (ih : Orderly steps) {object : Expr} (hobject : object.Spans place ls ms)
    (hr : Reads (Parser.links (steps + 1) object) ms e ls') : e.Spans place ls ls' := by
  have hhere := hobject.reaches.here
  simp only [Parser.links, reads_bind, reads_peek] at hr
  obtain ⟨l, ms', ⟨rfl, rfl⟩, hr⟩ := hr
  split at hr
  · rename_i hdot
    simp only [reads_bind, reads_advance, reads_field] at hr
    obtain ⟨-, ms', rfl, o, ms', ⟨name, hname, rfl, rfl⟩, hr⟩ := hr
    obtain ⟨hle, hlt, hat⟩ := hhere.next hdot (by simp)
    obtain ⟨hstart, hlaid, hreaches⟩ := spans_field hobject.laid (hle.trans hlt.le) hat hname
    exact ih.links (hobject.grow hstart hlaid ((hhere.reaches hdot (by simp)).trans hreaches)) hr
  · rename_i hdot
    simp only [reads_bind, reads_advance, reads_peek] at hr
    obtain ⟨-, ms', rfl, l, ms', ⟨rfl, rfl⟩, hr⟩ := hr
    obtain ⟨hle, hlt, hat⟩ := hhere.next hdot (by simp)
    have hdot := hhere.reaches hdot (by simp)
    split at hr
    · simp only [reads_bind] at hr
      obtain ⟨o, ms', ho, hr⟩ := hr
      obtain ⟨hstart, hlaid, hreaches⟩ := ih.index hobject.laid (hle.trans hlt.le) hat ho
      exact ih.links (hobject.grow hstart hlaid (hdot.trans hreaches)) hr
    · simp only [reads_bind, reads_field] at hr
      obtain ⟨o, ms', ⟨name, hname, rfl, rfl⟩, hr⟩ := hr
      obtain ⟨hstart, hlaid, hreaches⟩ := spans_field hobject.laid (hle.trans hlt.le) hat hname
      exact ih.links (hobject.grow hstart hlaid (hdot.trans hreaches)) hr
  · simp only [reads_bind] at hr
    obtain ⟨o, ms', ho, hr⟩ := hr
    obtain ⟨hstart, hlaid, hreaches⟩ := ih.index hobject.laid (Nat.le_refl _) hhere ho
    exact ih.links (hobject.grow hstart hlaid hreaches) hr
  · obtain ⟨rfl, rfl⟩ := reads_pure.1 hr
    exact hobject

lemma Orderly.index_succ (ih : Orderly steps) {object : Expr} {optional : Bool}
    (hobject : object.Laid) (hle : object.extent.stop ≤ place) (h : At place ls)
    (hr : Reads (Parser.index (steps + 1) object optional) ls e ls') :
    e.extent.start = object.extent.start ∧ e.Laid ∧ Reaches ls e.extent.stop ls' := by
  simp only [Parser.index, reads_bind, reads_expect, reads_pure] at hr
  obtain ⟨-, ms, ⟨hl, -, rfl⟩, key, ms, hkey, r, ms, ⟨hr, rfl, rfl⟩, rfl, rfl⟩ := hr
  obtain ⟨hstart, hlt, hat⟩ := h.next hl (by simp)
  have hkey := ih.ternary hat hkey
  obtain ⟨hstart', hlt', -⟩ := hkey.reaches.here.next hr (by simp)
  have hrow := Between.pair hobject hkey.laid (Nat.le_refl _)
    (hle.trans (hstart.trans (hlt.le.trans hkey.place_le)))
  have hwide := hrow.mono (Nat.le_refl _) (hstart'.trans hlt'.le)
  exact ⟨rfl, .of_between (hwide.lt (by simp)) hwide, ((h.reaches hl (by simp)).trans
    hkey.reaches).trans (hkey.reaches.here.reaches hr (by simp))⟩

/-! ### Brackets -/

/-- What stands between two brackets, and the brackets. -/
lemma spans_brackets {open' close : Token} {es : List Expr} (h : At place ls)
    (hl : ls.next.token = open') (hplus : open' ≠ .plus) (hend : open' ≠ .eof)
    (hrow : Between ls.next.extent.stop es stop) (hms : At stop ms) (hsuffix : ms <:+ ls.rest)
    (hr : ms.next.token = close) (hend' : close ≠ .eof) (hparts : e.parts = es)
    (hextent : e.extent = ⟨ls.next.extent.start, ms.next.extent.stop⟩) :
    e.Spans place ls ms.rest := by
  obtain ⟨-, hlt, -⟩ := h.next hl hend
  obtain ⟨hstart', hlt', -⟩ := hms.next hr hend'
  have hproper : ls.next.extent.start < ms.next.extent.stop :=
    hlt.trans_le (hrow.le.trans (hstart'.trans hlt'.le))
  refine spans_of_next h (hl ▸ hplus) (hl ▸ hend) (by rw [hextent]) (.of_between ?_ ?_) ?_
  · rwa [hextent]
  · rw [hextent, hparts]
    exact hrow.mono hlt.le (hstart'.trans hlt'.le)
  · rw [hextent]
    exact (h.reaches hl hend).trans ((hms.reaches hr hend').of_suffix hsuffix)

lemma extent_of_literal? {t : Token} {x : Extent} (h : t.literal? x = some e) :
    e.extent = x ∧ e.parts = [] := by
  cases t <;> cases h <;> exact ⟨rfl, rfl⟩

lemma Orderly.primary_succ (ih : Orderly steps) (h : At place ls)
    (hr : Reads (Parser.primary (steps + 1)) ls e ls') : e.Spans place ls ls' := by
  simp only [Parser.primary, reads_bind, reads_peek] at hr
  obtain ⟨l, ms, ⟨rfl, rfl⟩, hr⟩ := hr
  split at hr
  · rename_i a ha
    simp only [reads_bind, reads_advance, reads_pure] at hr
    obtain ⟨-, ms, rfl, rfl, rfl⟩ := hr
    obtain ⟨hextent, hparts⟩ := extent_of_literal? ha
    have hplus : ls.next.token ≠ .plus := fun heq => by simp [heq, Token.literal?] at ha
    have hend : ls.next.token ≠ .eof := fun heq => by simp [heq, Token.literal?] at ha
    obtain ⟨-, hlt, -⟩ := h.next rfl hend
    refine spans_of_next h hplus hend (by rw [hextent]) (.of_between ?_ ?_) ?_
    · rwa [hextent]
    · rw [hextent, hparts]
      exact hlt.le
    · rw [hextent]
      exact h.reaches rfl hend
  · split at hr
    · rename_i hl
      simp only [reads_bind, reads_advance, reads_expect, reads_pure] at hr
      obtain ⟨-, ms, rfl, a, ms, ha, r, ms, ⟨hr, rfl, rfl⟩, rfl, rfl⟩ := hr
      obtain ⟨-, hlt, hat⟩ := h.next hl (by simp)
      have ha := ih.ternary hat ha
      obtain ⟨hle, hlt', -⟩ := ha.reaches.here.next hr (by simp)
      have hextent : ∀ x, (a.withExtent x).extent = x := fun x => by cases a <;> rfl
      refine spans_of_next h (by simp [hl]) (by simp [hl]) (by rw [hextent])
        (ha.laid.withExtent (hlt.le.trans ha.place_le) (hle.trans hlt'.le)) ?_
      rw [hextent]
      exact ((h.reaches hl (by simp)).trans ha.reaches).trans
        (ha.reaches.here.reaches hr (by simp))
    · rename_i hl
      simp only [reads_bind, reads_advance, reads_expect, reads_pure] at hr
      obtain ⟨-, ms, rfl, es, ms, hes, r, ms, ⟨hr, rfl, rfl⟩, rfl, rfl⟩ := hr
      obtain ⟨stop, hrow, hat, hsuffix⟩ := ih.items (h.next hl (by simp)).2.2 hes
      exact spans_brackets h hl (by simp) (by simp) hrow hat hsuffix hr (by simp) rfl rfl
    · rename_i hl
      simp only [reads_bind, reads_advance, reads_expect, reads_pure] at hr
      obtain ⟨-, ms, rfl, ps, ms, hps, r, ms, ⟨hr, rfl, rfl⟩, rfl, rfl⟩ := hr
      obtain ⟨stop, hrow, hat, hsuffix⟩ := ih.properties (h.next hl (by simp)).2.2 hps
      exact spans_brackets h hl (by simp) (by simp) hrow hat hsuffix hr (by simp) rfl rfl
    · exact absurd hr not_reads_fail
    · exact absurd hr not_reads_fail

/-- A row stands in order as its items and the rest of it do. -/
lemma between_of_reads {α : Type} {close : Token} {one : Parser α} {others : Parser (List α)}
    {as : List α} (value : α → Expr)
    (hone : ∀ {place ls a ls'}, At place ls → Reads one ls a ls' →
      place ≤ (value a).extent.start ∧ (value a).Laid ∧ At (value a).extent.stop ls' ∧ ls' <:+ ls)
    (hothers : ∀ {place ls as ls'}, At place ls → Reads others ls as ls' →
      ∃ stop, Between place (as.map value) stop ∧ At stop ls' ∧ ls' <:+ ls)
    (h : At place ls) (hr : Reads (row close one others) ls as ls') :
    ∃ stop, Between place (as.map value) stop ∧ At stop ls' ∧ ls' <:+ ls := by
  rw [reads_row] at hr
  split at hr
  · obtain ⟨rfl, rfl⟩ := hr
    exact ⟨place, Nat.le_refl _, h, List.suffix_refl _⟩
  · obtain ⟨a, ms, ha, hr⟩ := hr
    obtain ⟨hle, hlaid, hat, hsuffix⟩ := hone h ha
    split at hr
    · rename_i hcomma
      obtain ⟨more, hmore, rfl⟩ := hr
      obtain ⟨hle', hlt', hat'⟩ := hat.next hcomma (by simp)
      obtain ⟨stop, hrow, hend, hsuffix'⟩ := hothers hat' hmore
      refine ⟨stop, ⟨hle, hlaid, hrow.mono (hle'.trans hlt'.le) (Nat.le_refl _)⟩, hend, ?_⟩
      exact (hsuffix'.trans (hat.reaches hcomma (by simp)).suffix).trans hsuffix
    · obtain ⟨rfl, rfl⟩ := hr
      exact ⟨_, ⟨hle, hlaid, Nat.le_refl _⟩, hat, hsuffix⟩

lemma Orderly.items_succ (ih : Orderly steps) {es : List Expr} (h : At place ls)
    (hr : Reads (Parser.items (steps + 1)) ls es ls') :
    ∃ stop, Between place es stop ∧ At stop ls' ∧ ls' <:+ ls := by
  rw [items_eq_row] at hr
  have hrow := between_of_reads id
    (fun h ha => have ha := ih.ternary h ha
      ⟨ha.place_le, ha.laid, ha.reaches.here, ha.reaches.suffix⟩)
    (fun h hr => by simpa using ih.items h hr) h hr
  rwa [List.map_id] at hrow

lemma Orderly.properties_succ (ih : Orderly steps) {ps : List (Property Expr)} (h : At place ls)
    (hr : Reads (Parser.properties (steps + 1)) ls ps ls') :
    ∃ stop, Between place (ps.map Property.value) stop ∧ At stop ls' ∧ ls' <:+ ls := by
  rw [properties_eq_row] at hr
  exact between_of_reads Property.value ih.property ih.properties h hr

lemma Orderly.property_succ (ih : Orderly steps) {p : Property Expr} (h : At place ls)
    (hr : Reads (Parser.property (steps + 1)) ls p ls') :
    place ≤ p.value.extent.start ∧ p.value.Laid ∧ At p.value.extent.stop ls' ∧ ls' <:+ ls := by
  simp only [Parser.property, reads_bind, reads_peek] at hr
  obtain ⟨l, ms, ⟨rfl, rfl⟩, hr⟩ := hr
  split at hr
  · exact absurd hr not_reads_fail
  · rename_i key hkey
    have hend : ls.next.token ≠ .eof := fun heq => by simp [heq, Token.propertyKey?] at hkey
    obtain ⟨hle, hlt, hat⟩ := h.next rfl hend
    have hreaches := h.reaches rfl hend
    simp only [reads_bind, reads_advance, reads_peek] at hr
    obtain ⟨-, ms, rfl, l, ms, ⟨rfl, rfl⟩, hr⟩ := hr
    split at hr
    · rename_i hcolon
      simp only [reads_bind, reads_advance, reads_pure] at hr
      obtain ⟨-, ms, rfl, a, ms, ha, rfl, rfl⟩ := hr
      obtain ⟨hle', hlt', hat'⟩ := hat.next hcolon (by simp)
      have ha := ih.ternary hat' ha
      have hplace := hle.trans (hlt.le.trans (hle'.trans (hlt'.le.trans ha.place_le)))
      exact ⟨hplace, ha.laid, ha.reaches.here,
        (hreaches.trans ((hat.reaches hcolon (by simp)).trans ha.reaches)).suffix⟩
    · split at hr
      · obtain ⟨rfl, rfl⟩ := reads_pure.1 hr
        exact ⟨hle, .of_between hlt hlt.le, hat, hreaches.suffix⟩
      · exact absurd hr not_reads_fail

/-- All rules read in order. -/
theorem orderly (steps : Nat) : Orderly steps := by
  induction steps with
  | zero => exact .zero
  | succ steps ih =>
    exact {
      ternary := ih.ternary_succ
      binary := ih.binary_succ
      binaryRest := ih.binaryRest_succ
      unary := ih.unary_succ
      links := ih.links_succ
      index := ih.index_succ
      primary := ih.primary_succ
      items := ih.items_succ
      properties := ih.properties_succ
      property := ih.property_succ }

end Parser

namespace Expr

/-! ### The whole expression -/

variable {place : Nat} {ls' : Lexemes} {e : Expr}

/-- What is left of a whole text is its end. -/
lemma Spans.exists_last {front : Lexemes} {l : Lexeme} (h : e.Spans place (front ++ [l]) ls')
    (hfront : ∀ m ∈ front, m.token ≠ .eof) (hend : ls'.next.token = .eof) :
    ∃ xs m, front = xs ++ [m] ∧ m.extent.stop = e.extent.stop := by
  obtain ⟨⟨xs, m, heq, hstop⟩, here⟩ := h.reaches
  obtain ⟨ys, k, rfl, -⟩ := here.ended
  obtain ⟨zs, hzs, rfl⟩ := exists_eq_concat heq (by simp)
  obtain ⟨rfl, -⟩ := List.append_inj' hzs rfl
  cases ys with
  | nil => exact ⟨xs, m, rfl, hstop⟩
  | cons k ys => exact absurd hend (hfront k (by simp))

/-- In a whole text, the expression begins with a token, and only signs plus are in front of it. -/
lemma Spans.exists_first {front : Lexemes} {l : Lexeme} (h : e.Spans place (front ++ [l]) ls')
    (hl : l.token = .eof) :
    ∃ signs first others, front = signs ++ first :: others ∧
      (∀ s ∈ signs, s.token = .plus ∧ s.extent.stop ≤ e.extent.start) ∧
      first.token ≠ .plus ∧ first.extent.start = e.extent.start := by
  obtain ⟨signs, first, rest, heq, hsigns, hplus, hne, hstart⟩ := h.start
  have hrest : rest ≠ [] := by
    rintro rfl
    obtain ⟨-, hlast⟩ := List.append_inj' heq rfl
    exact hne ((List.cons.inj hlast).1 ▸ hl)
  obtain ⟨others, -, rfl⟩ := exists_eq_concat heq hrest
  exact ⟨signs, first, others, rfl, hsigns, hplus, hstart⟩

/-- **Expressions stand where their tokens do.** The whole expression reaches from the first token
that is no sign plus to the last one, so it begins with the first token of the text exactly if no
sign plus is in front; inside, every part lies in its expression, behind the parts before it. -/
theorem extent_of_parse {source : Text} (h : parse source = .ok e) :
    ∃ (signs : List Lexeme) (first : Lexeme) (others : List Lexeme) (n : Nat),
      Lexer.lex source = .ok (signs ++ first :: others ++ [⟨.eof, n, n⟩]) ∧
      (∀ l ∈ signs ++ first :: others, l.token ≠ .eof) ∧
      (∀ l ∈ signs, l.token = .plus) ∧ first.token ≠ .plus ∧
      e.extent = ⟨first.extent.start, (others.getLastD first).extent.stop⟩ ∧
      (e.extent.start = (signs.headD first).extent.start ↔ signs = []) ∧ e.Laid := by
  obtain ⟨ls, ls', hlex, hr⟩ := parse_eq_ok_iff.1 h
  obtain ⟨hr, hend⟩ := Parser.reads_whole.1 hr
  have hcut := Lexer.cut_of_lexFrom hlex
  have hspans := (Parser.orderly _).ternary ⟨hcut.inOrder, Lexer.ended_lexFrom hlex⟩ hr
  obtain ⟨front, rfl, hfront⟩ := hcut.exists_eq_append
  obtain ⟨xs, m, hxs, hstop⟩ := hspans.exists_last hfront hend
  obtain ⟨signs, first, others, rfl, hsigns, hplus, hstart⟩ := hspans.exists_first rfl
  have hlast : others.getLastD first = m := by
    have hgetLast := congrArg List.getLast? hxs
    rw [List.getLast?_append_cons, List.getLast?_concat, List.getLast?_cons] at hgetLast
    rw [List.getLastD_eq_getLast?]
    exact Option.some.inj hgetLast
  refine ⟨signs, first, others, _, hlex, hfront, fun l hl => (hsigns l hl).1, hplus, ?_, ?_,
    hspans.laid⟩
  · rw [hlast, hstart, hstop]
  · cases signs with
    | nil => exact iff_of_true hstart.symm rfl
    | cons sign signs =>
      obtain ⟨hsign, hle⟩ := hsigns sign List.mem_cons_self
      have hlt := hcut.inOrder.start_lt_stop sign (by simp) (by simp [hsign])
      exact iff_of_false (hlt.trans_le hle).ne' (List.cons_ne_nil _ _)

/-- Only a sign plus in front of the whole is left out. -/
theorem extent_of_parse_list :
    ∃ e, parse "+a ? [b.c, +d] : (+e)[f]" = .ok e ∧ e.extent = ⟨1, 24⟩ ∧ e.Laid := by
  obtain ⟨e, he⟩ := exists_parse "+a ? [b.c, +d] : (+e)[f]" (by decide +kernel)
  have hextent : (parse "+a ? [b.c, +d] : (+e)[f]").toOption.map Expr.extent = some ⟨1, 24⟩ := by
    decide +kernel
  rw [he] at hextent
  obtain ⟨_, _, _, _, _, _, _, _, _, _, hlaid⟩ := extent_of_parse he
  exact ⟨e, he, Option.some.inj hextent, hlaid⟩

/-- The sign plus is the first token here, and the expression begins behind it. -/
theorem extent_of_parse_sign :
    ∃ (e : Expr) (ls : Lexemes), parse "+a" = .ok e ∧ Lexer.lex "+a" = .ok ls ∧
      ls.next.extent.start = 0 ∧ e.extent.start = 1 := by
  obtain ⟨e, he⟩ := exists_parse "+a" (by decide +kernel)
  obtain ⟨ls, -, hls, -⟩ := parse_eq_ok_iff.1 he
  have hfirst : (Lexer.lex "+a").toOption.map (Lexemes.next · |>.extent.start) = some 0 := by
    decide +kernel
  have hstart : (parse "+a").toOption.map (·.extent.start) = some 1 := by
    decide +kernel
  rw [hls] at hfirst
  rw [he] at hstart
  exact ⟨e, ls, he, hls, Option.some.inj hfirst, Option.some.inj hstart⟩

end Expr

end HtmlTemplate
