import Mathlib.Tactic.SplitIfs
import HtmlTemplate.Markup.Builder
import HtmlTemplate.Proofs.Markup.Forest

/-!
What the builder does with one segment, by the kind of the segment, and what every segment keeps:
an element that closes itself never gets anything below it.
-/

namespace HtmlTemplate

open Node

namespace Builder

variable {b : Builder} {e : Segment}

/-- The builder once the placeholders of a segment are resolved. -/
def resolved (b : Builder) (e : Segment) : Builder :=
  { b with placeholders := (b.placeholders.take e.raw).2 }

/-! ### What one segment does -/

lemma push_leaf {k : Leaf} (h : e.kind = .leaf k) : b.push e =
    .ok ((b.resolved e).append (.leaf k (b.placeholders.take e.raw).1 e.line)) := by
  rw [push, h]
  rfl

lemma push_opens (h : e.kind = .tag .opens) : b.push e = .ok ((b.resolved e).openElement
    (opening b.placeholders e.raw (b.placeholders.take e.raw).1 e.line false)) := by
  rw [push, h]
  rfl

lemma push_selfCloses (h : e.kind = .tag .selfCloses) : b.push e = .ok ((b.resolved e).append
    (.element (opening b.placeholders e.raw (b.placeholders.take e.raw).1 e.line true)
      false [])) := by
  rw [push, h]
  rfl

lemma push_closes (h : e.kind = .tag .closes) : b.push e =
    if closingName e.raw = [] then .error ⟨"Malformed closing tag", e.line, 1⟩
    else if isVoid (resolveTag b.placeholders (closingName e.raw)) then .ok (b.resolved e)
    else .ok (b.resolved e).closeElement := by
  rw [push, h]
  rfl

/-! ### Self-closing elements stay empty -/

/-- Open elements have not closed themselves, and the trees so far keep to this too. -/
structure Tidy (b : Builder) : Prop where
  siblings : SelfClosingEmpty b.siblings
  heads : ∀ o ∈ b.stack, o.head.selfClosing = false
  before : ∀ o ∈ b.stack, SelfClosingEmpty o.before

lemma tidy_ofPlaceholders (p : Placeholders) : (ofPlaceholders p).Tidy := by
  refine ⟨SelfClosingEmpty.nil, ?_, ?_⟩ <;> simp [ofPlaceholders]

namespace Tidy

lemma resolved (h : b.Tidy) (e : Segment) : (b.resolved e).Tidy := ⟨h.siblings, h.heads, h.before⟩

lemma append (h : b.Tidy) {n : Node} (hn : SelfClosingEmpty [n]) : (b.append n).Tidy := by
  refine ⟨?_, h.heads, h.before⟩
  rw [Builder.append, ← List.singleton_append, SelfClosingEmpty.append_iff]
  exact ⟨hn, h.siblings⟩

lemma openElement (h : b.Tidy) {head : Opening} (hh : head.selfClosing = false) :
    (b.openElement head).Tidy := by
  refine ⟨SelfClosingEmpty.nil, ?_, ?_⟩
  · exact List.forall_mem_cons.2 ⟨hh, h.heads⟩
  · exact List.forall_mem_cons.2 ⟨h.siblings, h.before⟩

/-- An open element becomes a sibling of those before it, whether it has been closed or not. -/
lemma endElement {siblings : List Node} {o : OpenElement} {stack : List OpenElement}
    {p : Placeholders} (h : Tidy ⟨siblings, o :: stack, p⟩) (closed : Bool) :
    Tidy ⟨.element o.head closed siblings.reverse :: o.before, stack, p⟩ := by
  obtain ⟨hhead, hheads⟩ := List.forall_mem_cons.1 h.heads
  obtain ⟨hbefore, hbefores⟩ := List.forall_mem_cons.1 h.before
  refine ⟨?_, hheads, hbefores⟩
  rw [SelfClosingEmpty.element_iff, SelfClosingEmpty.reverse_iff]
  exact ⟨fun _ => hhead, h.siblings, hbefore⟩

lemma closeElement (h : b.Tidy) : b.closeElement.Tidy := by
  obtain ⟨siblings, stack, p⟩ := b
  cases stack with
  | nil => exact h
  | cons o stack => exact h.endElement true

/-- Ending the open elements makes parents of them only. -/
lemma forest (h : b.Tidy) : SelfClosingEmpty b.forest := by
  obtain ⟨siblings, stack, p⟩ := b
  rw [Builder.forest, SelfClosingEmpty.reverse_iff]
  induction stack generalizing siblings with
  | nil => exact h.siblings
  | cons o stack ih => exact ih _ (h.endElement false)

end Tidy

/-- One segment keeps a tree under construction tidy. -/
lemma Tidy.push {b' : Builder} (h : b.Tidy) (he : b.push e = .ok b') : b'.Tidy := by
  have hr := h.resolved e
  rcases hk : e.kind with role | k
  · cases role with
    | opens =>
      rw [push_opens hk] at he
      obtain rfl := Except.ok.inj he
      exact hr.openElement rfl
    | selfCloses =>
      rw [push_selfCloses hk] at he
      obtain rfl := Except.ok.inj he
      exact hr.append (by simp)
    | closes =>
      rw [push_closes hk] at he
      split_ifs at he
      · obtain rfl := Except.ok.inj he
        exact hr
      · obtain rfl := Except.ok.inj he
        exact hr.closeElement
  · rw [push_leaf hk] at he
    obtain rfl := Except.ok.inj he
    exact hr.append (by simp)

/-- So does any run of segments. -/
lemma Tidy.pushEach (h : b.Tidy) (es : List Segment) : (b.pushEach es).Tidy := by
  induction es generalizing b with
  | nil => exact h
  | cons e es ih =>
    rw [Builder.pushEach, List.foldl_cons]
    cases he : b.push e with
    | ok b' => exact ih (h.push he)
    | error err => exact ih h

end Builder

end HtmlTemplate
