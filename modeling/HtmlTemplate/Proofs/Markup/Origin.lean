import HtmlTemplate.Proofs.Markup.Brackets
import HtmlTemplate.Proofs.Markup.Scan

/-!
Where nodes come from.

Every node of a template that can be parsed is a leaf or an element that one of its segments makes,
resolved over a table that still holds all that is hidden in that segment.
-/

namespace HtmlTemplate

open Node

/-- A table holds all that is hidden in texts that follow each other, and nothing twice. -/
structure Placeholders.Ready (p : Placeholders) (rs : List Nested) : Prop where
  holds : p.Holds (Nested.join rs)
  once : (Nested.join rs).numbers.Nodup

namespace Placeholders.Ready

variable {p : Placeholders} {r : Nested} {rs : List Nested}

lemma head (h : p.Ready (r :: rs)) : p.Holds r ∧ r.numbers.Nodup := by
  obtain ⟨hholds, honce⟩ := h
  rw [Nested.join_cons] at hholds honce
  rw [Nested.numbers_append] at honce
  exact ⟨(holds_append.1 hholds).1, (List.nodup_append.1 honce).1⟩

/-- The first text is resolved to its source, and what the others hide stays. -/
lemma take (h : p.Ready (r :: rs)) :
    p.take r.shown = (r.source, p.without r.numbers) ∧ (p.without r.numbers).Ready rs := by
  obtain ⟨hr, hronce⟩ := h.head
  obtain ⟨hholds, honce⟩ := h
  rw [Nested.join_cons] at hholds honce
  rw [Nested.numbers_append] at honce
  obtain ⟨-, hrsonce, hdisjoint⟩ := List.nodup_append.1 honce
  exact ⟨hr.take hronce, (holds_append.1 hholds).2.without
    fun m hm hmr => hdisjoint m hmr m hm rfl, hrsonce⟩

lemma nodup_of_mem (h : p.Ready rs) (hr : r ∈ rs) : r.numbers.Nodup := by
  induction rs generalizing p with
  | nil => cases hr
  | cons s rs ih =>
    rcases List.mem_cons.1 hr with rfl | hr
    · exact h.head.2
    · exact ih h.take.2 hr

end Placeholders.Ready

namespace Bracket

/-- The nodes that a bracket is in the tree. -/
inductive Yields : Bracket → Node → Prop
  | leaf {n m : Node} (hm : m ∈ nodes n) : Yields (.leaf n) m
  | opens (head : Opening) (closed : Bool) (children : List Node) :
      Yields (.opens head) (.element head closed children)

variable {w : List Bracket} {ns : List Node} {n : Node}

lemma Forest.exists_yields (h : Forest w ns) (hn : n ∈ nodesAll ns) : ∃ b ∈ w, b.Yields n := by
  induction h with
  | nil => cases hn
  | leaf m _ ih =>
    rw [nodesAll, List.mem_append] at hn
    rcases hn with hn | hn
    · exact ⟨_, List.mem_cons_self, .leaf hn⟩
    · obtain ⟨b, hb, hyields⟩ := ih hn
      exact ⟨b, List.mem_cons_of_mem _ hb, hyields⟩
  | element head _ _ ihinside ihrest =>
    rw [nodesAll_element, List.mem_cons, List.mem_append] at hn
    rcases hn with rfl | hn | hn
    · exact ⟨_, List.mem_cons_self, .opens head true _⟩
    · obtain ⟨b, hb, hyields⟩ := ihinside hn
      exact ⟨b, by simp [hb], hyields⟩
    · obtain ⟨b, hb, hyields⟩ := ihrest hn
      exact ⟨b, by simp [hb], hyields⟩

lemma OpenForest.exists_yields (h : OpenForest w ns) (hn : n ∈ nodesAll ns) :
    ∃ b ∈ w, b.Yields n := by
  induction h with
  | forest all => exact all.exists_yields hn
  | element head before _ ih =>
    rw [nodesAll_append, nodesAll_element, List.mem_append, List.mem_cons, List.mem_append] at hn
    rcases hn with hn | rfl | hn | hn
    · obtain ⟨b, hb, hyields⟩ := before.exists_yields hn
      exact ⟨b, by simp [hb], hyields⟩
    · exact ⟨_, by simp, .opens head false _⟩
    · obtain ⟨b, hb, hyields⟩ := ih hn
      exact ⟨b, by simp [hb], hyields⟩
    · cases hn

lemma Document.exists_yields (h : Document w ns) (hn : n ∈ nodesAll ns) :
    ∃ b ∈ w, b.Yields n := by
  induction h with
  | last all => exact all.exists_yields hn
  | stray before _ ih =>
    rw [nodesAll_append, List.mem_append] at hn
    rcases hn with hn | hn
    · obtain ⟨b, hb, hyields⟩ := before.exists_yields hn
      exact ⟨b, by simp [hb], hyields⟩
    · obtain ⟨b, hb, hyields⟩ := ih hn
      exact ⟨b, by simp [hb], hyields⟩

/-- A bracket is that of one segment, over a table that holds what is hidden in it. -/
lemma exists_ofSegment? {rs : List Nested} {es : List Segment} {p : Placeholders} {b : Bracket}
    (hraws : es.map Segment.raw = rs.map Nested.shown) (hp : p.Ready rs)
    (hb : b ∈ ofSegments p es) :
    ∃ r ∈ rs, ∃ e : Segment, e.raw = r.shown ∧ ∃ q : Placeholders, q.Holds r ∧
      r.numbers.Nodup ∧ ofSegment? q e = some b := by
  induction rs generalizing p es with
  | nil =>
    obtain rfl := List.map_eq_nil_iff.1 hraws
    cases hb
  | cons r rs ih =>
    obtain ⟨e, es, rfl, he, hes⟩ := List.map_eq_cons_iff.1 hraws
    obtain ⟨hr, hronce⟩ := hp.head
    obtain ⟨htake, hrest⟩ := hp.take
    rw [ofSegments, List.mem_append] at hb
    rcases hb with hb | hb
    · exact ⟨r, List.mem_cons_self, e, he, p, hr, hronce, Option.mem_toList.1 hb⟩
    · rw [he, htake] at hb
      obtain ⟨r', hr', hfound⟩ := ih hes hrest hb
      exact ⟨r', List.mem_cons_of_mem r hr', hfound⟩

end Bracket

namespace Builder

variable {b b' : Builder} {es : List Segment}

lemma closesByName_of_pushAll (h : b.pushAll es = .ok b') : ∀ e ∈ es, e.ClosesByName := by
  induction es generalizing b with
  | nil => exact fun e he => nomatch he
  | cons e es ih =>
    rw [pushAll, List.foldlM_cons] at h
    cases he : b.push e with
    | error err =>
      rw [he] at h
      cases h
    | ok b₁ =>
      rw [he] at h
      refine List.forall_mem_cons.2 ⟨fun hk hname => ?_, ih h⟩
      rw [push_closes hk, if_pos hname] at he
      cases he

end Builder

/-- The trees of a template are those that the builder ends with. -/
lemma exists_pushAll_of_parseTemplate {source : Text} {ns : List Node}
    (h : parseTemplate source = .ok ns) :
    ∃ b, (Builder.ofPlaceholders (Scanned.ofSource source).placeholders).pushAll
      (Scanned.ofSource source).segments = .ok b ∧ b.forest = ns := by
  rw [parseTemplate] at h
  cases hpush : (Builder.ofPlaceholders (Scanned.ofSource source).placeholders).pushAll
      (Scanned.ofSource source).segments with
  | error e =>
    rw [hpush] at h
    cases h
  | ok b =>
    rw [hpush] at h
    exact ⟨b, rfl, Except.ok.inj h⟩

/-- What can be computed of the trees of a template. -/
lemma exists_of_parseTemplate {α : Type} (source : Text) {f : List Node → α} {a : α}
    (h : (parseTemplate source).toOption.map f = some a) :
    ∃ ns, parseTemplate source = .ok ns ∧ f ns = a := by
  cases hp : parseTemplate source with
  | error e =>
    rw [hp] at h
    cases h
  | ok ns =>
    rw [hp] at h
    exact ⟨ns, rfl, Option.some.inj h⟩

/-- A template that can be parsed is the document of its brackets. -/
lemma document_of_parseTemplate {source : Text} {ns : List Node}
    (h : parseTemplate source = .ok ns) :
    Bracket.Document (Bracket.ofSegments (Scanned.ofSource source).placeholders
      (Scanned.ofSource source).segments) ns := by
  obtain ⟨b, hpush, rfl⟩ := exists_pushAll_of_parseTemplate h
  obtain ⟨b', hpush', hforest⟩ := Builder.exists_pushAll (Builder.closesByName_of_pushAll hpush)
  rw [hpush] at hpush'
  obtain rfl := Except.ok.inj hpush'
  exact Bracket.document_iff.2 hforest

end HtmlTemplate
