import HtmlTemplate.Proofs.Markup.Builder
import HtmlTemplate.Proofs.Markup.Growth

/-!
Building in place is building, and what it leaves behind can be walked through.
-/

namespace HtmlTemplate

open Node

namespace Arena

variable {b : Builder} {e : Segment}

/-- The tree under construction, kept in place. -/
def ofBuilder (b : Builder) : Arena :=
  ⟨NodeTable.ofForest b.forest, HtmlTemplate.openIds b.stack, b.placeholders⟩

lemma ofBuilder_eq : ofBuilder b =
    ⟨NodeTable.ofStack b.siblings b.stack, HtmlTemplate.openIds b.stack, b.placeholders⟩ := by
  rw [ofBuilder, Builder.forest, NodeTable.ofForest_unwind]

lemma ofPlaceholders_eq (p : Placeholders) :
    ofPlaceholders p = ofBuilder (.ofPlaceholders p) := by
  rw [ofBuilder_eq]
  simp [ofPlaceholders, Builder.ofPlaceholders, NodeTable.ofStack, NodeTable.around,
    NodeTable.extend, NodeTable.empty, firstInside, HtmlTemplate.openIds]

lemma placeholders_ofBuilder : (ofBuilder b).placeholders = b.placeholders := rfl

lemma append_ofBuilder {n : Node} (h : n.children = []) :
    (ofBuilder b).append n = ofBuilder (b.append n) := by
  rw [ofBuilder_eq, ofBuilder_eq, append, NodeTable.append_ofStack h]
  rfl

lemma openElement_ofBuilder (head : Opening) :
    (ofBuilder b).openElement head = ofBuilder (b.openElement head) := by
  have hid : (ofBuilder b).table.rows.length = OpenElement.id ⟨head, b.siblings⟩ b.stack := by
    rw [ofBuilder_eq, NodeTable.length_ofStack]
    rfl
  rw [openElement, append_ofBuilder rfl, hid]
  rfl

lemma closeElement_ofBuilder : (ofBuilder b).closeElement = ofBuilder b.closeElement := by
  obtain ⟨siblings, stack, p⟩ := b
  cases stack with
  | nil => rfl
  | cons o stack =>
    rw [ofBuilder_eq, ofBuilder_eq]
    simp only [closeElement, Builder.closeElement, HtmlTemplate.openIds, NodeTable.close_ofStack]

lemma take_ofBuilder : (ofBuilder b).take e.raw =
    ((b.placeholders.take e.raw).1, ofBuilder (b.resolved e)) := rfl

/-- One segment does the same in place. One that is refused changes nothing. -/
lemma push_ofBuilder : (ofBuilder b).push e =
    match b.push e with
    | .ok b' => (.ok (), ofBuilder b')
    | .error err => (.error err, ofBuilder b) := by
  rcases hk : e.kind with role | k
  · cases role with
    | opens =>
      rw [Builder.push_opens hk, push, hk]
      simp only [take_ofBuilder, openElement_ofBuilder]
      rfl
    | selfCloses =>
      rw [Builder.push_selfCloses hk, push, hk]
      simp only [take_ofBuilder]
      rw [← append_ofBuilder rfl]
      rfl
    | closes =>
      rw [Builder.push_closes hk, push, hk]
      simp only [close, placeholders_ofBuilder, take_ofBuilder, closeElement_ofBuilder]
      split_ifs <;> rfl
  · rw [Builder.push_leaf hk, push, hk]
    simp only [take_ofBuilder]
    rw [append_ofBuilder rfl]

/-- So does any run of segments. -/
lemma pushEach_ofBuilder (es : List Segment) :
    (ofBuilder b).pushEach es = ofBuilder (b.pushEach es) := by
  induction es generalizing b with
  | nil => rfl
  | cons e es ih =>
    rw [pushEach, Builder.pushEach, List.foldl_cons, List.foldl_cons, push_ofBuilder]
    cases b.push e with
    | ok b' => exact ih
    | error err => exact ih

/-- A segment that is refused leaves everything as it was. -/
lemma push_error {a : Arena} {err : ParseError} (h : (a.push e).1 = .error err) :
    (a.push e).2 = a := by
  rcases hk : e.kind with role | k
  · cases role with
    | opens =>
      rw [push, hk] at h
      cases h
    | selfCloses =>
      rw [push, hk] at h
      cases h
    | closes =>
      rw [push, hk] at h ⊢
      unfold close at h ⊢
      by_cases hname : Builder.closingName e.raw = []
      · rw [if_pos hname]
      · rw [if_neg hname] at h
        cases h
  · rw [push, hk] at h
    cases h

/-- The open elements of an arena are elements of its table that wait for a closing tag. -/
lemma row?_of_mem_openIds (h : b.Tidy) {id : Nat} (hid : id ∈ (ofBuilder b).openIds) :
    ∃ r, (ofBuilder b).table.row? id = some r ∧ r.node.isElement = true ∧
      r.node.closed = false ∧ r.node.selfClosing = false := by
  obtain ⟨o, ho, r, hr, hn⟩ := NodeTable.row?_around hid
  refine ⟨r, ?_, ?_⟩
  · rw [ofBuilder_eq]
    exact NodeTable.row?_extend hr
  · rw [hn]
    exact ⟨rfl, rfl, h.heads o ho⟩

/-- **Any run of segments leaves a table that can be walked through.** It is the table of the
trees that the builder makes of the same segments, and a segment that is refused next leaves
everything as it is. -/
theorem pushEach_wellFormed (p : Placeholders) (es : List Segment) :
    let a := (ofPlaceholders p).pushEach es
    let t := a.table
    t = NodeTable.ofForest ((Builder.ofPlaceholders p).pushEach es).forest ∧
      (∀ e err, (a.push e).1 = .error err → (a.push e).2 = a) ∧
      (∀ id ∈ a.openIds, ∃ r, t.row? id = some r ∧ r.node.isElement = true ∧
        r.node.closed = false ∧ r.node.selfClosing = false) ∧
      t.WellFormed ∧ t.Navigable ∧
      t.descendants = List.range t.rows.length ∧
      ∀ steps, t.rows.length ≤ steps → t.visit steps t.roots = t.descendants := by
  intro a t
  set b := (Builder.ofPlaceholders p).pushEach es with hb
  have ha : a = ofBuilder b := by rw [hb, ← pushEach_ofBuilder, ← ofPlaceholders_eq]
  have ht : t = NodeTable.ofForest b.forest := congrArg table ha
  have htidy : b.Tidy := (Builder.tidy_ofPlaceholders p).pushEach es
  have hwell : t.WellFormed := by
    rw [ht]
    exact NodeTable.wellFormed_ofForest b.forest htidy.forest
  have hvisit : ∀ steps, t.rows.length ≤ steps →
      t.visit steps t.roots = List.range t.rows.length := by
    rw [ht]
    intro steps
    exact NodeTable.visit_ofForest b.forest
  have hdescendants : t.descendants = List.range t.rows.length := hvisit _ (Nat.le_refl _)
  refine ⟨ht, fun e err => push_error, ?_, hwell, hwell.navigable, hdescendants, ?_⟩
  · intro id hid
    rw [ha] at hid
    rw [ht]
    exact row?_of_mem_openIds htidy hid
  · intro steps hsteps
    rw [hdescendants, hvisit steps hsteps]

end Arena

end HtmlTemplate
