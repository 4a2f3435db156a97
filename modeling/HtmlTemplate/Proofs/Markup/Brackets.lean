import HtmlTemplate.Proofs.Markup.Arena

/-!
The grammar of nesting.

Read as brackets, segments make up a document: balanced forests with stray closing brackets
between them, and at the end forests whose last elements are never closed. The builder keeps a
stack and looks at one segment at a time; what it builds is the one document that the grammar
gives.
-/

namespace HtmlTemplate

/-- What a segment is to the nesting. A closing bracket has no name, so that it matches any
opening one. -/
inductive Bracket where
  | leaf (n : Node)
  | opens (head : Opening)
  | closes

namespace Bracket

/-- The bracket that a segment is; the closing tag of an element without content is none. -/
def ofSegment? (p : Placeholders) (e : Segment) : Option Bracket :=
  let decoded := (p.take e.raw).1
  match e.kind with
  | .leaf k => some (.leaf (.leaf k decoded e.line))
  | .tag .selfCloses =>
    some (.leaf (.element (Builder.opening p e.raw decoded e.line true) false []))
  | .tag .opens => some (.opens (Builder.opening p e.raw decoded e.line false))
  | .tag .closes =>
    if isVoid (Builder.resolveTag p (Builder.closingName e.raw)) then none else some .closes

/-- The brackets that segments are. A placeholder is resolved by the first segment that has it. -/
def ofSegments : Placeholders → List Segment → List Bracket
  | _, [] => []
  | p, e :: es => (ofSegment? p e).toList ++ ofSegments (p.take e.raw).2 es

/-- Trees in which every opening bracket has its closing one. -/
inductive Forest : List Bracket → List Node → Prop
  | nil : Forest [] []
  | leaf (n : Node) {w : List Bracket} {ns : List Node} (rest : Forest w ns) :
      Forest (.leaf n :: w) (n :: ns)
  | element (head : Opening) {v w : List Bracket} {cs ns : List Node} (inside : Forest v cs)
      (rest : Forest w ns) :
      Forest (.opens head :: v ++ .closes :: w) (.element head true cs :: ns)

/-- Trees up to the end, where an opening bracket without a closing one takes in all that is
behind it. -/
inductive OpenForest : List Bracket → List Node → Prop
  | forest {w : List Bracket} {ns : List Node} (all : Forest w ns) : OpenForest w ns
  | element (head : Opening) {v w : List Bracket} {ns cs : List Node} (before : Forest v ns)
      (inside : OpenForest w cs) :
      OpenForest (v ++ .opens head :: w) (ns ++ [.element head false cs])

/-- A whole document, where closing brackets that nothing is open for are passed over. -/
inductive Document : List Bracket → List Node → Prop
  | last {w : List Bracket} {ns : List Node} (all : OpenForest w ns) : Document w ns
  | stray {v w : List Bracket} {ns ms : List Node} (before : Forest v ns) (rest : Document w ms) :
      Document (v ++ .closes :: w) (ns ++ ms)

/-! ### Reading with a stack -/

/-- The trees of brackets that come after `siblings`, newest first, inside the open elements of
a stack. -/
def nest : (siblings : List Node) → List OpenElement → List Bracket → List Node
  | siblings, stack, [] => (Builder.unwind siblings stack).reverse
  | siblings, stack, .leaf n :: w => nest (n :: siblings) stack w
  | siblings, stack, .opens head :: w => nest [] (⟨head, siblings⟩ :: stack) w
  | siblings, [], .closes :: w => nest siblings [] w
  | siblings, o :: stack, .closes :: w =>
    nest (.element o.head true siblings.reverse :: o.before) stack w

variable {v w : List Bracket} {ns cs siblings : List Node} {stack : List OpenElement}

/-- A forest leaves the stack as it was, and its trees behind the siblings. -/
lemma Forest.nest_append (h : Forest v cs) (siblings : List Node) (stack : List OpenElement)
    (w : List Bracket) :
    nest siblings stack (v ++ w) = nest (cs.reverse ++ siblings) stack w := by
  induction h generalizing siblings stack w with
  | nil => rfl
  | leaf n _ ih =>
    rw [List.cons_append, nest, ih]
    simp
  | @element head v' w' cs' ns' _ _ ihinside ihrest =>
    have hassoc : Bracket.opens head :: v' ++ .closes :: w' ++ w =
        .opens head :: (v' ++ .closes :: (w' ++ w)) := by simp
    rw [hassoc, nest, ihinside, nest, ihrest]
    simp

/-- What is never closed ends with its parents. -/
lemma OpenForest.nest_eq (h : OpenForest w cs) (siblings : List Node)
    (stack : List OpenElement) :
    nest siblings stack w = (Builder.unwind (cs.reverse ++ siblings) stack).reverse := by
  induction h generalizing siblings stack with
  | forest all =>
    have hnest := all.nest_append siblings stack []
    rwa [List.append_nil, nest] at hnest
  | element head before _ ih =>
    rw [before.nest_append, nest, ih, Builder.unwind]
    simp

lemma Document.nest_eq (h : Document w ns) (siblings : List Node) :
    nest siblings [] w = siblings.reverse ++ ns := by
  induction h generalizing siblings with
  | last all =>
    rw [all.nest_eq, Builder.unwind]
    simp
  | stray before _ ih =>
    rw [before.nest_append, nest, ih]
    simp

/-! ### Every row of brackets is a document -/

/-- Brackets are trees up to the end, or trees up to a closing bracket that is none of theirs. -/
lemma openForest_or_closes (w : List Bracket) :
    (∃ ns, OpenForest w ns) ∨ ∃ v ns u, Forest v ns ∧ w = v ++ .closes :: u := by
  match w with
  | [] => exact .inl ⟨[], .forest .nil⟩
  | .closes :: u => exact .inr ⟨[], [], u, .nil, rfl⟩
  | .leaf n :: w =>
    rcases openForest_or_closes w with ⟨ns, hns⟩ | ⟨v, ns, u, hv, rfl⟩
    · cases hns with
      | forest all => exact .inl ⟨_, .forest (.leaf n all)⟩
      | element head before inside => exact .inl ⟨_, .element head (.leaf n before) inside⟩
    · exact .inr ⟨.leaf n :: v, n :: ns, u, .leaf n hv, rfl⟩
  | .opens head :: w =>
    rcases openForest_or_closes w with ⟨cs, hcs⟩ | ⟨v, cs, u, hv, rfl⟩
    · exact .inl ⟨_, .element head .nil hcs⟩
    -- the element is closed, and the question is what stands behind it
    rcases openForest_or_closes u with ⟨ns, hns⟩ | ⟨v', ns, u', hv', rfl⟩
    · cases hns with
      | forest all => exact .inl ⟨_, .forest (.element head hv all)⟩
      | element head' before inside =>
        have := OpenForest.element head' (.element head hv before) inside
        exact .inl ⟨_, by simpa using this⟩
    · exact .inr ⟨_, _, u', .element head hv hv', by simp⟩
termination_by w.length
decreasing_by
  · simp
  · simp
  · simp_all
    omega

lemma exists_document (w : List Bracket) : ∃ ns, Document w ns := by
  rcases openForest_or_closes w with ⟨ns, hns⟩ | ⟨v, ns, u, hv, rfl⟩
  · exact ⟨ns, .last hns⟩
  · obtain ⟨ms, hms⟩ := exists_document u
    exact ⟨ns ++ ms, .stray hv hms⟩
termination_by w.length
decreasing_by
  simp_all
  omega

/-- The grammar gives each row of brackets one document, which is read with a stack. -/
lemma document_iff : Document w ns ↔ ns = nest [] [] w := by
  constructor
  · intro h
    simpa using (h.nest_eq []).symm
  · rintro rfl
    obtain ⟨ms, hms⟩ := exists_document w
    have hnest : nest [] [] w = ms := by simpa using hms.nest_eq []
    rwa [hnest]

end Bracket

/-! ### What the builder builds -/

/-- A closing tag that has a name. -/
def Segment.ClosesByName (e : Segment) : Prop :=
  e.kind = .tag .closes → Builder.closingName e.raw ≠ []

namespace Builder

open HtmlTemplate.Bracket

variable {b : Builder} {e : Segment} {es : List Segment}

/-- One segment takes a tree under construction one bracket further. -/
lemma exists_push (he : e.ClosesByName) : ∃ b', b.push e = .ok b' ∧
    b'.placeholders = (b.placeholders.take e.raw).2 ∧
    ∀ w, nest b'.siblings b'.stack w =
      nest b.siblings b.stack ((ofSegment? b.placeholders e).toList ++ w) := by
  rcases hk : e.kind with role | k
  · cases role with
    | opens =>
      refine ⟨_, push_opens hk, rfl, fun w => ?_⟩
      rw [ofSegment?, hk]
      rfl
    | selfCloses =>
      refine ⟨_, push_selfCloses hk, rfl, fun w => ?_⟩
      rw [ofSegment?, hk]
      rfl
    | closes =>
      rw [push_closes hk, if_neg (he hk)]
      rw [ofSegment?, hk]
      by_cases hvoid : isVoid (resolveTag b.placeholders (closingName e.raw)) = true
      · simp only [hvoid, if_true]
        exact ⟨_, rfl, rfl, fun w => rfl⟩
      · simp only [hvoid]
        obtain ⟨siblings, stack, p⟩ := b
        cases stack with
        | nil => exact ⟨_, rfl, rfl, fun w => rfl⟩
        | cons o stack => exact ⟨_, rfl, rfl, fun w => rfl⟩
  · refine ⟨_, push_leaf hk, rfl, fun w => ?_⟩
    rw [ofSegment?, hk]
    rfl

/-- So does any run of segments. -/
lemma exists_pushAll (hes : ∀ e ∈ es, e.ClosesByName) : ∃ b', b.pushAll es = .ok b' ∧
    b'.forest = nest b.siblings b.stack (ofSegments b.placeholders es) := by
  induction es generalizing b with
  | nil => exact ⟨b, rfl, rfl⟩
  | cons e es ih =>
    obtain ⟨he, hes⟩ := List.forall_mem_cons.1 hes
    obtain ⟨b₁, hpush, hp, hnest⟩ := exists_push (b := b) he
    obtain ⟨b₂, hall, hforest⟩ := ih (b := b₁) hes
    refine ⟨b₂, ?_, ?_⟩
    · rw [pushAll, List.foldlM_cons, hpush]
      exact hall
    · rw [hforest, hnest, hp, ofSegments]

/-- If no segment is refused, it does not matter that those refused would be passed over. -/
lemma pushEach_of_pushAll {b' : Builder} (h : b.pushAll es = .ok b') : b.pushEach es = b' := by
  induction es generalizing b with
  | nil => exact Except.ok.inj h
  | cons e es ih =>
    rw [pushAll, List.foldlM_cons] at h
    rw [pushEach, List.foldl_cons]
    cases he : b.push e with
    | ok b₁ =>
      rw [he] at h
      exact ih h
    | error err =>
      rw [he] at h
      cases h

/-- **The builder reads the grammar of nesting.** Segments whose closing tags all have names are
taken in, and the trees built of them, in one piece or in place, are the one document that the
grammar gives for their brackets. -/
theorem document_iff_forest (p : Placeholders) (es : List Segment)
    (names : ∀ e ∈ es, e.ClosesByName) :
    ∃ b, (ofPlaceholders p).pushAll es = .ok b ∧
      ((Arena.ofPlaceholders p).pushEach es).table = NodeTable.ofForest b.forest ∧
      ∀ ns, Document (ofSegments p es) ns ↔ ns = b.forest := by
  obtain ⟨b, hb, hforest⟩ := exists_pushAll (b := ofPlaceholders p) names
  refine ⟨b, hb, ?_, fun ns => ?_⟩
  · rw [Arena.ofPlaceholders_eq, Arena.pushEach_ofBuilder, pushEach_of_pushAll hb]
    rfl
  · rw [document_iff, hforest]
    rfl

/-- An element closed by another name, the closing tag of an element without content, a stray
closing tag, and an element that is never closed. -/
theorem document_iff_forest_unbalanced :
    let es : List Segment := [⟨"<a>", 1⟩, ⟨"<br>", 1⟩, ⟨"</br>", 1⟩, ⟨"</b>", 1⟩, ⟨"</a>", 1⟩,
      ⟨"<c>", 1⟩, ⟨"t", 1⟩]
    (∀ e ∈ es, e.ClosesByName) ∧ ∃ b, (ofPlaceholders .empty).pushAll es = .ok b ∧
      ((Arena.ofPlaceholders .empty).pushEach es).table = NodeTable.ofForest b.forest ∧
      ∀ ns, Document (ofSegments .empty es) ns ↔ ns = b.forest := by
  intro es
  have names : ∀ e ∈ es, e.ClosesByName := by
    unfold Segment.ClosesByName
    decide
  exact ⟨names, document_iff_forest .empty es names⟩

end Builder

end HtmlTemplate
