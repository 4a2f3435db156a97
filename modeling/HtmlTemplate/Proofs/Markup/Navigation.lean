import HtmlTemplate.Proofs.Markup.Numbering

/-!
Going from a node to its neighbours. In a table that agrees with itself, going forth and going
back are read off the parents and positions of two rows, so each undoes the other.
-/

namespace HtmlTemplate

namespace NodeTable

variable {t : NodeTable} {i j : Nat}

/-- The second node stands right behind the first. -/
def Adjacent (t : NodeTable) (i j : Nat) : Prop :=
  ∃ r s, t.row? i = some r ∧ t.row? j = some s ∧ s.parent = r.parent ∧ s.index = r.index + 1

/-- The second node stands behind the first, with no element between them. -/
def Apart (t : NodeTable) (i j : Nat) : Prop :=
  ∃ r s, t.row? i = some r ∧ t.row? j = some s ∧ s.parent = r.parent ∧ r.index < s.index ∧
    ∀ k id, r.index < k → k < s.index → (t.siblings r)[k]? = some id → t.isElement id = false

/-- What holds of a table that can be walked through: no step leaves it, and a step back undoes
a step forth. -/
structure Navigable (t : NodeTable) : Prop where
  /-- every number in a list is that of a row -/
  inside : ∀ {parent id}, id ∈ t.under parent → id < t.rows.length
  /-- the position a row tells is one of the list it stands in -/
  position : ∀ {id r}, t.row? id = some r → r.index < (t.siblings r).length
  nodes : ∀ i j, t.next? i = some j ↔ t.prev? j = some i
  elements : ∀ i j, t.isElement i = true → t.isElement j = true →
    (t.nextElement? i = some j ↔ t.prevElement? j = some i)

/-- What is found first behind a position. -/
lemma find?_drop_eq_some_iff {l : List Nat} {f : Nat → Bool} {a x : Nat} :
    (l.drop a).find? f = some x ↔ f x = true ∧ ∃ k, a ≤ k ∧ l[k]? = some x ∧
      ∀ m y, a ≤ m → m < k → l[m]? = some y → f y = false := by
  rw [List.find?_eq_some_iff_getElem]
  refine and_congr_right fun _ => ⟨?_, ?_⟩
  · rintro ⟨k, hk, rfl, hbefore⟩
    rw [List.length_drop] at hk
    refine ⟨a + k, by omega, by rw [List.getElem_drop, List.getElem?_eq_getElem], ?_⟩
    intro m y hm hlt hy
    have := hbefore (m - a) (by omega)
    obtain ⟨hm', rfl⟩ := List.getElem?_eq_some_iff.1 hy
    simpa [Nat.add_sub_cancel' hm] using this
  · rintro ⟨k, hk, hx, hbefore⟩
    obtain ⟨hlt, rfl⟩ := List.getElem?_eq_some_iff.1 hx
    refine ⟨k - a, by rw [List.length_drop]; omega, by simp [Nat.add_sub_cancel' hk], ?_⟩
    intro m hm
    have := hbefore (a + m) l[a + m] (by omega) (by omega) (List.getElem?_eq_getElem _)
    simpa using this

/-- What is found last before a position. -/
lemma find?_reverse_take_eq_some_iff {l : List Nat} {f : Nat → Bool} {a x : Nat}
    (ha : a ≤ l.length) : (l.take a).reverse.find? f = some x ↔
      f x = true ∧ ∃ k, k < a ∧ l[k]? = some x ∧
        ∀ m y, k < m → m < a → l[m]? = some y → f y = false := by
  have hlen : (l.take a).reverse.length = a := by
    rw [List.length_reverse, List.length_take, Nat.min_eq_left ha]
  rw [List.find?_eq_some_iff_getElem]
  refine and_congr_right fun _ => ⟨?_, ?_⟩
  · rintro ⟨k, hk, rfl, hbefore⟩
    rw [hlen] at hk
    refine ⟨a - 1 - k, by omega, ?_, ?_⟩
    · rw [List.getElem_reverse, List.getElem_take, ← List.getElem?_eq_getElem]
      rw [List.length_take, Nat.min_eq_left ha]
    · intro m y hm hlt hy
      have := hbefore (a - 1 - m) (by omega)
      obtain ⟨hm', rfl⟩ := List.getElem?_eq_some_iff.1 hy
      simpa [Nat.min_eq_left ha, show a - 1 - (a - 1 - m) = m by omega] using this
  · rintro ⟨k, hk, hx, hbefore⟩
    obtain ⟨hlt, rfl⟩ := List.getElem?_eq_some_iff.1 hx
    refine ⟨a - 1 - k, by omega, ?_, ?_⟩
    · simp [Nat.min_eq_left ha, show a - 1 - (a - 1 - k) = k by omega]
    · intro m hm
      have := hbefore (a - 1 - m) l[a - 1 - m] (by omega) (by omega) (List.getElem?_eq_getElem _)
      simpa [Nat.min_eq_left ha] using this

namespace WellFormed

lemma next?_eq_some_iff (h : t.WellFormed) : t.next? i = some j ↔ t.Adjacent i j := by
  unfold next? Adjacent
  constructor
  · intro hnext
    obtain ⟨r, hr, hj⟩ := Option.bind_eq_some_iff.1 hnext
    obtain ⟨s, hs, hp, hi⟩ := h.listed hj
    exact ⟨r, s, hr, hs, hp, hi⟩
  · rintro ⟨r, s, hr, hs, hp, hi⟩
    have hj := h.placed hs
    rw [siblings, hp, hi] at hj
    exact Option.bind_eq_some_iff.2 ⟨r, hr, hj⟩

lemma prev?_eq_some_iff (h : t.WellFormed) : t.prev? j = some i ↔ t.Adjacent i j := by
  unfold prev? Adjacent
  constructor
  · intro hprev
    obtain ⟨s, hs, hi⟩ := Option.bind_eq_some_iff.1 hprev
    rw [ite_eq_iff] at hi
    obtain ⟨-, hi⟩ | ⟨hpos, hi⟩ := hi
    · cases hi
    · obtain ⟨r, hr, hp, hidx⟩ := h.listed hi
      exact ⟨r, s, hr, hs, hp.symm, by omega⟩
  · rintro ⟨r, s, hr, hs, hp, hidx⟩
    have hi := h.placed hr
    refine Option.bind_eq_some_iff.2 ⟨s, hs, ?_⟩
    rw [if_neg (by omega), hidx, Nat.add_sub_cancel, siblings, hp]
    exact hi

lemma index_lt (h : t.WellFormed) {r : Row} (hr : t.row? i = some r) :
    r.index < (t.siblings r).length :=
  (List.getElem?_eq_some_iff.1 (h.placed hr)).1

lemma nextElement?_eq_some_iff (h : t.WellFormed) :
    t.nextElement? i = some j ↔ t.isElement j = true ∧ t.Apart i j := by
  unfold nextElement? Apart
  constructor
  · intro hnext
    obtain ⟨r, hr, hj⟩ := Option.bind_eq_some_iff.1 hnext
    obtain ⟨helement, k, hk, hj, hbetween⟩ := find?_drop_eq_some_iff.1 hj
    obtain ⟨s, hs, hp, rfl⟩ := h.listed hj
    exact ⟨helement, r, s, hr, hs, hp, hk, hbetween⟩
  · rintro ⟨helement, r, s, hr, hs, hp, hlt, hbetween⟩
    have hj := h.placed hs
    rw [siblings, hp] at hj
    refine Option.bind_eq_some_iff.2 ⟨r, hr, ?_⟩
    exact find?_drop_eq_some_iff.2 ⟨helement, s.index, hlt, hj, hbetween⟩

lemma prevElement?_eq_some_iff (h : t.WellFormed) :
    t.prevElement? j = some i ↔ t.isElement i = true ∧ t.Apart i j := by
  unfold prevElement? Apart
  constructor
  · intro hprev
    obtain ⟨s, hs, hi⟩ := Option.bind_eq_some_iff.1 hprev
    have hle := Nat.le_of_lt (h.index_lt hs)
    obtain ⟨helement, k, hk, hi, hbetween⟩ := (find?_reverse_take_eq_some_iff hle).1 hi
    obtain ⟨r, hr, hp, rfl⟩ := h.listed hi
    refine ⟨helement, r, s, hr, hs, hp.symm, hk, ?_⟩
    rw [siblings, hp]
    exact hbetween
  · rintro ⟨helement, r, s, hr, hs, hp, hlt, hbetween⟩
    have hi := h.placed hr
    have hle := Nat.le_of_lt (h.index_lt hs)
    rw [siblings, ← hp] at hi hbetween
    refine Option.bind_eq_some_iff.2 ⟨s, hs, ?_⟩
    exact (find?_reverse_take_eq_some_iff hle).2 ⟨helement, r.index, hlt, hi, hbetween⟩

/-- **A table that agrees with itself can be walked through.** -/
theorem navigable (h : t.WellFormed) : t.Navigable where
  inside := by
    intro parent id hid
    obtain ⟨k, hk⟩ := List.mem_iff_getElem?.1 hid
    obtain ⟨r, hr, -⟩ := h.listed hk
    exact lt_of_row? hr
  position := h.index_lt
  nodes := fun i j => h.next?_eq_some_iff.trans h.prev?_eq_some_iff.symm
  elements := by
    intro i j hi hj
    rw [h.nextElement?_eq_some_iff, h.prevElement?_eq_some_iff, hi, hj]

end WellFormed

end NodeTable

end HtmlTemplate
