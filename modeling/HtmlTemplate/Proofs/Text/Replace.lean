import HtmlTemplate.Proofs.Text.Ends

/-!
Replacing in a text. An occurrence at the front becomes the new text and replacing goes on behind
it; what does not occur is not replaced.
-/

namespace HtmlTemplate.Text

variable {old new t : Text}

/-- What is written so far stays in front. -/
lemma replaceFrom_eq (old new : Text) (skip : Nat) (written t : Text) :
    replaceFrom old new skip written t = written.reverse ++ replaceFrom old new skip [] t := by
  induction t generalizing skip written with
  | nil => simp [replaceFrom]
  | cons c t ih =>
    cases skip with
    | zero =>
      unfold replaceFrom
      split
      · rw [ih _ (new.reverse ++ written), ih _ (new.reverse ++ [])]
        simp
      · rw [ih _ (c :: written), ih _ [c]]
        simp
    | succ skip => exact ih skip written

lemma replaceFrom_length (s t : Text) :
    replaceFrom old new s.length [] (s ++ t) = replaceFrom old new 0 [] t := by
  induction s with
  | nil => rfl
  | cons c s ih => exact ih

@[simp] lemma replace_nil : replace old new [] = [] := rfl

/-- An occurrence at the front is replaced. -/
lemma replace_append (ho : old ≠ []) (new t : Text) :
    replace old new (old ++ t) = new ++ replace old new t := by
  obtain ⟨c, s, rfl⟩ := List.exists_cons_of_ne_nil ho
  have hfront : startsWith (c :: (s ++ t)) (c :: s) = true := startsWith_iff.2 ⟨t, rfl⟩
  rw [replace, List.cons_append, replaceFrom, if_pos hfront, replaceFrom_eq, List.length_cons,
    Nat.add_sub_cancel, replaceFrom_length]
  simp [replace]

/-- A character with which no occurrence begins is kept. -/
lemma replace_cons {c : Char} (h : ¬ old <+: c :: t) :
    replace old new (c :: t) = c :: replace old new t := by
  rw [replace, replaceFrom, if_neg (by simpa [startsWith_iff] using h), replaceFrom_eq]
  rfl

lemma replace_of_not_infix (h : ¬ old <:+: t) : replace old new t = t := by
  induction t with
  | nil => rfl
  | cons c t ih =>
    rw [replace_cons fun hp => h hp.isInfix, ih fun hi => h (List.infix_cons hi)]

/-- An occurrence at the front, or a character with which none begins: these are the steps. -/
@[elab_as_elim]
theorem replace_induction {P : Text → Prop} (ho : old ≠ []) (nil : P [])
    (found : ∀ t, P t → P (old ++ t)) (kept : ∀ c t, ¬ old <+: c :: t → P t → P (c :: t))
    (t : Text) : P t := by
  induction hn : t.length using Nat.strong_induction_on generalizing t with
  | _ n ih =>
    subst hn
    by_cases hp : old <+: t
    · obtain ⟨u, rfl⟩ := hp
      have hpos := List.length_pos_iff.2 ho
      exact found u (ih _ (by rw [List.length_append]; omega) u rfl)
    · cases t with
      | nil => exact nil
      | cons c t => exact kept c t hp (ih _ (by simp) t rfl)

/-- Characters of a kind that neither text has stay as they are. -/
lemma filter_replace {q : Char → Bool} (ho : old ≠ []) (hold : old.filter q = [])
    (hnew : new.filter q = []) (t : Text) : (replace old new t).filter q = t.filter q := by
  induction t using replace_induction ho with
  | nil => rfl
  | found t ih => rw [replace_append ho, List.filter_append, List.filter_append, hold, hnew, ih]
  | kept c t h ih => rw [replace_cons h, List.filter_cons, List.filter_cons, ih]

lemma length_replace_le (ho : old ≠ []) (hle : new.length ≤ old.length) (t : Text) :
    (replace old new t).length ≤ t.length := by
  induction t using replace_induction ho with
  | nil => exact Nat.le_refl _
  | found t ih =>
    rw [replace_append ho, List.length_append, List.length_append]
    omega
  | kept c t hp ih =>
    rw [replace_cons hp]
    exact Nat.succ_le_succ ih

/-- With a shorter text in place of one that occurs, a text gets shorter. -/
lemma length_replace_lt (hlt : new.length < old.length) (h : old <:+: t) :
    (replace old new t).length < t.length := by
  have ho : old ≠ [] := by
    rintro rfl
    cases hlt
  induction t using replace_induction ho with
  | nil => exact absurd (List.eq_nil_of_infix_nil h) ho
  | found t _ =>
    have hrest := length_replace_le ho hlt.le t
    rw [replace_append ho, List.length_append, List.length_append]
    omega
  | kept c t hp ih =>
    rw [replace_cons hp]
    exact Nat.succ_lt_succ (ih ((List.infix_cons_iff.1 h).resolve_left hp))

/-- No occurrence begins in a front without its first character. -/
lemma infix_append_iff_of_not_mem {c : Char} {o w : Text} (hw : c ∉ w) (t : Text) :
    c :: o <:+: w ++ t ↔ c :: o <:+: t := by
  induction w with
  | nil => rfl
  | cons d w ih =>
    rw [List.mem_cons, not_or] at hw
    rw [List.cons_append, List.infix_cons_iff, ih hw.2, or_iff_right]
    exact fun h => hw.1 (List.cons_prefix_cons.1 h).1

/-- What stands behind a front in which no occurrence begins is replaced by itself. -/
lemma replace_append_left {c : Char} {o w : Text} (hw : c ∉ w) (new t : Text) :
    replace (c :: o) new (w ++ t) = w ++ replace (c :: o) new t := by
  induction w with
  | nil => rfl
  | cons d w ih =>
    rw [List.mem_cons, not_or] at hw
    rw [List.cons_append, List.cons_append, replace_cons, ih hw.2]
    rintro ⟨u, hu⟩
    exact hw.1 (List.cons.inj hu).1

/-- An occurrence that does not end in `w` begins and ends before it. -/
lemma prefix_of_prefix_append {d : Char} {o w : Text} (hw : d ∉ w) (h : o ++ [d] <+: t ++ w) :
    o ++ [d] <+: t := by
  obtain ⟨u, hu⟩ := h
  rcases List.append_eq_append_iff.1 hu with ⟨v, ht, -⟩ | ⟨v, hov, hw'⟩
  · exact ⟨v, ht.symm⟩
  · rcases List.eq_nil_or_concat v with rfl | ⟨v', e, rfl⟩
    · exact ⟨[], by simpa using hov⟩
    · have he : d = e := by simpa using congrArg List.getLast? hov
      exact absurd (by simp [hw', he]) hw

/-- So is what stands before an end in which none ends. -/
lemma replace_append_right {d : Char} {o w : Text} (hw : d ∉ w) (new t : Text) :
    replace (o ++ [d]) new (t ++ w) = replace (o ++ [d]) new t ++ w := by
  have ho : o ++ [d] ≠ [] := by simp
  induction t using replace_induction ho with
  | nil =>
    rw [List.nil_append, replace_nil, List.nil_append]
    exact replace_of_not_infix fun h => hw (h.subset (by simp))
  | found t ih =>
    rw [List.append_assoc, replace_append ho, ih, replace_append ho, List.append_assoc]
  | kept c t hp ih =>
    rw [List.cons_append, replace_cons, ih, replace_cons hp, List.cons_append]
    exact fun h => hp (prefix_of_prefix_append (t := c :: t) hw h)

/-! ### The first occurrence -/

lemma replaceFirst_of_not_infix (h : ¬ old <:+: t) : replaceFirst old new t = t := by
  unfold replaceFirst
  cases hc : cut? old t with
  | none => rfl
  | some ab => exact absurd ⟨ab.1, ab.2, append_cut? hc⟩ h

lemma filter_replaceFirst {q : Char → Bool} (hold : old.filter q = []) (hnew : new.filter q = [])
    (t : Text) : (replaceFirst old new t).filter q = t.filter q := by
  unfold replaceFirst
  split
  · next a b h => rw [← append_cut? h]; simp [hold, hnew]
  · rfl

lemma cut?_append_left {c : Char} {o w : Text} (hw : c ∉ w) (t : Text) :
    cut? (c :: o) (w ++ t) = (cut? (c :: o) t).map fun (a, b) => (w ++ a, b) := by
  induction w with
  | nil => simp
  | cons d w ih =>
    rw [List.mem_cons, not_or] at hw
    have hd : after? (c :: o) (d :: (w ++ t)) = none := if_neg hw.1
    rw [List.cons_append, cut?_cons, hd, ih hw.2]
    cases cut? (c :: o) t <;> simp

lemma cut?_append_right {d : Char} {o w : Text} (hw : d ∉ w) (t : Text) :
    cut? (o ++ [d]) (t ++ w) = (cut? (o ++ [d]) t).map fun (a, b) => (a, b ++ w) := by
  cases hc : cut? (o ++ [d]) t with
  | some ab =>
    obtain ⟨a, b⟩ := ab
    obtain ⟨rfl, hfirst⟩ := cut?_eq_some_iff.1 hc
    exact cut?_eq_some_iff.2 ⟨by simp, hfirst⟩
  | none =>
    cases hcw : cut? (o ++ [d]) (t ++ w) with
    | none => rfl
    | some ab =>
      obtain ⟨a, b⟩ := ab
      have hprefix : (a ++ o) ++ [d] <+: t ++ w := ⟨b, by
        rw [← append_cut? hcw]
        simp⟩
      have hinfix : o ++ [d] <:+: t := by
        obtain ⟨u, hu⟩ := prefix_of_prefix_append hw hprefix
        exact ⟨a, u, by rw [← hu]; simp⟩
      have hsome := isSome_cut? hinfix
      rw [hc] at hsome
      cases hsome

/-- Only what lies between two texts is replaced, if the first has no character that an occurrence
begins with, and the second none that one ends with. -/
lemma replaceFirst_between {c d : Char} {o a b : Text} (ha : c ∉ a) (hb : d ∉ b) (new t : Text) :
    replaceFirst (c :: o ++ [d]) new (a ++ t ++ b) =
      a ++ replaceFirst (c :: o ++ [d]) new t ++ b := by
  unfold replaceFirst
  rw [cut?_append_right hb, List.cons_append, cut?_append_left ha]
  cases cut? (c :: (o ++ [d])) t with
  | none => rfl
  | some xy => simp

lemma replace_between {c d : Char} {o a b : Text} (ha : c ∉ a) (hb : d ∉ b) (new t : Text) :
    replace (c :: o ++ [d]) new (a ++ t ++ b) = a ++ replace (c :: o ++ [d]) new t ++ b := by
  rw [replace_append_right hb, List.cons_append, replace_append_left ha]

/-! ### A character -/

/-- A character is replaced wherever it stands. -/
lemma replace_singleton (c : Char) (new t : Text) :
    replace [c] new t = t.flatMap fun d => if d = c then new else [d] := by
  induction t with
  | nil => rfl
  | cons d t ih =>
    rw [List.flatMap_cons, ← ih]
    split
    · next hd =>
      subst hd
      exact replace_append (List.cons_ne_nil _ _) new t
    · next hd =>
      refine replace_cons fun hp => hd ?_
      obtain ⟨u, hu⟩ := hp
      exact (List.cons.inj hu).1.symm

end HtmlTemplate.Text
