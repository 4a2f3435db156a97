import HtmlTemplate.Proofs.Text.Trim

/-!
The words of a text, and the text put together again with single blanks between them.

A text squeezed like this is written from the left: white space at the front is left out, any other
character stays, and what comes next is squeezed behind a seam, which keeps the rest of the word and
has a blank before the next one.
-/

namespace HtmlTemplate.Text

variable {c : Char} {t u w : Text}

/-- The part of a text before the first white space. -/
def front (t : Text) : Text := t.takeWhile fun c => !isSpace c

/-- The part from there on. -/
def behind (t : Text) : Text := t.dropWhile fun c => !isSpace c

lemma front_append_behind (t : Text) : front t ++ behind t = t := List.takeWhile_append_dropWhile

lemma isSpace_of_mem_front (h : c ∈ front t) : isSpace c = false := by
  simpa using List.mem_takeWhile_imp h

lemma front_cons (hc : isSpace c = false) (t : Text) : front (c :: t) = c :: front t :=
  List.takeWhile_cons_of_pos (by simp [hc])

lemma front_cons_space (hc : isSpace c = true) (t : Text) : front (c :: t) = [] :=
  List.takeWhile_cons_of_neg (by simp [hc])

lemma behind_cons (hc : isSpace c = false) (t : Text) : behind (c :: t) = behind t :=
  List.dropWhile_cons_of_pos (by simp [hc])

lemma behind_cons_space (hc : isSpace c = true) (t : Text) : behind (c :: t) = c :: t :=
  List.dropWhile_cons_of_neg (by simp [hc])

/-! ### Words -/

lemma splitAt_of_forall {q : Char → Bool} (h : ∀ c ∈ t, q c = false) : splitAt q t = [t] := by
  induction t with
  | nil => rfl
  | cons c t ih =>
    obtain ⟨hc, ht⟩ := List.forall_mem_cons.1 h
    have hrest := ih ht
    rw [splitAt] at hrest
    rw [splitAt, List.foldr_cons, hrest, if_neg (by simp [hc])]

lemma splitAt_cons_space (hc : isSpace c = true) (t : Text) :
    splitAt isSpace (c :: t) = [] :: splitAt isSpace t := by
  rw [splitAt, List.foldr_cons, if_pos hc, splitAt]

lemma exists_splitAt (t : Text) : ∃ ws, splitAt isSpace t = front t :: ws ∧
    words (behind t) = ws.filter (· ≠ []) := by
  induction t with
  | nil => exact ⟨[], rfl, rfl⟩
  | cons c t ih =>
    cases hc : isSpace c with
    | true =>
      refine ⟨splitAt isSpace t, ?_, ?_⟩
      · rw [splitAt_cons_space hc, front_cons_space hc]
      · rw [behind_cons_space hc, words, splitAt_cons_space hc, List.filter_cons_of_neg (by simp)]
    | false =>
      obtain ⟨ws, hsplit, hwords⟩ := ih
      refine ⟨ws, ?_, ?_⟩
      · rw [splitAt] at hsplit
        rw [splitAt, List.foldr_cons, hsplit, front_cons hc, if_neg (by simp [hc])]
      · rw [behind_cons hc, hwords]

lemma words_cons_space (hc : isSpace c = true) (t : Text) : words (c :: t) = words t := by
  rw [words, splitAt_cons_space hc, List.filter_cons_of_neg (by simp), words]

/-- The first word, and those behind it. -/
lemma words_cons (hc : isSpace c = false) (t : Text) :
    words (c :: t) = (c :: front t) :: words (behind t) := by
  obtain ⟨ws, hsplit, hwords⟩ := exists_splitAt (c :: t)
  rw [words, hsplit, front_cons hc, List.filter_cons_of_pos (by simp), ← behind_cons hc, hwords]

lemma words_eq_nil_iff : words t = [] ↔ isBlank t = true := by
  induction t with
  | nil => exact ⟨fun _ => rfl, fun _ => rfl⟩
  | cons c t ih =>
    cases hc : isSpace c with
    | true => rw [words_cons_space hc, ih, isBlank, isBlank, List.all_cons, hc, Bool.true_and]
    | false =>
      rw [words_cons hc, isBlank, List.all_cons, hc, Bool.false_and]
      simp

/-- A word with a blank behind it. -/
lemma words_append (hne : w ≠ []) (hw : ∀ c ∈ w, isSpace c = false) (t : Text) :
    words (w ++ ' ' :: t) = w :: words t := by
  obtain ⟨c, w, rfl⟩ := List.exists_cons_of_ne_nil hne
  obtain ⟨hc, hw⟩ := List.forall_mem_cons.1 hw
  have hstays : ∀ d ∈ w, (!isSpace d) = true := fun d hd => by rw [hw d hd]; rfl
  rw [List.cons_append, words_cons hc, front, takeWhile_append_cons hstays rfl, behind,
    dropWhile_append_cons hstays rfl, words_cons_space rfl]

/-! ### Single blanks -/

/-- The words of a text with single blanks between them. -/
def squeeze (t : Text) : Text := joinWith [' '] (words t)

/-- What stands behind a character of a word in a squeezed text. -/
def seam (t : Text) : Text :=
  front t ++ if isBlank (behind t) then [] else ' ' :: squeeze (behind t)

lemma squeeze_cons_space (hc : isSpace c = true) (t : Text) : squeeze (c :: t) = squeeze t := by
  rw [squeeze, words_cons_space hc, squeeze]

lemma squeeze_cons (hc : isSpace c = false) (t : Text) : squeeze (c :: t) = c :: seam t := by
  rw [squeeze, words_cons hc, seam]
  cases hwords : words (behind t) with
  | nil => simp [words_eq_nil_iff.1 hwords, joinWith]
  | cons v vs =>
    have hblank : ¬ isBlank (behind t) = true := by
      rw [← words_eq_nil_iff, hwords]
      exact List.cons_ne_nil v vs
    rw [if_neg hblank, squeeze, hwords, joinWith, List.intercalate_cons_cons]
    simp [joinWith]

lemma seam_cons (hc : isSpace c = false) (t : Text) : seam (c :: t) = c :: seam t := by
  rw [seam, front_cons hc, behind_cons hc, seam, List.cons_append]

lemma seam_cons_space (hc : isSpace c = true) (t : Text) :
    seam (c :: t) = if isBlank t then [] else ' ' :: squeeze t := by
  rw [seam, front_cons_space hc, behind_cons_space hc, squeeze_cons_space hc, isBlank,
    List.all_cons, hc, Bool.true_and, List.nil_append, isBlank]

/-- The seam keeps the rest of a word. -/
lemma front_seam (t : Text) : front (seam t) = front t := by
  have hfront : ∀ c ∈ front t, (!isSpace c) = true := fun c hc => by
    rw [isSpace_of_mem_front hc]
    rfl
  rw [seam]
  split
  · rw [List.append_nil]
    exact List.takeWhile_eq_self_iff.2 hfront
  · exact takeWhile_append_cons hfront rfl

/-- Behind a word that ends here comes a blank, or nothing changes. -/
lemma seam_eq (t : Text) : seam t = squeeze t ∨ seam t = ' ' :: squeeze t := by
  cases t with
  | nil => exact .inl rfl
  | cons c t =>
    cases hc : isSpace c with
    | true =>
      rw [seam_cons_space hc, squeeze_cons_space hc]
      split
      · next hblank => exact .inl (by rw [squeeze, words_eq_nil_iff.2 hblank]; rfl)
      · exact .inr rfl
    | false => exact .inl (by rw [seam_cons hc, squeeze_cons hc])

lemma seam_of_forall (ht : ∀ c ∈ t, isSpace c = false) : seam t = t := by
  induction t with
  | nil => rfl
  | cons c t ih =>
    obtain ⟨hc, ht⟩ := List.forall_mem_cons.1 ht
    rw [seam_cons hc, ih ht]

/-- Two texts that meet behind a word are squeezed one by one. -/
lemma squeeze_append (ht : ∀ c ∈ t.getLast?, isSpace c = false) (u : Text) :
    seam (t ++ u) = seam t ++ seam u ∧ (t ≠ [] → squeeze (t ++ u) = squeeze t ++ seam u) := by
  induction t with
  | nil => exact ⟨rfl, fun hne => absurd rfl hne⟩
  | cons c t ih =>
    cases hc : isSpace c with
    | false =>
      have hrest := (ih fun d hd => ht d (by rw [List.getLast?_cons, hd]; simp)).1
      rw [List.cons_append, seam_cons hc, squeeze_cons hc, seam_cons hc, squeeze_cons hc, hrest]
      exact ⟨rfl, fun _ => rfl⟩
    | true =>
      have hne : t ≠ [] := by
        rintro rfl
        rw [ht c rfl] at hc
        cases hc
      have hlast := List.getLast?_eq_some_getLast hne
      have hword : isSpace (t.getLast hne) = false :=
        ht _ (by rw [List.getLast?_cons, hlast]; rfl)
      -- a word follows, so the white space becomes one blank with and without `u`
      have hblank (v : Text) : ¬ isBlank (t ++ v) = true := fun hall => by
        rw [isBlank_iff.1 hall _ (List.mem_append_left _ (List.getLast_mem hne))] at hword
        cases hword
      have hrest := (ih fun d hd => ht d (by rw [List.getLast?_cons, hd]; simp)).2 hne
      rw [List.cons_append, seam_cons_space hc, seam_cons_space hc, if_neg (hblank u),
        if_neg (by simpa using hblank []), squeeze_cons_space hc, squeeze_cons_space hc, hrest]
      exact ⟨rfl, fun _ => rfl⟩

lemma squeeze_ne_nil (h : isBlank t = false) : squeeze t ≠ [] := by
  induction t with
  | nil => cases h
  | cons c t ih =>
    cases hc : isSpace c with
    | true =>
      rw [isBlank, List.all_cons, hc, Bool.true_and] at h
      rw [squeeze_cons_space hc]
      exact ih h
    | false =>
      rw [squeeze_cons hc]
      exact List.cons_ne_nil c _

lemma squeeze_trimStart (t : Text) : squeeze (trimStart t) = squeeze t := by
  induction t with
  | nil => rfl
  | cons c t ih =>
    cases hc : isSpace c with
    | true => rw [trimStart, List.dropWhile_cons_of_pos hc, ← trimStart, ih, squeeze_cons_space hc]
    | false => rw [trimStart_cons hc]

/-- A single word is the text without the white space around it. -/
lemma squeeze_eq_trim (h : ∀ c ∈ squeeze t, isSpace c = false) : squeeze t = trim t := by
  rw [← squeeze_trimStart] at h ⊢
  rw [trim]
  have hfirst := List.head?_dropWhile_not isSpace t
  rw [← trimStart] at hfirst
  cases hstart : trimStart t with
  | nil => rfl
  | cons c u =>
    rw [hstart] at h hfirst
    have hc : isSpace c = false := by simpa using hfirst
    rw [squeeze_cons hc, seam] at h ⊢
    have hblank : isBlank (behind u) = true := by
      by_contra hword
      rw [if_neg hword] at h
      exact absurd (h ' ' (by simp)) (by decide)
    have hword : ∀ d ∈ c :: front u, isSpace d = false :=
      List.forall_mem_cons.2 ⟨hc, fun _ => isSpace_of_mem_front⟩
    calc c :: (front u ++ if isBlank (behind u) then [] else ' ' :: squeeze (behind u))
      _ = c :: front u := by rw [if_pos hblank, List.append_nil]
      _ = (c :: front u) ++ dropEndWhile isSpace (behind u) := by
        rw [dropEndWhile_eq_nil_iff.2 (isBlank_iff.1 hblank), List.append_nil]
      _ = dropEndWhile isSpace (c :: front u ++ behind u) :=
        (dropEndWhile_append (fun d hd => hword d (List.mem_of_mem_getLast? hd)) _).symm
      _ = dropEndWhile isSpace (c :: u) := by rw [List.cons_append, front_append_behind]

end HtmlTemplate.Text
