import Mathlib.Tactic.MkIffOfInductiveProp
import HtmlTemplate.Proofs.Markup.Visible
import HtmlTemplate.Proofs.Text.Name

/-!
Texts that the passes leave alone.

Where a text is put together of pieces, a pass finds something only within a piece, as long as
the characters between the pieces are none that it looks for. Only the values in quotes are found,
each as a whole.
-/

namespace HtmlTemplate

open Placeholders Text

namespace Span

variable {t w v : Text} {c q : Char}

/-- Nothing is in a text that one of the first three passes hides, or begins to. -/
@[mk_iff]
structure Quiet (t : Text) : Prop where
  backslash : '\\' ∉ t
  token : tokenOpening ∉ t
  braces : ¬ openBraces <:+: t
  raw : ∀ name ∈ rawElements, ¬ '<' :: name <:+: t.map Char.toLower

instance : DecidablePred Quiet := fun t => decidable_of_iff' _ (quiet_iff t)

/-! ### Backslashes -/

lemma hide_backslashes_of_not_mem (h : '\\' ∉ t) (p : Placeholders) :
    p.hide (backslashes t) = (t, p) := by
  have hn : NoBackslash t := fun a d b hab => absurd (by simp [hab]) h
  rw [hide_of_shown (shown_of_noBackslash hn), sources_backslashes]

/-! ### Raw elements -/

lemma hide_rawText_of_noRawElement (h : NoRawElement t) (p : Placeholders) :
    p.hide (rawText t) = (t, p) := by
  rw [hide_of_shown (shown_of_noRawElement h), sources_rawText]

lemma isName_of_mem_rawElements {name : Text} (h : name ∈ rawElements) : isName name = true := by
  simp only [rawElements, List.mem_cons, List.not_mem_nil, or_false] at h
  rcases h with rfl | rfl <;> decide

lemma endsRawName_of_isNameChar (h : isNameChar c = true) : endsRawName c = false := by
  by_contra he
  simp only [endsRawName, Bool.not_eq_false, Bool.or_eq_true, beq_iff_eq] at he
  rcases he with ((((rfl | rfl) | rfl) | rfl) | rfl) | rfl <;> cases h

/-- No raw element begins with a bracket if no name of one, in any case, stands behind it. -/
lemma rawElement?_eq_none (h : ∀ o d u, t = o ++ d :: u → o.map Char.toLower ∈ rawElements →
    endsRawName d = false) : rawElement? ('<' :: t) = none := by
  rw [← Option.not_isSome_iff_eq_none, isSome_rawElement?_iff]
  rintro ⟨name, hname, o, d, x, w, y, ht, ho, hd, -⟩
  obtain ⟨e, o, rfl, -, rfl⟩ := List.map_eq_cons_iff.1 ho
  rw [h o d _ (List.cons.inj ht).2 hname] at hd
  cases hd

lemma not_mem_of_rawElements {o : Text} (ho : o.map Char.toLower ∈ rawElements)
    (hc : isNameChar c.toLower = false) : c ∉ o :=
  fun hm => not_mem_of_isName (isName_of_mem_rawElements ho) hc (List.mem_map_of_mem hm)

lemma NoRawElement.append (ht : NoRawElement t)
    (hw : ∀ a b, w = a ++ '<' :: b → rawElement? ('<' :: (b ++ t)) = none) :
    NoRawElement (w ++ t) := by
  rintro a b hab
  by_contra hb
  rw [← ne_eq, Option.ne_none_iff_isSome] at hb
  obtain ⟨b, rfl⟩ := exists_cons_of_rawElement? hb
  rcases List.append_eq_append_iff.1 hab with ⟨a', rfl, h⟩ | ⟨c', rfl, h⟩
  · simp [ht a' _ h] at hb
  · cases c' with
    | nil => simp [ht [] _ h.symm] at hb
    | cons d c' =>
      obtain ⟨rfl, hb'⟩ := List.cons.inj h
      simp [hb', hw a c' rfl] at hb

lemma NoRawElement.append_of_not_mem (ht : NoRawElement t) (hw : '<' ∉ w) :
    NoRawElement (w ++ t) :=
  ht.append fun a b hab => absurd (by simp [hab]) hw

lemma noRawElement_of_not_mem (h : '<' ∉ t) : NoRawElement t := by
  have hnil : NoRawElement [] := by
    rintro a b hab
    obtain ⟨-, rfl⟩ := List.append_eq_nil_iff.1 hab.symm
    rfl
  simpa using hnil.append_of_not_mem h

/-- No raw element begins within a value. -/
lemma NoRawElement.append_value (ht : NoRawElement t) (hv : Quiet v) (hq : isQuote q = true) :
    NoRawElement (v ++ q :: t) := by
  have hq' : isNameChar q.toLower = false ∧ '<' ≠ q := by
    rcases isQuote_iff.1 hq with rfl | rfl <;> decide
  have hrest : NoRawElement (q :: t) := ht.append_of_not_mem (w := [q]) (by simp [hq'.2])
  refine hrest.append fun a b hab => rawElement?_eq_none fun o d u ho hname => ?_
  -- the quote is not in the name, so all of the name is in the value
  obtain ⟨b', rfl, -⟩ := exists_append_of_not_mem (not_mem_of_rawElements hname hq'.1) ho.symm
  have hfound : '<' :: o <:+: v := ⟨a, b', by simp [hab]⟩
  exact absurd (hfound.map Char.toLower) (hv.raw _ hname)

/-- A tag with another name begins no raw element. -/
lemma NoRawElement.append_name {tag : Text} (ht : NoRawElement (c :: t)) (hopen : '<' ∉ tag)
    (hends : ∀ d ∈ tag, endsRawName d = false) (hraw : tag.map Char.toLower ∉ rawElements)
    (hc : isNameChar c.toLower = false) : NoRawElement ('<' :: (tag ++ c :: t)) := by
  refine ht.append (w := '<' :: tag) fun a b hab => ?_
  have ha : b = tag := by
    cases a with
    | nil => exact (List.cons.inj hab).2.symm
    | cons e a =>
      rw [List.cons_append, List.cons.injEq] at hab
      exact absurd (by simp [hab.2]) hopen
  subst ha
  refine rawElement?_eq_none fun o d u ho hin => ?_
  obtain ⟨b', rfl, hb'⟩ := exists_append_of_not_mem (not_mem_of_rawElements hin hc) ho.symm
  cases b' with
  | nil =>
    rw [List.append_nil] at hraw
    exact absurd hin hraw
  | cons e b' =>
    obtain ⟨rfl, -⟩ := List.cons.inj hb'
    exact hends d (by simp)

/-- Nor does one with a plain name. -/
lemma NoRawElement.append_isName {tag : Text} (ht : NoRawElement (c :: t))
    (hname : isName tag = true) (hraw : tag ∉ rawElements) (hc : isNameChar c.toLower = false) :
    NoRawElement ('<' :: (tag ++ c :: t)) :=
  ht.append_name (not_mem_of_isName hname rfl)
    (fun _ hd => endsRawName_of_isNameChar (isNameChar_of_mem hname hd))
    (by rwa [map_toLower_of_isName hname]) hc

/-- Neither does a closing tag. -/
lemma NoRawElement.append_slash (ht : NoRawElement t) : NoRawElement ('<' :: '/' :: t) := by
  have hslash : NoRawElement ('/' :: t) := ht.append_of_not_mem (w := ['/']) (by decide)
  refine hslash.append (w := ['<']) fun a b hab => rawElement?_eq_none fun o d u ho hname => ?_
  have hb : b = [] := by
    cases a with
    | nil => exact (List.cons.inj hab).2.symm
    | cons e a => simp at hab
  rw [hb, List.nil_append] at ho
  cases o with
  | nil => exact absurd hname (by decide)
  | cons e o =>
    obtain ⟨rfl, -⟩ := List.cons.inj ho
    exact absurd List.mem_cons_self (not_mem_of_rawElements hname (c := '/') rfl)

/-! ### Expressions -/

lemma hide_expressions_of_not_infix (h : ¬ openBraces <:+: t) (p : Placeholders) :
    p.hide (expressions t) = (t, p) := by
  rw [expressions_of_none (Chunk.first?_of_no_braces h)]
  simp [hide]

lemma not_braces_append_cons (hc : c ≠ '{') (hw : ¬ openBraces <:+: w)
    (ht : ¬ openBraces <:+: t) : ¬ openBraces <:+: w ++ c :: t := by
  have hcb : c ∉ openBraces := by
    simp [openBraces, hc]
  rintro ⟨a, b, hab⟩
  rw [List.append_assoc] at hab
  rcases List.append_eq_append_iff.1 hab with ⟨w', rfl, h⟩ | ⟨a', rfl, h⟩
  · obtain ⟨w'', rfl, -⟩ := exists_append_of_not_mem hcb h
    exact hw ⟨a, w'', by simp⟩
  · cases a' with
    | nil => exact hc (List.cons.inj h).1
    | cons d a' => exact ht ⟨a', b, by simp [(List.cons.inj h).2]⟩

lemma not_braces_append (hw : '{' ∉ w) (ht : ¬ openBraces <:+: t) : ¬ openBraces <:+: w ++ t := by
  induction w with
  | nil => exact ht
  | cons c w ih =>
    rw [List.mem_cons, not_or] at hw
    exact not_braces_append_cons (w := []) (Ne.symm hw.1) (by decide) (ih hw.2)

/-! ### Quoted values -/

lemma ne_of_isQuote (hq : isQuote q = true) (hc : isQuote c = false) : c ≠ q := by
  rintro rfl
  rw [hq] at hc
  cases hc

lemma hide_quotedValues_append (hw : '=' ∉ w) (p : Placeholders) (t : Text) :
    p.hide (quotedValues (w ++ t)) =
      (w ++ (p.hide (quotedValues t)).1, (p.hide (quotedValues t)).2) := by
  induction w with
  | nil => rfl
  | cons c w ih =>
    rw [List.mem_cons, not_or] at hw
    rw [List.cons_append, quotedValues_of_ne (Ne.symm hw.1), hide, ih hw.2]
    rfl

/-- A value after an equals sign and white space is hidden, and nothing else up to its closing
quote. -/
lemma hide_quotedValues_value (hw : ∀ c ∈ w, isSpace c = true) (hq : isQuote q = true)
    (hv : q ∉ v) (p : Placeholders) (t : Text) :
    p.hide (quotedValues ('=' :: (w ++ q :: (v ++ q :: t)))) =
      ('=' :: (w ++ q :: (token (p.issued + 1) ++ q :: ((p.insert v).2.hide (quotedValues t)).1)),
        ((p.insert v).2.hide (quotedValues t)).2) := by
  have hvalue : quotedValue? (w ++ q :: (v ++ q :: t)) = some (w, q, v, t) :=
    quotedValue?_eq_some_iff.2 ⟨rfl, hw, hq, hv⟩
  rw [quotedValues_of_some hvalue]
  simp [hide, insertAll]

end Span

end HtmlTemplate
