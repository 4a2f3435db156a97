import HtmlTemplate.Proofs.Markup.Item

/-!
Opening tags as people write them.

Attributes may stand in rows, with white space around their equals signs and with either kind of
quotes. Each pass over such a tag is followed piece by piece, as for printed markup: only the values
are hidden, the scanner takes the tag for one segment, and the readers of tags find the name, the
names of the attributes and a token for each value.
-/

namespace HtmlTemplate

open Placeholders Attributes HtmlTemplate.Span Text

/-- White space between the parts of a tag. -/
def isGap (c : Char) : Bool := c == ' ' || c == '\t' || c == '\r' || c == '\n'

/-- The characters that names in a tag are written with; letters, digits and hyphens are some. -/
def isBare (c : Char) : Bool :=
  !isSpace c && c != tokenOpening && c ∉ ['=', '<', '>', '/', '"', '\'', '\\', '{']

/-- To decide something about the characters of a text, only these are looked at. -/
def decidableAll (t : Text) (p : Char → Bool) : Decidable (∀ c ∈ t, p c = true) :=
  decidable_of_iff (t.all p = true) List.all_eq_true

lemma not_mem_rawElements_iff {t : Text} :
    t ∉ rawElements ↔ rawElements.all (fun name => name != t) = true := by
  rw [List.all_eq_true]
  exact ⟨fun h name hname => bne_iff_ne.2 (ne_of_mem_of_not_mem hname h),
    fun h ht => bne_iff_ne.1 (h t ht) rfl⟩

/-- An attribute with the white space in front of it and around its equals sign. -/
structure WrittenAttribute where
  before : Text
  name : Text
  beforeSign : Text
  afterSign : Text
  mark : Char
  value : Text

namespace WrittenAttribute

/-- An attribute up to its value. -/
def front (a : WrittenAttribute) : Text :=
  a.before ++ (a.name ++ (a.beforeSign ++ '=' :: (a.afterSign ++ [a.mark])))

def text (a : WrittenAttribute) : Text := a.front ++ (a.value ++ [a.mark])

/-- An attribute that nothing but its own quote ends. -/
@[mk_iff]
structure WellFormed (a : WrittenAttribute) : Prop where
  apart : a.before ≠ []
  gaps : ∀ c ∈ a.before ++ a.beforeSign ++ a.afterSign, isGap c = true
  named : a.name ≠ []
  name : ∀ c ∈ a.name, isBare c = true
  mark : isQuote a.mark = true
  value : Quiet a.value
  inside : a.mark ∉ a.value

instance : DecidablePred WellFormed := fun a =>
  have := decidableAll
  decidable_of_iff' _ (wellFormed_iff a)

end WrittenAttribute

/-- An opening tag, with the white space before its end. -/
structure WrittenTag where
  name : Text
  attributes : List WrittenAttribute
  space : Text
  slash : Bool

namespace WrittenTag

/-- The end of a tag. -/
def close (tag : WrittenTag) : Text := tag.space ++ if tag.slash then ['/', '>'] else ['>']

def text (tag : WrittenTag) : Text :=
  '<' :: (tag.name ++ (tag.attributes.flatMap WrittenAttribute.text ++ tag.close))

/-- A tag that begins with a letter and is not one of an element whose content is no markup. -/
@[mk_iff]
structure WellFormed (tag : WrittenTag) : Prop where
  letter : tag.name.head?.any Char.isAlpha = true
  name : ∀ c ∈ tag.name, isBare c = true
  notRaw : tag.name.lowerAscii ∉ rawElements
  attributes : ∀ a ∈ tag.attributes, a.WellFormed
  space : ∀ c ∈ tag.space, isGap c = true

instance : DecidablePred WellFormed := fun tag =>
  have := decidableAll
  have : ∀ t : Text, Decidable (t ∉ rawElements) := fun _ =>
    decidable_of_iff' _ not_mem_rawElements_iff
  decidable_of_iff' _ (wellFormed_iff tag)

end WrittenTag

variable {c : Char} {t w : Text} {a : WrittenAttribute} {as : List WrittenAttribute}
  {bs : List (WrittenAttribute × Nat)} {tag : WrittenTag} {p : Placeholders}

/-! ### Characters -/

lemma isSpace_of_isGap (h : isGap c = true) : isSpace c = true := by
  simp only [isGap, Bool.or_eq_true, beq_iff_eq] at h
  rcases h with ((rfl | rfl) | rfl) | rfl <;> rfl

lemma isSpace_of_isBare (h : isBare c = true) : isSpace c = false := by
  simp only [isBare, Bool.and_eq_true] at h
  simpa using h.1.1

lemma ne_of_isBare {d : Char} (h : isBare c = true) (hd : isBare d = false) : c ≠ d := by
  rintro rfl
  rw [h] at hd
  cases hd

lemma not_mem_of_isBare (h : ∀ c ∈ t, isBare c = true) (hc : isBare c = false) : c ∉ t :=
  fun hm => ne_of_isBare (h c hm) hc rfl

lemma endsTagName_of_isBare (h : isBare c = true) : Segment.endsTagName c = false := by
  have hslash : c ≠ '/' := ne_of_isBare h rfl
  have hend : c ≠ '>' := ne_of_isBare h rfl
  simp [Segment.endsTagName, isSpace_of_isBare h, hslash, hend]

lemma endsName_of_isBare (h : isBare c = true) : endsName c = false := by
  have hne : c ≠ '=' := ne_of_isBare h rfl
  simp [endsName, isSpace_of_isBare h, hne]

/-- The characters that a tag is written with, its brackets, its slash and the values apart. -/
def inTag (c : Char) : Bool := isGap c || isBare c || c == '=' || isQuote c

namespace WrittenAttribute

lemma WellFormed.not_mem_front (h : a.WellFormed) (hc : inTag c = false) : c ∉ a.front := by
  simp only [inTag, Bool.or_eq_false_iff, beq_eq_false_iff_ne] at hc
  obtain ⟨⟨⟨hgap, hbare⟩, hequals⟩, hquote⟩ := hc
  have hgaps : c ∉ a.before ++ a.beforeSign ++ a.afterSign := by
    intro hm
    rw [h.gaps c hm] at hgap
    cases hgap
  simp only [List.mem_append, not_or] at hgaps
  simp [front, hgaps, hequals, not_mem_of_isBare h.name hbare, ne_of_isQuote h.mark hquote]

lemma WellFormed.spaces (h : a.WellFormed) : ((∀ c ∈ a.before, isSpace c = true) ∧
    ∀ c ∈ a.beforeSign, isSpace c = true) ∧ ∀ c ∈ a.afterSign, isSpace c = true := by
  rw [← List.forall_mem_append, ← List.forall_mem_append]
  exact fun c hc => isSpace_of_isGap (h.gaps c hc)

/-- Attributes begin with white space. -/
lemma WellFormed.head_front (h : a.WellFormed) (t : Text) :
    ∀ c ∈ (a.front ++ t).head?, isGap c = true := by
  obtain ⟨d, u, hd⟩ := List.exists_cons_of_ne_nil h.apart
  have hgap : isGap d = true := h.gaps d (by simp [hd])
  simpa [front, hd] using hgap

lemma head_texts (h : ∀ a ∈ as, a.WellFormed) :
    ∀ c ∈ (as.flatMap text).head?, isGap c = true := by
  cases as with
  | nil => exact fun c hc => nomatch hc
  | cons a as =>
    rw [List.flatMap_cons, text, List.append_assoc]
    exact (h a List.mem_cons_self).head_front _

/-! ### What the first three passes find -/

/-- A character that tags are not written with is in an attribute only if it is in a value. -/
lemma not_mem_texts (h : ∀ a ∈ as, a.WellFormed) (hc : inTag c = false)
    (hvalue : ∀ v, Quiet v → c ∉ v) : c ∉ as.flatMap text := by
  rw [List.mem_flatMap]
  rintro ⟨a, ha, hm⟩
  have hquote : isQuote c = false := (Bool.or_eq_false_iff.1 hc).2
  simp only [text, List.mem_append, List.mem_singleton] at hm
  rcases hm with hm | hm | rfl
  · exact (h a ha).not_mem_front hc hm
  · exact hvalue _ (h a ha).value hm
  · exact ne_of_isQuote (h a ha).mark hquote rfl

lemma noRawElement_texts (ht : NoRawElement t) (h : ∀ a ∈ as, a.WellFormed) :
    NoRawElement (as.flatMap text ++ t) := by
  induction as with
  | nil => exact ht
  | cons a as ih =>
    obtain ⟨ha, has⟩ := List.forall_mem_cons.1 h
    have hrest := (ih has).append_value ha.value ha.mark
    simpa [text] using hrest.append_of_not_mem (ha.not_mem_front rfl)

lemma not_braces_texts (ht : ¬ openBraces <:+: t) (h : ∀ a ∈ as, a.WellFormed) :
    ¬ openBraces <:+: as.flatMap text ++ t := by
  induction as with
  | nil => exact ht
  | cons a as ih =>
    obtain ⟨ha, has⟩ := List.forall_mem_cons.1 h
    have hmark : a.mark ≠ '{' := Ne.symm (ne_of_isQuote ha.mark rfl)
    have hrest := not_braces_append_cons hmark ha.value.braces (ih has)
    simpa [text] using not_braces_append (ha.not_mem_front rfl) hrest

/-! ### What the last pass hides -/

/-- Numbered attributes with tokens for their values. -/
def hidden (bs : List (WrittenAttribute × Nat)) : Text :=
  bs.flatMap fun (a, n) => a.front ++ (token n ++ [a.mark])

lemma head_hidden (h : ∀ b ∈ bs, b.1.WellFormed) (hw : ∀ c ∈ w, isGap c = true) :
    ∀ c ∈ (hidden bs ++ w).head?, isGap c = true := by
  cases bs with
  | nil => exact fun c hc => hw c (List.mem_of_mem_head? hc)
  | cons b bs =>
    rw [hidden, List.flatMap_cons, List.append_assoc, List.append_assoc]
    exact (h b List.mem_cons_self).head_front _

lemma hide_texts (h : ∀ a ∈ as, a.WellFormed) (p : Placeholders) (t : Text) :
    p.hide (quotedValues (as.flatMap text ++ t)) =
      (hidden (as.zipIdx (p.issued + 1)) ++
          ((p.insertAll (as.map value)).2.hide (quotedValues t)).1,
        ((p.insertAll (as.map value)).2.hide (quotedValues t)).2) := by
  induction as generalizing p with
  | nil => rfl
  | cons a as ih =>
    obtain ⟨ha, has⟩ := List.forall_mem_cons.1 h
    obtain ⟨⟨hbefore, hbeforeSign⟩, hafterSign⟩ := ha.spaces
    have hequals : '=' ∉ a.before ++ (a.name ++ a.beforeSign) := by
      simp only [List.mem_append, not_or]
      exact ⟨fun hm => absurd (hbefore _ hm) (by decide), not_mem_of_isBare ha.name rfl,
        fun hm => absurd (hbeforeSign _ hm) (by decide)⟩
    have hvalue := hide_quotedValues_value hafterSign ha.mark ha.inside p (as.flatMap text ++ t)
    have htext : (a :: as).flatMap text ++ t = (a.before ++ (a.name ++ a.beforeSign)) ++
        '=' :: (a.afterSign ++ a.mark :: (a.value ++ a.mark :: (as.flatMap text ++ t))) := by
      simp [text, front]
    rw [htext, hide_quotedValues_append hequals, hvalue, ih has]
    simp [hidden, front, List.zipIdx_cons, insertAll, Placeholders.insert]

end WrittenAttribute

namespace Placeholders

lemma find?_insert {v : Text} {n : Nat} (hn : n ≠ p.issued + 1) :
    (p.insert v).2.find? n = p.find? n := by
  change List.lookup n ((p.issued + 1, v) :: p.entries) = p.entries.lookup n
  rw [List.lookup_cons, beq_false_of_ne hn]

lemma find?_insertAll_of_le {vs : List Text} {n : Nat} (hn : n ≤ p.issued) :
    (p.insertAll vs).2.find? n = p.find? n := by
  induction vs generalizing p with
  | nil => rfl
  | cons v vs ih =>
    change ((p.insert v).2.insertAll vs).2.find? n = _
    rw [ih (Nat.le_succ_of_le hn), find?_insert (by omega)]

/-- A table that remembers values has them. -/
lemma find?_insertAll {vs : List Text} {v : Text} {n : Nat}
    (h : (v, n) ∈ vs.zipIdx (p.issued + 1)) : (p.insertAll vs).2.find? n = some v := by
  induction vs generalizing p with
  | nil => cases h
  | cons u vs ih =>
    change ((p.insert u).2.insertAll vs).2.find? n = some v
    rw [List.zipIdx_cons, List.mem_cons] at h
    rcases h with h | h
    · obtain ⟨rfl, rfl⟩ := Prod.mk.inj h
      exact (find?_insertAll_of_le (p := (p.insert v).2) (Nat.le_refl _)).trans
        List.lookup_cons_self
    · exact ih h

end Placeholders

namespace WrittenTag

/-- The attributes of a tag with tokens for their values. -/
def hiddenAttributes (tag : WrittenTag) : Text :=
  WrittenAttribute.hidden (tag.attributes.zipIdx 1)

def hidden (tag : WrittenTag) : Text :=
  '<' :: (tag.name ++ (tag.hiddenAttributes ++ tag.close))

namespace WellFormed

lemma not_mem_close (h : tag.WellFormed) (hc : isGap c = false) (hend : c ∉ ['/', '>']) :
    c ∉ tag.close := by
  rw [close, List.mem_append, not_or]
  refine ⟨fun hm => ?_, ?_⟩
  · rw [h.space c hm] at hc
    cases hc
  · simp only [List.mem_cons, List.not_mem_nil, or_false, not_or] at hend
    split <;> simp [hend]

/-- A character that tags are not written with is in a tag only if it is in a value. -/
lemma not_mem_text (h : tag.WellFormed) (hc : inTag c = false) (hend : c ∉ ['<', '/', '>'])
    (hvalue : ∀ v, Quiet v → c ∉ v) : c ∉ tag.text := by
  rw [List.mem_cons, not_or] at hend
  obtain ⟨hopen, hend⟩ := hend
  have hvalues := WrittenAttribute.not_mem_texts h.attributes hc hvalue
  simp only [inTag, Bool.or_eq_false_iff] at hc
  simp [text, hopen, not_mem_of_isBare h.name hc.1.1.2, hvalues, h.not_mem_close hc.1.1.1 hend]

/-- What stands behind its name begins with a character that ends names. -/
lemma exists_cons_behind (h : tag.WellFormed) (ht : ∀ c ∈ t.head?, isGap c = true) :
    ∃ c u, t ++ tag.close = c :: u ∧ (isGap c = true ∨ c = '/' ∨ c = '>') := by
  cases t with
  | cons c u => exact ⟨c, u ++ tag.close, rfl, .inl (ht c rfl)⟩
  | nil =>
    cases hspace : tag.space with
    | nil => cases hslash : tag.slash <;> simp [close, hspace, hslash]
    | cons c u =>
      refine ⟨c, u ++ if tag.slash then ['/', '>'] else ['>'], ?_, .inl (h.space c ?_)⟩
      · rw [close, hspace]
        rfl
      · simp [hspace]

lemma noRawElement (h : tag.WellFormed) : NoRawElement tag.text := by
  have hrest := WrittenAttribute.noRawElement_texts
    (noRawElement_of_not_mem (h.not_mem_close rfl (by decide))) h.attributes
  obtain ⟨c, u, hcu, hc⟩ := h.exists_cons_behind (WrittenAttribute.head_texts h.attributes)
  rw [text, hcu]
  rw [hcu] at hrest
  refine hrest.append_name (not_mem_of_isBare h.name rfl) (fun d hd => ?_) h.notRaw ?_
  · have hbare := h.name d hd
    by_contra hends
    simp only [endsRawName, Bool.not_eq_false, Bool.or_eq_true, beq_iff_eq] at hends
    rcases hends with ((((rfl | rfl) | rfl) | rfl) | rfl) | rfl <;> cases hbare
  · simp only [isGap, Bool.or_eq_true, beq_iff_eq] at hc
    rcases hc with (((rfl | rfl) | rfl) | rfl) | rfl | rfl <;> rfl

lemma not_braces (h : tag.WellFormed) : ¬ openBraces <:+: tag.text := by
  have hclose : ¬ openBraces <:+: tag.close :=
    fun hi => absurd (hi.subset List.mem_cons_self) (h.not_mem_close rfl (by decide))
  have hfront : '{' ∉ '<' :: tag.name := by
    simp [not_mem_of_isBare h.name (c := '{') rfl]
  exact not_braces_append hfront (WrittenAttribute.not_braces_texts hclose h.attributes)

/-- Hiding hides the values. -/
lemma hideAll (h : tag.WellFormed) : empty.hideAll tag.text =
    (tag.hidden, (empty.insertAll (tag.attributes.map WrittenAttribute.value)).2) := by
  have hbackslash : '\\' ∉ tag.text := h.not_mem_text rfl (by decide) fun v hv => hv.backslash
  have hname : '=' ∉ '<' :: tag.name := by
    simp [not_mem_of_isBare h.name (c := '=') rfl]
  have hvalues : empty.hide (quotedValues tag.text) =
      (tag.hidden, (empty.insertAll (tag.attributes.map WrittenAttribute.value)).2) := by
    have htext : tag.text = ('<' :: tag.name) ++
        (tag.attributes.flatMap WrittenAttribute.text ++ (tag.close ++ [])) := by
      simp [text]
    rw [htext, hide_quotedValues_append hname, WrittenAttribute.hide_texts h.attributes,
      hide_quotedValues_append (h.not_mem_close rfl (by decide))]
    simp [hidden, hiddenAttributes, quotedValues, hide, empty]
  rw [Placeholders.hideAll, hide_backslashes_of_not_mem hbackslash]
  simp only [hide_rawText_of_noRawElement h.noRawElement,
    hide_expressions_of_not_infix h.not_braces]
  exact hvalues

end WellFormed

end WrittenTag

end HtmlTemplate
