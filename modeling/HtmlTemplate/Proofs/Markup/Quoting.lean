import HtmlTemplate.Markup.Attributes
import HtmlTemplate.Proofs.Markup.Quiet
import HtmlTemplate.Proofs.Text.Replace

/-!
Attribute values in quotes.

A value is written between quotes of a kind that the text between them does not hold, and reading
references back gives the value, unless the value itself has the form of a reference. What a pass
looks for is in the written text only if it is in the value.
-/

namespace HtmlTemplate

namespace Attributes

open HtmlTemplate.Span

/-! ### Double quotes as references -/

/-- A text with its double quotes as references. -/
def refQuotes (t : Text) : Text := Text.replace ['"'] doubleQuoteRef t

lemma refQuotes_cons (c : Char) (t : Text) :
    refQuotes (c :: t) = (if c = '"' then doubleQuoteRef else [c]) ++ refQuotes t := by
  rw [refQuotes, Text.replace_singleton, List.flatMap_cons, ← Text.replace_singleton]
  rfl

/-- What begins with no reference stood there before. -/
lemma exists_prefix_of_refQuotes {t w u : Text} (h : refQuotes t = w ++ u) (hw : '&' ∉ w) :
    ∃ t', t = w ++ t' ∧ refQuotes t' = u := by
  induction w generalizing t with
  | nil => exact ⟨t, rfl, h⟩
  | cons d w ih =>
    rw [List.mem_cons, not_or] at hw
    cases t with
    | nil => cases h
    | cons c t =>
      rw [refQuotes_cons] at h
      split at h
      · exact absurd (List.cons.inj h).1 hw.1
      · obtain ⟨rfl, htail⟩ := List.cons.inj h
        obtain ⟨t', rfl, hu⟩ := ih htail hw.2
        exact ⟨t', rfl, hu⟩

/-- A character that is in no reference stood there before. -/
lemma exists_split_of_refQuotes {t a u : Text} {c : Char} (h : refQuotes t = a ++ c :: u)
    (hc : c ∉ doubleQuoteRef) : ∃ b t', t = b ++ c :: t' ∧ refQuotes t' = u := by
  induction t generalizing a with
  | nil => simp [refQuotes] at h
  | cons d t ih =>
    rw [refQuotes_cons] at h
    split at h
    · obtain ⟨a', -, htail⟩ := Text.exists_append_of_not_mem hc h
      obtain ⟨b, t', rfl, hu⟩ := ih htail
      exact ⟨d :: b, t', rfl, hu⟩
    · cases a with
      | nil =>
        obtain ⟨rfl, htail⟩ := List.cons.inj h
        exact ⟨[], t, rfl, htail⟩
      | cons e a =>
        obtain ⟨b, t', rfl, hu⟩ := ih (List.cons.inj h).2
        exact ⟨d :: b, t', rfl, hu⟩

lemma infix_of_refQuotes {t w : Text} {c : Char} (h : c :: w <:+: refQuotes t)
    (hc : c ∉ doubleQuoteRef) (hw : '&' ∉ w) : c :: w <:+: t := by
  obtain ⟨a, u, h⟩ := h
  rw [List.append_assoc, List.cons_append] at h
  obtain ⟨b, t', rfl, ht⟩ := exists_split_of_refQuotes h.symm hc
  obtain ⟨u', rfl, -⟩ := exists_prefix_of_refQuotes ht hw
  exact ⟨b, u', by simp⟩

lemma mem_of_mem_refQuotes {t : Text} {c : Char} (h : c ∈ refQuotes t)
    (hc : c ∉ doubleQuoteRef) : c ∈ t := by
  obtain ⟨a, u, h⟩ := List.append_of_mem h
  obtain ⟨b, t', rfl, -⟩ := exists_split_of_refQuotes h hc
  simp

lemma not_mem_refQuotes (t : Text) : '"' ∉ refQuotes t := by
  rw [refQuotes, Text.replace_singleton, List.mem_flatMap]
  rintro ⟨c, -, hc⟩
  split at hc
  · exact absurd hc (by decide)
  · next hne => exact hne (List.mem_singleton.1 hc).symm

/-- References written for double quotes are read back, if there was none before. -/
lemma replace_refQuotes {t : Text} (h : ¬ doubleQuoteRef <:+: t) :
    Text.replace doubleQuoteRef ['"'] (refQuotes t) = t := by
  induction t with
  | nil => rfl
  | cons c t ih =>
    have ih := ih fun hi => h (List.infix_cons hi)
    rw [refQuotes_cons]
    split
    · next hc =>
      rw [Text.replace_append (by decide), ih, hc]
      rfl
    · rw [List.singleton_append, Text.replace_cons, ih]
      rintro ⟨u, hu⟩
      -- a reference that begins with a character of the text goes on in the text
      have hsplit : c = '&' ∧ refQuotes t = ("quot;" : Text) ++ u := by
        obtain ⟨h1, h2⟩ := List.cons.inj hu
        exact ⟨h1.symm, h2.symm⟩
      obtain ⟨rfl, htail⟩ := hsplit
      obtain ⟨t', rfl, -⟩ := exists_prefix_of_refQuotes htail (by decide)
      exact h ⟨[], t', rfl⟩

lemma quiet_refQuotes {t : Text} (h : Quiet t) : Quiet (refQuotes t) where
  backslash hm := h.backslash (mem_of_mem_refQuotes hm (by decide))
  token hm := h.token (mem_of_mem_refQuotes hm (by decide))
  braces hi := h.braces (infix_of_refQuotes hi (by decide) (by decide))
  raw name hname hi := by
    have hplain : '&' ∉ name := Text.not_mem_of_isName (isName_of_mem_rawElements hname) rfl
    obtain ⟨a, u, hau⟩ := hi
    obtain ⟨_, y, hsplit, hx, -⟩ := List.map_eq_append_iff.1 hau.symm
    obtain ⟨x, o, rfl, -, ho⟩ := List.map_eq_append_iff.1 hx
    obtain ⟨d, o', rfl, hd, ho'⟩ := List.map_eq_cons_iff.1 ho
    obtain rfl := eq_of_toLower hd rfl
    have hamp : '&' ∉ o' := fun hm => hplain (ho' ▸ List.mem_map_of_mem hm)
    have hfound := infix_of_refQuotes ⟨x, y, hsplit.symm⟩ (by decide) hamp
    have hlower := hfound.map Char.toLower
    rw [ho] at hlower
    exact h.raw name hname hlower

/-! ### Values -/

/-- The quote that a value is written in. -/
def quoteMark (value : Text) : Char :=
  if value.contains '"' && !value.contains '\'' then '\'' else '"'

/-- What is written between the quotes of a value. -/
def quotedText (value : Text) : Text :=
  if value.contains '"' && value.contains '\'' then refQuotes value else value

lemma quote_eq (value : Text) :
    quote value = quoteMark value :: (quotedText value ++ [quoteMark value]) := by
  unfold quote quoteMark quotedText
  cases value.contains '"' <;> cases value.contains '\'' <;> rfl

lemma isQuote_quoteMark (value : Text) : isQuote (quoteMark value) = true := by
  unfold quoteMark
  split <;> rfl

lemma ne_quoteMark {c : Char} (hc : isQuote c = false) (value : Text) : c ≠ quoteMark value :=
  ne_of_isQuote (isQuote_quoteMark value) hc

lemma quoteMark_not_mem (value : Text) : quoteMark value ∉ quotedText value := by
  unfold quoteMark quotedText
  cases hd : value.contains '"' <;> cases hs : value.contains '\'' <;>
    simp_all [not_mem_refQuotes]

lemma quiet_quotedText {value : Text} (h : Quiet value) : Quiet (quotedText value) := by
  unfold quotedText
  split
  · exact quiet_refQuotes h
  · exact h

/-- A value that comes back from between its quotes. -/
@[mk_iff]
structure Quotable (value : Text) : Prop extends Quiet value where
  double : ¬ doubleQuoteRef <:+: value
  single : ¬ singleQuoteRef <:+: value

instance : DecidablePred Quotable := fun value => decidable_of_iff' _ (quotable_iff value)

/-- **Quoting is undone.** -/
theorem unquoteRefs_quotedText {value : Text} (h : Quotable value) :
    unquoteRefs (quotedText value) = value := by
  have hdouble : Text.replace doubleQuoteRef ['"'] (quotedText value) = value := by
    unfold quotedText
    split
    · exact replace_refQuotes h.double
    · exact Text.replace_of_not_infix h.double
  rw [unquoteRefs, hdouble, Text.replace_of_not_infix h.single]

end Attributes

end HtmlTemplate
