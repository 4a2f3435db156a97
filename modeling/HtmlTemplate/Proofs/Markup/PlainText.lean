import HtmlTemplate.Proofs.Markup.Builder
import HtmlTemplate.Proofs.Markup.HiddenTag
import HtmlTemplate.Proofs.Markup.Scan
import HtmlTemplate.Proofs.Markup.Visible

/-!
Templates without tags.

Hiding brings in no character but those of tokens. So a template without an opening bracket has
none after hiding either, is a single segment, and its tree is the template as text.
-/

namespace HtmlTemplate

variable {c : Char} {source t u : Text} {free : Bool}

lemma Span.Hides.mem (h : Hides free t u) (hc : inToken c = false) (hm : c ∈ u) : c ∈ t := by
  obtain ⟨a, b, rfl⟩ := List.append_of_mem hm
  obtain ⟨a', t', rfl, -, -⟩ := h.of_append_cons hc
  simp

/-- A character after hiding that is not one of tokens was there before. -/
lemma Placeholders.mem_of_mem_hideAll (hc : inToken c = false)
    (hm : c ∈ (empty.hideAll source).1) : c ∈ source := by
  set h₁ := empty.hide (Span.backslashes source)
  set h₂ := h₁.2.hide (Span.rawText h₁.1)
  set h₃ := h₂.2.hide (Span.expressions h₂.1)
  have m₃ : c ∈ h₃.1 := by
    simpa [Span.sources_quotedValues] using
      ((Span.laid_quotedValues h₃.1).hides h₃.2 false).mem hc hm
  have m₂ : c ∈ h₂.1 := by
    simpa [Span.sources_expressions] using
      ((Span.laid_expressions h₂.1).hides h₂.2 false).mem hc m₃
  have m₁ : c ∈ h₁.1 := by
    simpa [Span.sources_rawText] using ((Span.laid_rawText h₁.1).hides h₁.2 false).mem hc m₂
  simpa [Span.sources_backslashes] using
    ((Span.laid_backslashes source).hides empty false).mem hc m₁

lemma segmentTexts_of_no_bracket (hne : t ≠ []) (h : '<' ∉ t) : segmentTexts t = [t] := by
  obtain ⟨c, t, rfl⟩ := List.exists_cons_of_ne_nil hne
  rw [List.mem_cons, not_or] at h
  have hall : ∀ d ∈ t, (d != '<') = true := fun d hd => by
    simpa using fun hd' : d = '<' => h.2 (hd' ▸ hd)
  rw [segmentTexts_run (Ne.symm h.1), List.takeWhile_eq_self_iff.2 hall,
    List.dropWhile_eq_nil_iff.2 hall, segmentTexts_nil]

/-- **A template without an opening bracket is text.** -/
theorem parseTemplate_of_no_bracket (plain : tokenOpening ∉ source) (hne : source ≠ [])
    (h : '<' ∉ source) : ∃ line, parseTemplate source = .ok [.leaf .text source line] := by
  obtain ⟨r, hr, hs, hp⟩ := Placeholders.exists_backs_hideAll plain
  have hbracket : '<' ∉ r.shown := by
    rw [hr]
    exact fun hm => h (Placeholders.mem_of_mem_hideAll rfl hm)
  have hshown : r.shown ≠ [] := by
    intro hnil
    have hrest : r = .nil := by
      cases r with
      | nil => rfl
      | char c plain rest => cases hnil
      | token n inside rest => cases hnil
    rw [hrest] at hs
    exact hne hs.symm
  let s : Segment := ⟨r.shown, if 0 < (Placeholders.empty.hideAll source).2.newlines r.shown
    then 1 + 1 else 1⟩
  have hscan : (Scanned.ofSource source).segments = [s] := by
    change numberLines _ 1 (segmentTexts (Placeholders.empty.hideAll source).1) = _
    rw [← hr, segmentTexts_of_no_bracket hshown hbracket]
    rfl
  have hkind : s.kind = .leaf .text := Segment.kindOf_text hbracket
  have htake : ((Placeholders.empty.hideAll source).2.take s.raw).1 = source := by
    rw [hp.take, hs]
  have hpush : (Builder.ofPlaceholders (Placeholders.empty.hideAll source).2).push s =
      .ok (((Builder.ofPlaceholders (Placeholders.empty.hideAll source).2).resolved s).append
        (.leaf .text source s.line)) := by
    rw [Builder.push_leaf hkind, Builder.ofPlaceholders, htake]
  refine ⟨s.line, ?_⟩
  rw [parseTemplate, hscan]
  change ((Builder.ofPlaceholders (Placeholders.empty.hideAll source).2).pushAll [s]).map _ = _
  rw [Builder.pushAll, List.foldlM_cons, hpush]
  rfl

end HtmlTemplate
