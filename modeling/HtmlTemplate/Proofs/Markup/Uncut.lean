import HtmlTemplate.Proofs.Markup.Occurrences
import HtmlTemplate.Proofs.Markup.Quiet
import HtmlTemplate.Proofs.Markup.Scan

/-!
No expression is cut.

Hiding leaves nothing of an expression to be seen but the line feeds in it, and the scanner only
cuts next to a bracket that can be seen. So the segments of a template have its expressions, and
filling in one segment after another is filling in the whole.
-/

namespace HtmlTemplate

open Placeholders HtmlTemplate.Span

/-! ### What can be seen -/

/-- The only characters to be seen of expressions are line feeds. -/
lemma exists_hide_expressions {t : Text} (plain : tokenOpening ∉ t) (p : Placeholders) :
    ∃ r : Nested, r.shown = (p.hide (expressions t)).1 ∧ r.source = t ∧
      (p.hide (expressions t)).2.entries.Perm (p.entries ++ r.entries) ∧
      ∀ k, ∀ x ∈ r.seen k, x.2 ≠ '\n' →
        ∀ o ∈ Chunk.occurrences k (Chunk.chunks t), ¬ (o.start ≤ x.1 ∧ x.1 < o.stop) := by
  induction t using Chunk.chunks.induct generalizing p with
  | case1 t h =>
    refine ⟨.ofText t plain, ?_, Nested.source_ofText t plain, ?_, fun k x _ _ o ho => ?_⟩
    · simp [expressions_of_none h, hide]
    · simp [expressions_of_none h, hide]
    · rw [Chunk.chunks_of_none h] at ho
      cases ho
  | case2 t a body rest h _ ih =>
    obtain ⟨rfl, -, -⟩ := Chunk.first?_eq_some_iff.1 h
    simp only [List.mem_append, not_or] at plain
    obtain ⟨⟨ha, hbody⟩, hrest⟩ := plain
    obtain ⟨w, hw, hws, hwe, hwseen, -⟩ := exists_insertAll p
      (.ofText (Chunk.expression body).source hbody) p.entries (by simp)
    rw [Nested.shown_ofText] at hw hwe
    obtain ⟨r, hr, hrs, hre, hrseen⟩ :=
      ih hrest (p.insertAll (Text.rows (Chunk.expression body).source)).2
    refine ⟨.ofText a ha ++ w ++ r, ?_, ?_, ?_, fun k x hx hfeed o ho => ?_⟩
    · rw [expressions_of_some h]
      simp [hide, hw, hr]
    · simp [hws, hrs]
    · rw [expressions_of_some h]
      simpa [hide] using hre.trans (hwe.append_right r.entries)
    · rw [Nested.seen_append, Nested.seen_append, List.mem_append, List.mem_append,
        Nested.source_append, hws, Nested.source_ofText, Nested.source_ofText,
        List.length_append, ← Nat.add_assoc] at hx
      rw [Chunk.chunks_of_some h, Chunk.occurrences, Chunk.occurrences, List.mem_cons] at ho
      have hstart : k + a.length ≤ o.start := by
        rcases ho with rfl | ho
        · exact Nat.le_refl _
        · exact (Nat.le_add_right _ _).trans (Chunk.within_of_mem_occurrences ho).1
      rcases hx with (hx | hx) | hx
      · have hwithin := Nested.within_of_mem_seen hx
        rw [Nested.source_ofText] at hwithin
        omega
      · exact absurd (hwseen _ x hx).1 hfeed
      · rcases ho with rfl | ho
        · have hwithin := Nested.within_of_mem_seen hx
          simp only [Occurrence.stop]
          omega
        · exact hrseen _ x hx hfeed o ho

/-- Without a name of a raw element behind a bracket there is no raw element. -/
lemma noRawElement_of_no_name {t : Text}
    (h : ∀ name ∈ rawElements, ¬ '<' :: name <:+: t.map Char.toLower) : NoRawElement t := by
  rintro a b rfl
  rw [← Option.not_isSome_iff_eq_none, isSome_rawElement?_iff]
  rintro ⟨name, hname, o, d, x, w, y, rfl, ho, -⟩
  refine h name hname ⟨a.map Char.toLower, (d :: (x ++ w ++ y)).map Char.toLower, ?_⟩
  rw [← ho, List.map_append, List.map_append, List.append_assoc]

/-- What hiding leaves of a template, with nothing to be seen of its expressions. -/
lemma exists_backs_hideAll_of_plain {t : Text} (backslash : '\\' ∉ t) (plain : tokenOpening ∉ t)
    (raw : ∀ name ∈ rawElements, ¬ '<' :: name <:+: t.map Char.toLower) :
    ∃ r : Nested, r.shown = (empty.hideAll t).1 ∧ r.source = t ∧ (empty.hideAll t).2.Backs r ∧
      ∀ x ∈ r.seen 0, x.2 ≠ '\n' →
        ∀ o ∈ Chunk.occurrences 0 (Chunk.chunks t), ¬ (o.start ≤ x.1 ∧ x.1 < o.stop) := by
  obtain ⟨r, hr, hs, he, hseen⟩ := exists_hide_expressions plain empty
  obtain ⟨r', hr', hs', he', hseen', -⟩ := exists_hide (laid_quotedValues r.shown)
    (empty.hide (expressions t)).2 r [] []
    (fun _ hc n _ => hc.outside_token n)
    (by simp [sources_quotedValues]) he
  have hhide : empty.hideAll t =
      (empty.hide (expressions t)).2.hide (quotedValues (empty.hide (expressions t)).1) := by
    unfold hideAll
    rw [hide_backslashes_of_not_mem backslash]
    dsimp only
    rw [hide_rawText_of_noRawElement (noRawElement_of_no_name raw)]
  rw [hr] at hr' he'
  refine ⟨r', ?_, hs'.trans hs, ?_, fun x hx => hseen 0 x (hseen' 0 hx)⟩
  · rw [hhide]
    simpa using hr'
  · rw [← hhide] at he'
    exact (numbered_empty.hideAll t).backs (by simpa using he')

/-! ### Where the scanner cuts -/

lemma IsCut.append {a b : Text} (h : IsCut a b) (w : Text) : IsCut (w ++ a) b := by
  rcases h with h | h | ⟨a', rfl⟩
  · exact .inl h
  · exact .inr (.inl h)
  · exact .inr (.inr ⟨w ++ a', by rw [List.append_assoc]⟩)

lemma isCut_segmentTexts {t : Text} {us vs : List Text} (h : segmentTexts t = us ++ vs)
    (hus : us ≠ []) : IsCut us.flatten vs.flatten := by
  induction t using segmentTexts.induct generalizing us with
  | case1 =>
    rw [segmentTexts_nil] at h
    exact absurd (List.append_eq_nil_iff.1 h.symm).1 hus
  | case2 t ih =>
    obtain ⟨u, us, rfl⟩ := List.exists_cons_of_ne_nil hus
    rw [segmentTexts_tag, List.cons_append, List.cons.injEq] at h
    obtain ⟨rfl, h⟩ := h
    cases us with
    | nil =>
      rw [← List.nil_append vs, ← h, flatten_segmentTexts]
      simpa using (closeTag_cut t).2.2.append ['<']
    | cons v us => exact (ih h (List.cons_ne_nil v us)).append _
  | case3 c t hc ih =>
    obtain ⟨u, us, rfl⟩ := List.exists_cons_of_ne_nil hus
    rw [segmentTexts_run hc, List.cons_append, List.cons.injEq] at h
    obtain ⟨rfl, h⟩ := h
    cases us with
    | nil =>
      rw [← List.nil_append vs, ← h, flatten_segmentTexts]
      exact dropWhile_cut _ t
    | cons v us => exact (ih h (List.cons_ne_nil v us)).append _

namespace Nested

lemma join_append (rs ss : List Nested) : join (rs ++ ss) = join rs ++ join ss := by
  induction rs with
  | nil => rfl
  | cons r rs ih => rw [List.cons_append, join_cons, ih, join_cons, append_assoc]

lemma shown_join (rs : List Nested) : (join rs).shown = (rs.map shown).flatten := by
  induction rs with
  | nil => rfl
  | cons r rs ih => rw [join_cons, shown_append, ih, List.map_cons, List.flatten_cons]

lemma eq_nil_of_shown {r : Nested} (h : r.shown = []) : r = nil := by
  cases r with
  | nil => rfl
  | char c plain r => cases h
  | token n i r => cases h

/-- Where no expression shows, the segments cut none. -/
lemma uncut_segments {rs : List Nested} {shown t : Text}
    (h : rs.map Nested.shown = segmentTexts shown) (ht : (join rs).source = t)
    (hseen : ∀ x ∈ (join rs).seen 0, x.2 ≠ '\n' →
      ∀ o ∈ Chunk.occurrences 0 (Chunk.chunks t), ¬ (o.start ≤ x.1 ∧ x.1 < o.stop)) :
    Chunk.Uncut (rs.map source) := by
  rintro us vs hsplit o ho ⟨hstart, hstop⟩
  obtain ⟨rs₁, rs₂, rfl, rfl, rfl⟩ := List.map_eq_append_iff.1 hsplit
  rw [← source_join, ht] at ho
  rw [← source_join] at hstart hstop
  rw [join_append] at hseen ht
  have hwithin := (Chunk.within_of_mem_occurrences ho).2
  rw [Chunk.sources_chunks, ← ht, Nat.zero_add] at hwithin
  have hne : rs₁.map Nested.shown ≠ [] := by
    intro hnil
    rw [List.map_eq_nil_iff.1 hnil] at hstart
    cases hstart
  rw [List.map_append] at h
  have hcut := isCut_segmentTexts h.symm hne
  rw [← shown_join, ← shown_join] at hcut
  rcases hcut with hnil | ⟨u, hu⟩ | ⟨u, hu⟩
  · rw [eq_nil_of_shown hnil, append_nil] at hwithin
    omega
  · obtain ⟨s₁, s₂, plain, hs, hs₁, -⟩ := exists_cut_plain (a := []) rfl hu
    have hbracket : ((join rs₁).source.length, '<') ∈ (join rs₁ ++ join rs₂).seen 0 := by
      simp [hs, eq_nil_of_shown hs₁, seen]
    exact hseen _ hbracket (fun hfeed => by cases hfeed) o ho ⟨hstart.le, hstop⟩
  · obtain ⟨s₁, s₂, plain, hs, -, hs₂⟩ := exists_cut_plain (b := []) rfl hu
    have hbracket : (s₁.source.length, '>') ∈ (join rs₁ ++ join rs₂).seen 0 := by
      simp [hs, seen]
    rw [hs, eq_nil_of_shown hs₂, source_append, List.length_append, source, source,
      List.length_singleton] at hstart hstop
    exact hseen _ hbracket (fun hfeed => by cases hfeed) o ho
      ⟨Nat.le_of_lt_succ hstart, Nat.lt_of_succ_lt hstop⟩

end Nested

lemma Scanned.map_decoded (source : Text) :
    (ofSource source).segments.map (ofSource source).decoded =
      (segmentTexts (empty.hideAll source).1).map (empty.hideAll source).2.decode := by
  rw [← map_raw_numberLines (empty.hideAll source).2 1 (segmentTexts _), List.map_map]
  rfl

/-! ### Expressions of a template -/

/-- **No expression is split.** The spans of expressions that hiding finds in a text are those that
the text has by its form, and those that filling in evaluates. In a template without backslashes,
tokens and raw elements each of them lies within one segment, and so the segments, filled in one
after another, have the same expressions in the same order as the whole. -/
theorem hiddenExpressions_uncut (t : Text) :
    (∀ os, Chunk.Found 0 t os ↔ os = hiddenExpressions t) ∧
    (∀ c raw, fillIn c raw t = fillAt c raw t 0 (hiddenExpressions t)) ∧
    ('\\' ∉ t → tokenOpening ∉ t →
      (∀ name ∈ rawElements, ¬ '<' :: name <:+: t.map Char.toLower) →
      let scanned := Scanned.ofSource t
      let texts := scanned.segments.map scanned.decoded
      (∀ o ∈ hiddenExpressions t, ∃ before s after, scanned.segments = before ++ s :: after ∧
        let start := (before.map scanned.decoded).flatten.length
        start ≤ o.start ∧ o.stop ≤ start + (scanned.decoded s).length) ∧
      hiddenExpressions t = Occurrence.across hiddenExpressions 0 texts ∧
      ∀ c raw, fillIn c raw t = do return (← texts.mapM (fillIn c raw)).flatten) := by
  refine ⟨fun os => ?_, fun c raw => ?_, fun backslash plain hraw => ?_⟩
  · rw [hiddenExpressions_eq]
    exact Chunk.found_iff
  · have hfill := fillAt_occurrences c raw (Chunk.chunks t) [] []
    rw [Chunk.sources_chunks] at hfill
    rw [hiddenExpressions_eq, fillIn]
    simpa using hfill.symm
  · intro scanned texts
    obtain ⟨r, hr, rfl, hp, hseen⟩ := exists_backs_hideAll_of_plain backslash plain hraw
    obtain ⟨rs, hrs, rfl⟩ := Nested.exists_segments hr
    have htexts : texts = rs.map Nested.source := by
      change scanned.segments.map scanned.decoded = _
      rw [Scanned.map_decoded, ← hrs, List.map_map]
      exact List.map_congr_left hp.decode_join
    have hflatten : (Nested.join rs).source = texts.flatten := by
      rw [htexts, Nested.source_join]
    have huncut : Chunk.Uncut texts := htexts ▸ Nested.uncut_segments hrs rfl hseen
    have hacross : hiddenExpressions (Nested.join rs).source =
        Occurrence.across hiddenExpressions 0 texts := by
      rw [hiddenExpressions_eq, hflatten, huncut.occurrences_flatten]
      exact congrArg (fun f => Occurrence.across f 0 texts)
        (funext fun u => (hiddenExpressions_eq u).symm)
    refine ⟨fun o ho => ?_, hacross, fun c raw => ?_⟩
    · rw [hacross] at ho
      obtain ⟨us, u, vs, hsplit, hstart, hstop⟩ :=
        Occurrence.exists_of_mem_across stop_le_of_mem_hiddenExpressions ho
      obtain ⟨before, rest, hsegments, rfl, hrest⟩ := List.map_eq_append_iff.1 hsplit
      obtain ⟨s, after, rfl, rfl, -⟩ := List.map_eq_cons_iff.1 hrest
      rw [Nat.zero_add] at hstart hstop
      exact ⟨before, s, after, hsegments, hstart, hstop⟩
    · rw [hflatten]
      exact fillIn_flatten huncut

/-- An expression with a bracket in a quoted value, one of two rows before a third closing brace,
one that makes a tag with the brackets around it, and braces that are not closed. -/
theorem hiddenExpressions_uncut_rows :
    let source : Text :=
      "<a b='\x7b\x7b 1 > 0 \x7d\x7d'>\x7b\x7b '<'\n\x7d\x7d\x7d<\x7b\x7bx\x7d\x7d>\x7b\x7b\x7d<"
    let scanned := Scanned.ofSource source
    let texts := scanned.segments.map scanned.decoded
    ('\\' ∉ source ∧ tokenOpening ∉ source ∧
      ∀ name ∈ rawElements, ¬ '<' :: name <:+: source.map Char.toLower) ∧
    texts = ["<a b='\x7b\x7b 1 > 0 \x7d\x7d'>", "\x7b\x7b '<'\n\x7d\x7d\x7d", "<\x7b\x7bx\x7d\x7d>",
      "\x7b\x7b\x7d", "<"] ∧
    (hiddenExpressions source).map Occurrence.body = [" 1 > 0 ", " '<'\n", "x"] ∧
    hiddenExpressions source = Occurrence.across hiddenExpressions 0 texts := by
  intro source scanned texts
  have hbackslash : '\\' ∉ source := by decide
  have hplain : tokenOpening ∉ source := by decide
  have hraw : ∀ name ∈ rawElements, ¬ '<' :: name <:+: source.map Char.toLower := by decide
  refine ⟨⟨hbackslash, hplain, hraw⟩, by decide +kernel, by decide +kernel, ?_⟩
  exact ((hiddenExpressions_uncut source).2.2 hbackslash hplain hraw).2.1

end HtmlTemplate
