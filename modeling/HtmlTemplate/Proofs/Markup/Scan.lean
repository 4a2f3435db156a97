import Mathlib.Data.List.Chain
import HtmlTemplate.Markup.Segment
import HtmlTemplate.Proofs.Markup.RoundTrip

/-!
The segments of a template.

The scanner cuts its text before an opening bracket or after a closing one, so it cuts a nested
text into nested texts, and what is known of the whole (source, line feeds) is known of every
segment. The line of a segment counts the line feeds before it in the template itself.
-/

namespace HtmlTemplate

/-- The form of a segment: no bracket opens after its first character, and if that is one, no
bracket closes before the last character. -/
def IsSegment (raw : Text) : Prop := ∃ c t, raw = c :: t ∧ '<' ∉ t ∧ (c = '<' → '>' ∉ t.dropLast)

/-- The scanner's cuts: before an opening bracket, after a closing one, or at the end. -/
def IsCut (a b : Text) : Prop := b = [] ∨ (∃ b', b = '<' :: b') ∨ ∃ a', a = a' ++ ['>']

lemma closeTag_cut (t : Text) :
    '<' ∉ (closeTag t).1 ∧ '>' ∉ (closeTag t).1.dropLast ∧ IsCut (closeTag t).1 (closeTag t).2 := by
  induction t with
  | nil => exact ⟨by simp [closeTag], by simp [closeTag], .inl rfl⟩
  | cons c t ih =>
    obtain ⟨h1, h2, h3⟩ := ih
    by_cases hlt : c = '<'
    · subst hlt
      exact ⟨by simp [closeTag], by simp [closeTag], .inr (.inl ⟨t, by simp [closeTag]⟩)⟩
    · by_cases hgt : c = '>'
      · subst hgt
        exact ⟨by simp [closeTag], by simp [closeTag], .inr (.inr ⟨[], by simp [closeTag]⟩)⟩
      · have he : closeTag (c :: t) = (c :: (closeTag t).1, (closeTag t).2) := by
          simp [closeTag, hlt, hgt]
        rw [he]
        refine ⟨by simp [Ne.symm hlt, h1], ?_, ?_⟩
        · intro hm
          cases hc : (closeTag t).1 with
          | nil => simp [hc] at hm
          | cons d a =>
            rw [hc] at hm h2
            rw [List.dropLast_cons_of_ne_nil (by simp), List.mem_cons] at hm
            exact hm.elim (fun e => hgt e.symm) h2
        · rcases h3 with h | ⟨b, hb⟩ | ⟨a, ha⟩
          · exact .inl h
          · exact .inr (.inl ⟨b, hb⟩)
          · exact .inr (.inr ⟨c :: a, by rw [ha]; rfl⟩)

lemma dropWhile_cut (a t : Text) : IsCut a (t.dropWhile (· != '<')) := by
  cases h : t.dropWhile (· != '<') with
  | nil => exact .inl rfl
  | cons c b =>
    have := List.head?_dropWhile_not (· != '<') t
    rw [h] at this
    exact .inr (.inl ⟨b, by simpa using this⟩)

lemma segmentTexts_nil : segmentTexts [] = [] := by rw [segmentTexts]

lemma segmentTexts_tag (t : Text) :
    segmentTexts ('<' :: t) = ('<' :: (closeTag t).1) :: segmentTexts (closeTag t).2 := by
  rw [segmentTexts, if_pos rfl]

lemma segmentTexts_run {c : Char} (hc : c ≠ '<') (t : Text) :
    segmentTexts (c :: t) =
      (c :: t.takeWhile (· != '<')) :: segmentTexts (t.dropWhile (· != '<')) := by
  rw [segmentTexts, if_neg hc]

/-- No text is lost. -/
lemma flatten_segmentTexts (t : Text) : (segmentTexts t).flatten = t := by
  induction t using segmentTexts.induct with
  | case1 => rw [segmentTexts_nil, List.flatten_nil]
  | case2 t ih =>
    rw [segmentTexts_tag, List.flatten_cons, ih, List.cons_append, append_closeTag]
  | case3 c t hc ih =>
    rw [segmentTexts_run hc, List.flatten_cons, ih, List.cons_append,
      List.takeWhile_append_dropWhile]

lemma isSegment_of_mem {t raw : Text} (h : raw ∈ segmentTexts t) : IsSegment raw := by
  induction t using segmentTexts.induct with
  | case1 => simp [segmentTexts_nil] at h
  | case2 t ih =>
    rw [segmentTexts_tag, List.mem_cons] at h
    rcases h with rfl | h
    · obtain ⟨h1, h2, -⟩ := closeTag_cut t
      exact ⟨_, _, rfl, h1, fun _ => h2⟩
    · exact ih h
  | case3 c t hc ih =>
    rw [segmentTexts_run hc, List.mem_cons] at h
    rcases h with rfl | h
    · refine ⟨_, _, rfl, fun hm => ?_, fun e => absurd e hc⟩
      simpa using List.mem_takeWhile_imp hm
    · exact ih h

/-- After a run of text comes a tag. -/
lemma isChain_segmentTexts (t : Text) :
    (segmentTexts t).IsChain fun a b => a.head? = some '<' ∨ b.head? = some '<' := by
  induction t using segmentTexts.induct with
  | case1 => simp [segmentTexts_nil]
  | case2 t ih =>
    rw [segmentTexts_tag]
    exact ih.cons fun b _ => .inl rfl
  | case3 c t hc ih =>
    rw [segmentTexts_run hc]
    refine ih.cons fun b hb => .inr ?_
    rcases dropWhile_cut [] t with h | ⟨u, h⟩ | ⟨a, h⟩
    · rw [h, segmentTexts_nil] at hb
      cases hb
    · rw [h, segmentTexts_tag] at hb
      obtain rfl : _ = b := by simpa using hb
      rfl
    · simp at h

/-! ### Cutting a nested text -/

namespace Nested

/-- The texts of a list one after another. -/
def join (rs : List Nested) : Nested := rs.foldr (· ++ ·) nil

lemma join_cons (r : Nested) (rs : List Nested) : join (r :: rs) = r ++ join rs := rfl

lemma depth_append (r s : Nested) : (r ++ s).depth = max r.depth s.depth := by
  induction r with
  | nil => simp [depth]
  | char c h r ih => simpa [depth] using ih
  | token n i r _ ih =>
    simp only [token_append, depth, ih]
    omega

lemma exists_split {r : Nested} {a b : Text} (h : r.shown = a ++ b) (hc : IsCut a b) :
    ∃ r₁ r₂, r = r₁ ++ r₂ ∧ r₁.shown = a ∧ r₂.shown = b := by
  rcases hc with rfl | ⟨b, rfl⟩ | ⟨a, rfl⟩
  · exact ⟨r, nil, (append_nil r).symm, by simpa using h, rfl⟩
  · obtain ⟨r₁, r₂, plain, rfl, h1, h2⟩ := exists_cut_plain rfl h
    exact ⟨r₁, char '<' plain r₂, rfl, h1, by rw [shown, h2]⟩
  · obtain ⟨r₁, r₂, plain, rfl, h1, h2⟩ := exists_cut_plain (c := '>') (a := a) (b := b) rfl
      (by simpa using h)
    exact ⟨r₁ ++ char '>' plain nil, r₂, by rw [append_assoc]; rfl, by simp [shown, h1], h2⟩

/-- No segment cuts a token. -/
lemma exists_segments {r : Nested} {t : Text} (h : r.shown = t) :
    ∃ rs, rs.map shown = segmentTexts t ∧ join rs = r := by
  induction t using segmentTexts.induct generalizing r with
  | case1 =>
    cases r with
    | nil => exact ⟨[], by simp [segmentTexts_nil], rfl⟩
    | char c plain r => simp [shown] at h
    | token n i r => simp [shown, Placeholders.token] at h
  | case2 t ih =>
    have hc : IsCut ('<' :: (closeTag t).1) (closeTag t).2 := by
      rcases (closeTag_cut t).2.2 with h | h | ⟨a, h⟩
      · exact .inl h
      · exact .inr (.inl h)
      · exact .inr (.inr ⟨'<' :: a, by rw [h]; rfl⟩)
    obtain ⟨r₁, r₂, rfl, h1, h2⟩ := exists_split (r := r) (by
      rw [h, List.cons_append, append_closeTag]) hc
    obtain ⟨rs, hrs, rfl⟩ := ih h2
    exact ⟨r₁ :: rs, by rw [segmentTexts_tag, List.map_cons, h1, hrs], rfl⟩
  | case3 c t hc ih =>
    obtain ⟨r₁, r₂, rfl, h1, h2⟩ := exists_split (r := r) (by
      rw [h, List.cons_append, List.takeWhile_append_dropWhile])
      (dropWhile_cut (c :: t.takeWhile (· != '<')) t)
    obtain ⟨rs, hrs, rfl⟩ := ih h2
    exact ⟨r₁ :: rs, by rw [segmentTexts_run hc, List.map_cons, h1, hrs], rfl⟩

lemma source_join (rs : List Nested) : (join rs).source = (rs.map source).flatten := by
  induction rs with
  | nil => rfl
  | cons r rs ih => rw [join_cons, source_append, ih, List.map_cons, List.flatten_cons]

lemma depth_le_join {r : Nested} {rs : List Nested} (h : r ∈ rs) : r.depth ≤ (join rs).depth := by
  induction rs with
  | nil => cases h
  | cons s rs ih =>
    rw [join_cons, depth_append]
    rcases List.mem_cons.1 h with rfl | h
    · exact le_max_left _ _
    · exact (ih h).trans (le_max_right _ _)

end Nested

lemma Placeholders.Holds.of_join {p : Placeholders} {r : Nested} {rs : List Nested}
    (h : p.Holds (Nested.join rs)) (hr : r ∈ rs) : p.Holds r := by
  induction rs with
  | nil => cases hr
  | cons s rs ih =>
    rw [Nested.join_cons, holds_append] at h
    rcases List.mem_cons.1 hr with rfl | hr
    · exact h.1
    · exact ih h.2 hr

/-- Over a table that holds a text, each of its parts is decoded to its own source. -/
lemma Placeholders.Backs.decode_join {p : Placeholders} {rs : List Nested}
    (h : p.Backs (Nested.join rs)) : ∀ r ∈ rs, p.decode r.shown = r.source :=
  fun _ hr => decodeWithin_shown ((Nested.depth_le_join hr).trans h.depth) (h.holds.of_join hr)

/-! ### Lines -/

lemma map_raw_numberLines (p : Placeholders) (line : Nat) (raws : List Text) :
    (numberLines p line raws).map Segment.raw = raws := by
  induction raws generalizing line with
  | nil => rfl
  | cons raw raws ih => simp [numberLines, ih]

lemma line_of_numberLines {p : Placeholders} {line : Nat} {raws : List Text}
    {before after : List Segment} {x : Segment}
    (h : numberLines p line raws = before ++ x :: after) :
    x.line = line + (before.map fun y => p.newlines y.raw).sum +
      if 0 < p.newlines x.raw then 1 else 0 := by
  induction raws generalizing line before with
  | nil => simp [numberLines] at h
  | cons raw raws ih =>
    cases before with
    | nil =>
      simp only [numberLines, List.nil_append, List.cons.injEq] at h
      obtain ⟨rfl, -⟩ := h
      simp only [List.map_nil, List.sum_nil]
      split <;> rfl
    | cons y before =>
      simp only [numberLines, List.cons_append, List.cons.injEq] at h
      obtain ⟨rfl, h⟩ := h
      rw [ih h, List.map_cons, List.sum_cons, Nat.add_assoc line]

lemma newlines_flatten (ts : List Text) :
    Text.newlines ts.flatten = (ts.map Text.newlines).sum := by
  induction ts with
  | nil => rfl
  | cons t ts ih =>
    rw [List.map_cons, List.sum_cons, ← ih]
    simp [Text.newlines]

/-- Decoded one by one, the segments make up the template, and the line feeds counted in one
are those it has once decoded. -/
lemma decode_segmentTexts {source : Text} (plain : tokenOpening ∉ source) :
    let hidden := Placeholders.empty.hideAll source
    ((segmentTexts hidden.1).map hidden.2.decode).flatten = source ∧
      ∀ raw ∈ segmentTexts hidden.1,
        hidden.2.newlines raw = Text.newlines (hidden.2.decode raw) := by
  intro hidden
  obtain ⟨r, hr, hs, hp⟩ := Placeholders.exists_backs_hideAll plain
  obtain ⟨rs, hrs, rfl⟩ := Nested.exists_segments hr
  have hdepth : ∀ x ∈ rs, x.depth ≤ hidden.2.size :=
    fun x hx => (Nested.depth_le_join hx).trans hp.depth
  rw [← hrs]
  constructor
  · rw [List.map_map, ← hs, Nested.source_join]
    exact congrArg List.flatten (List.map_congr_left hp.decode_join)
  · intro raw hraw
    obtain ⟨x, hx, rfl⟩ := List.mem_map.1 hraw
    rw [hp.decode_join x hx]
    exact Placeholders.newlinesWithin_shown (hdepth x hx) (hp.holds.of_join hx)

namespace Scanned

/-- The text of a segment in the template. -/
def decoded (scanned : Scanned) (s : Segment) : Text := scanned.placeholders.decode s.raw

/-- A template taken apart without loss: the segments make up the hidden template and, decoded,
the template; no run of text follows another; and a segment stands on the line that the line
feeds before it lead to, or on the next one if it holds line feeds itself. -/
structure Covers (scanned : Scanned) (source : Text) : Prop where
  raws : (scanned.segments.map Segment.raw).flatten = (Placeholders.empty.hideAll source).1
  texts : (scanned.segments.map scanned.decoded).flatten = source
  form : ∀ s ∈ scanned.segments, IsSegment s.raw
  alternate : (scanned.segments.map Segment.raw).IsChain
    fun a b => a.head? = some '<' ∨ b.head? = some '<'
  lines : ∀ before s after, scanned.segments = before ++ s :: after →
    s.line = 1 + Text.newlines (before.map scanned.decoded).flatten +
      if '\n' ∈ scanned.decoded s then 1 else 0

section

variable (source : Text)

lemma map_raw_ofSource : (ofSource source).segments.map Segment.raw =
    segmentTexts (Placeholders.empty.hideAll source).1 := map_raw_numberLines _ 1 _

lemma raw_mem_segmentTexts {s : Segment} (hs : s ∈ (ofSource source).segments) :
    s.raw ∈ segmentTexts (Placeholders.empty.hideAll source).1 :=
  map_raw_ofSource source ▸ List.mem_map_of_mem hs

end

/-- Decoded, the segments make up the template. -/
lemma flatten_decoded {source : Text} (plain : tokenOpening ∉ source) :
    ((ofSource source).segments.map (ofSource source).decoded).flatten = source := by
  have hmap : (ofSource source).segments.map (ofSource source).decoded =
      ((ofSource source).segments.map Segment.raw).map (ofSource source).placeholders.decode := by
    rw [List.map_map]
    rfl
  rw [hmap, map_raw_ofSource]
  exact (decode_segmentTexts plain).1

/-- A segment stands on the line that the line feeds before it lead to, or on the next one if it
holds line feeds itself. -/
lemma line_ofSource {source : Text} (plain : tokenOpening ∉ source) (before : List Segment)
    (s : Segment) (after : List Segment) (h : (ofSource source).segments = before ++ s :: after) :
    s.line = 1 + Text.newlines (before.map (ofSource source).decoded).flatten +
      if '\n' ∈ (ofSource source).decoded s then 1 else 0 := by
  set scanned := ofSource source with hscanned
  have hcount : ∀ x ∈ scanned.segments,
      scanned.placeholders.newlines x.raw = Text.newlines (scanned.decoded x) :=
    fun x hx => (decode_segmentTexts plain).2 _ (raw_mem_segmentTexts source hx)
  have hbefore : (before.map fun x => scanned.placeholders.newlines x.raw).sum =
      Text.newlines (before.map scanned.decoded).flatten := by
    rw [newlines_flatten, List.map_map]
    exact congrArg List.sum (List.map_congr_left fun x hx => hcount x (by simp [h, hx]))
  have hs : 0 < scanned.placeholders.newlines s.raw ↔ '\n' ∈ scanned.decoded s := by
    rw [hcount s (by simp [h]), Text.newlines, List.count_pos_iff]
  have hline := line_of_numberLines (p := scanned.placeholders) h
  simp only [hs, hbefore] at hline
  exact hline

/-- **A template is its segments.** -/
theorem ofSource_covers (source : Text) (plain : tokenOpening ∉ source) :
    (ofSource source).Covers source := by
  refine ⟨?raws, ?texts, ?form, ?alternate, ?lines⟩
  case raws => rw [map_raw_ofSource, flatten_segmentTexts]
  case texts => exact flatten_decoded plain
  case form => exact fun s hs => isSegment_of_mem (raw_mem_segmentTexts source hs)
  case alternate =>
    rw [map_raw_ofSource]
    exact isChain_segmentTexts _
  case lines => exact line_ofSource plain

/-- A tag of two rows, an expression of two rows, and a tag that another one breaks off. -/
theorem ofSource_covers_rows :
    tokenOpening ∉ ("\n<a x=\"1\n2\">\x7b\x7b y\n> 0 \x7d\x7d</a <b>" : Text) ∧
      (ofSource "\n<a x=\"1\n2\">\x7b\x7b y\n> 0 \x7d\x7d</a <b>").Covers
        "\n<a x=\"1\n2\">\x7b\x7b y\n> 0 \x7d\x7d</a <b>" :=
  ⟨by decide, ofSource_covers _ (by decide)⟩

end Scanned

end HtmlTemplate
