import Mathlib.Data.List.TakeWhile
import HtmlTemplate.Markup.Hiding
import HtmlTemplate.Proofs.Text.Cut
import HtmlTemplate.Proofs.Text.Rows

/-!
What the passes look for, and how the spans they cut lie.

Each search is settled by the form of the text it succeeds on. From this follows the one fact
about all passes: their spans make up the text, and every hidden span either begins and ends with
one of a few characters or is a value between quotes.
-/

namespace HtmlTemplate

namespace Span

/-! ### Raw elements -/

/-- Only letters have another lower case. -/
lemma eq_of_toLower {c d : Char} (h : c.toLower = d) (hd : d.isLower = false) : c = d := by
  unfold Char.toLower at h
  split at h
  · next hc =>
    subst h
    have hlower (e : Char) : e.isLower = (decide (e.val ≥ 'a'.val) && decide (e.val ≤ 'z'.val)) :=
      rfl
    simp only [hlower, ge_iff_le, Bool.and_eq_false_imp, decide_eq_true_eq,
      decide_eq_false_iff_not, UInt32.not_le] at hd
    exfalso
    have h1 := hc.1
    have h2 := hc.2
    simp only [ge_iff_le, UInt32.le_iff_toNat_le, UInt32.lt_iff_toNat_lt, UInt32.toNat_add] at *
    have e1 : ('A' : Char).val.toNat = 65 := rfl
    have e2 : ('Z' : Char).val.toNat = 90 := rfl
    have e3 : ('a' : Char).val.toNat = 97 := rfl
    have e4 : ('z' : Char).val.toNat = 122 := rfl
    have e5 : (('a' : Char).val - ('A' : Char).val).toNat = 32 := rfl
    omega
  · exact h

lemma afterAnyCase?_eq_some_iff {p t rest : Text} :
    afterAnyCase? p t = some rest ↔ ∃ w, t = w ++ rest ∧ w.map Char.toLower = p := by
  unfold afterAnyCase?
  constructor
  · intro h
    split at h
    · next hp =>
      rw [Option.some.injEq] at h
      exact ⟨t.take p.length, by rw [← h, List.take_append_drop], hp⟩
    · cases h
  · rintro ⟨w, rfl, rfl⟩
    simp

lemma eq_of_cutAnyCase? {p t a b : Text} (h : cutAnyCase? p t = some (a, b)) :
    ∃ x w, a = x ++ w ∧ w.map Char.toLower = p := by
  induction t generalizing a with
  | nil => simp [cutAnyCase?] at h
  | cons c t ih =>
    unfold cutAnyCase? at h
    split at h
    · next rest hr =>
      simp only [Option.some.injEq, Prod.mk.injEq] at h
      obtain ⟨w, hw, rfl⟩ := afterAnyCase?_eq_some_iff.1 hr
      exact ⟨[], w, by simp [← h.1, hw], rfl⟩
    · obtain ⟨⟨x, y⟩, hx, he⟩ := Option.map_eq_some_iff.1 h
      simp only [Prod.mk.injEq] at he
      obtain ⟨rfl, rfl⟩ := he
      obtain ⟨x', w, rfl, hw⟩ := ih hx
      exact ⟨c :: x', w, rfl, hw⟩

lemma isSome_cutAnyCase? (x : Text) {w : Text} (y : Text) (hw : w ≠ []) :
    (cutAnyCase? (w.map Char.toLower) (x ++ w ++ y)).isSome := by
  have hfront (t : Text) : afterAnyCase? (w.map Char.toLower) (w ++ t) = some t :=
    afterAnyCase?_eq_some_iff.2 ⟨w, rfl, rfl⟩
  induction x with
  | nil =>
    obtain ⟨c, w', rfl⟩ := List.exists_cons_of_ne_nil hw
    rw [List.nil_append, List.cons_append, cutAnyCase?, ← List.cons_append, hfront]
    rfl
  | cons c x ih =>
    rw [List.cons_append, List.cons_append, cutAnyCase?]
    split
    · rfl
    · simpa using ih

/-- A text begins with a raw element if it has the form of one. -/
lemma isSome_rawElement?_iff {t : Text} :
    (rawElement? t).isSome ↔ ∃ name ∈ rawElements, ∃ o d x w y,
      t = o ++ d :: (x ++ w ++ y) ∧ o.map Char.toLower = '<' :: name ∧ endsRawName d = true ∧
        w.map Char.toLower = ('<' :: '/' :: name) ++ ['>'] := by
  rw [rawElement?, List.findSome?_isSome_iff]
  refine exists_congr fun name => and_congr_right fun _ => ?_
  unfold rawElementNamed?
  constructor
  · intro h
    split at h
    · next d body hd =>
      split at h
      · next he =>
        obtain ⟨o, rfl, ho⟩ := afterAnyCase?_eq_some_iff.1 hd
        rw [Option.isSome_map] at h
        obtain ⟨⟨a, y⟩, ha⟩ := Option.isSome_iff_exists.1 h
        obtain ⟨x, w, rfl, hw⟩ := eq_of_cutAnyCase? ha
        exact ⟨o, d, x, w, y, by rw [append_cutAnyCase? ha], ho, he, hw⟩
      · simp at h
    · simp at h
  · rintro ⟨o, d, x, w, y, rfl, ho, he, hw⟩
    have hf : afterAnyCase? ('<' :: name) (o ++ d :: (x ++ w ++ y)) = some (d :: (x ++ w ++ y)) :=
      afterAnyCase?_eq_some_iff.2 ⟨o, rfl, ho⟩
    have hne : w ≠ [] := by
      rintro rfl
      simp at hw
    simp only [hf, he, if_true, Option.isSome_map, ← hw]
    exact isSome_cutAnyCase? x y hne

/-- A raw element stands between angle brackets. -/
lemma eq_of_rawElement? {t a b : Text} (h : rawElement? t = some (a, b)) :
    ∃ m, a = '<' :: m ++ ['>'] := by
  obtain ⟨name, -, hn⟩ := List.exists_of_findSome?_eq_some h
  unfold rawElementNamed? at hn
  split at hn
  · next d body hd =>
    split at hn
    · obtain ⟨⟨x, y⟩, hx, he⟩ := Option.map_eq_some_iff.1 hn
      simp only [Prod.mk.injEq] at he
      obtain ⟨rfl, rfl⟩ := he
      obtain ⟨o, rfl, ho⟩ := afterAnyCase?_eq_some_iff.1 hd
      obtain ⟨c, o, rfl, hc, rfl⟩ := List.map_eq_cons_iff.1 ho
      obtain ⟨x, w, rfl, hw⟩ := eq_of_cutAnyCase? hx
      obtain ⟨w, l, rfl, -, hl⟩ := List.map_eq_append_iff.1 hw
      obtain ⟨z, rfl, hz⟩ := List.map_eq_singleton_iff.1 hl
      rw [eq_of_toLower hc rfl, eq_of_toLower hz rfl]
      exact ⟨o ++ d :: (x ++ w), by simp⟩
    · cases hn
  · cases hn

end Span

/-! ### Expressions -/

namespace Chunk

variable {t a body rest : Text}

/-- The body of an expression has one character, and all up to the next two braces. -/
def IsBody (body : Text) : Prop := ∃ c t, body = c :: t ∧ ¬ closeBraces <:+: t ++ ['}']

lemma first?_eq_some_iff :
    first? t = some (a, body, rest) ↔
      t = a ++ (expression body).source ++ rest ∧ ¬ openBraces <:+: a ++ ['{'] ∧ IsBody body := by
  have hopen {u v w : Text} : Text.cut? openBraces u = some (v, w) ↔
      u = v ++ openBraces ++ w ∧ ¬ openBraces <:+: v ++ ['{'] :=
    Text.cut?_eq_some_iff (p := ['{'])
  have hclose {u v w : Text} : Text.cut? closeBraces u = some (v, w) ↔
      u = v ++ closeBraces ++ w ∧ ¬ closeBraces <:+: v ++ ['}'] :=
    Text.cut?_eq_some_iff (p := ['}'])
  constructor
  · intro h
    refine ⟨(append_first? h).symm, ?_⟩
    unfold first? at h
    split at h
    · next before c u hu =>
      split at h
      · next inner after hr =>
        simp only [Option.some.injEq, Prod.mk.injEq] at h
        obtain ⟨rfl, rfl, rfl⟩ := h
        exact ⟨(hopen.1 hu).2, c, inner, rfl, (hclose.1 hr).2⟩
      · cases h
    · cases h
  · rintro ⟨rfl, hfirst, c, u, rfl, hlast⟩
    have hu : Text.cut? openBraces (a ++ (expression (c :: u)).source ++ rest) =
        some (a, c :: (u ++ closeBraces ++ rest)) :=
      hopen.2 ⟨by simp [source], hfirst⟩
    have hr : Text.cut? closeBraces (u ++ closeBraces ++ rest) = some (u, rest) :=
      hclose.2 ⟨rfl, hlast⟩
    rw [first?, hu]
    dsimp only
    rw [hr]

/-- There is an expression if some braces open and, after one character or more, some close. -/
lemma first?_eq_none_iff :
    first? t = none ↔ ∀ a c x y, t ≠ a ++ openBraces ++ c :: (x ++ closeBraces ++ y) := by
  constructor
  · rintro h a c x y rfl
    set t := a ++ openBraces ++ c :: (x ++ closeBraces ++ y) with ht
    have hsome : (Text.cut? openBraces t).isSome := Text.isSome_cut? ⟨a, _, ht.symm⟩
    obtain ⟨⟨a₀, r⟩, hc⟩ := Option.isSome_iff_exists.1 hsome
    have hle := Text.length_le_of_cut? hc ht
    have hr : c :: (x ++ closeBraces ++ y) <:+ r := by
      have h1 : r <:+ t := ⟨_, Text.append_cut? hc⟩
      have h2 : c :: (x ++ closeBraces ++ y) <:+ t := ⟨_, ht.symm⟩
      refine List.suffix_of_suffix_length_le h2 h1 ?_
      have := congrArg List.length ((Text.append_cut? hc).trans ht)
      simp only [List.length_append] at this ⊢
      omega
    obtain ⟨z, rfl⟩ := hr
    have hclose : ∃ d r', z ++ c :: (x ++ closeBraces ++ y) = d :: r' ∧ closeBraces <:+: r' := by
      cases z with
      | nil => exact ⟨c, _, rfl, x, y, rfl⟩
      | cons d z => exact ⟨d, _, rfl, z ++ c :: x, y, by simp⟩
    obtain ⟨d, r', he, hi⟩ := hclose
    obtain ⟨⟨body, rest⟩, hb⟩ := Option.isSome_iff_exists.1 (Text.isSome_cut? hi)
    rw [he] at hc
    simp [first?, hc, hb] at h
  · intro h
    cases hf : first? t with
    | none => rfl
    | some e =>
      obtain ⟨a, b, c⟩ := e
      obtain ⟨ht, -, d, x, rfl, -⟩ := first?_eq_some_iff.1 hf
      exact absurd (by simp [ht, source]) (h a d x c)

/-- There is no expression in a part of a text without. -/
lemma first?_of_infix (h : first? t = none) (ha : a <:+: t) : first? a = none := by
  rw [first?_eq_none_iff] at h ⊢
  rintro v c x y rfl
  obtain ⟨u, w, rfl⟩ := ha
  exact h (u ++ v) c x (y ++ w) (by simp)

lemma first?_nil : first? [] = none := rfl

lemma first?_of_no_braces (h : ¬ openBraces <:+: t) : first? t = none := by
  rw [first?_eq_none_iff]
  rintro a c x y rfl
  exact h ⟨a, _, rfl⟩

lemma chunks_of_none (h : first? t = none) : chunks t = [literal t] := by
  rw [chunks]
  split
  · rfl
  · next h' =>
    rw [h] at h'
    cases h'

lemma chunks_of_some (h : first? t = some (a, body, rest)) :
    chunks t = literal a :: expression body :: chunks rest := by
  rw [chunks]
  split
  · next h' =>
    rw [h] at h'
    cases h'
  · next h' =>
    rw [h, Option.some.injEq, Prod.mk.injEq, Prod.mk.injEq] at h'
    rw [h'.1, h'.2.1, h'.2.2]

end Chunk

/-! ### Quoted values -/

namespace Span

lemma isQuote_iff {c : Char} : isQuote c = true ↔ c = '"' ∨ c = '\'' := by
  simp [isQuote]

lemma not_isSpace_of_isQuote {c : Char} (h : isQuote c = true) : Text.isSpace c = false := by
  rcases isQuote_iff.1 h with rfl | rfl <;> decide

lemma quotedValue?_eq_some_iff {t space value rest : Text} {q : Char} :
    quotedValue? t = some (space, q, value, rest) ↔
      t = space ++ q :: (value ++ q :: rest) ∧ (∀ c ∈ space, Text.isSpace c = true) ∧
        isQuote q = true ∧ q ∉ value := by
  constructor
  · intro h
    unfold quotedValue? at h
    split at h
    · cases h
    · next q₁ u hu =>
      split at h
      · next hq =>
        split at h
        · cases h
        · next q₂ rest₁ hv =>
          simp only [Option.some.injEq, Prod.mk.injEq] at h
          obtain ⟨rfl, rfl, rfl, rfl⟩ := h
          have h2 : q₂ = q₁ := by
            have := List.head?_dropWhile_not (· != q₁) u
            simpa [hv] using this
          refine ⟨?_, ?_, hq, ?_⟩
          · rw [← h2, ← hv, h2, List.takeWhile_append_dropWhile, ← hu,
              List.takeWhile_append_dropWhile]
          · intro c hc
            exact List.mem_takeWhile_imp hc
          · intro hmem
            simpa using List.mem_takeWhile_imp hmem
      · cases h
  · rintro ⟨rfl, hs, hq, hv⟩
    have h1 : (space ++ q :: (value ++ q :: rest)).dropWhile Text.isSpace =
        q :: (value ++ q :: rest) := by
      rw [List.dropWhile_append_of_pos hs, List.dropWhile_cons_of_neg]
      simp [not_isSpace_of_isQuote hq]
    have h2 : (space ++ q :: (value ++ q :: rest)).takeWhile Text.isSpace = space := by
      rw [List.takeWhile_append_of_pos hs, List.takeWhile_cons_of_neg, List.append_nil]
      simp [not_isSpace_of_isQuote hq]
    have hne : ∀ c ∈ value, (c != q) = true := by
      intro c hc
      simp only [bne_iff_ne, ne_eq]
      rintro rfl
      exact hv hc
    have h3 : (value ++ q :: rest).dropWhile (· != q) = q :: rest := by
      rw [List.dropWhile_append_of_pos hne, List.dropWhile_cons_of_neg (by simp)]
    have h4 : (value ++ q :: rest).takeWhile (· != q) = value := by
      rw [List.takeWhile_append_of_pos hne, List.takeWhile_cons_of_neg (by simp),
        List.append_nil]
    simp [quotedValue?, h1, h2, h3, h4, hq]

/-! ### How the spans lie -/

/-- The characters that a hidden span begins with, values apart. -/
def startsSpan (c : Char) : Bool := c == '\\' || c == '<' || c == '{'

/-- The characters after which any row may be hidden. -/
def freeAfter (c : Char) : Bool := c == '\n' || isQuote c

/-- The spans of a pass: what is hidden begins with one of a few characters and ends with one
that satisfies `ends`, or it is a value between quotes. -/
inductive Laid (ends : Char → Prop) : List Span → Prop
  | nil : Laid ends []
  | shown (t : Text) {ss : List Span} (rest : Laid ends ss) : Laid ends (.shown t :: ss)
  | marked {x y : Char} (m : Text) {ss : List Span} (start : startsSpan x = true) (stop : ends y)
      (rest : Laid ends ss) : Laid ends (.hidden (Text.rows (x :: m ++ [y])) :: ss)
  | value (t v : Text) {q : Char} {ss : List Span} (quote : isQuote q = true)
      (rest : Laid ends ss) :
      Laid ends (.shown (t ++ [q]) :: .hidden [v] :: .shown [q] :: ss)

/-- The text that spans make up. -/
def sources (ss : List Span) : Text := ss.flatMap source

@[simp] lemma sources_nil : sources [] = [] := rfl

@[simp] lemma sources_shown (t : Text) (ss : List Span) :
    sources (.shown t :: ss) = t ++ sources ss := rfl

@[simp] lemma sources_hidden (rows : List Text) (ss : List Span) :
    sources (.hidden rows :: ss) = Text.unrows rows ++ sources ss := rfl

/-- The characters that end a hidden span of a pass over a text with tokens. -/
def EndsSpan (c : Char) : Prop := c = '>' ∨ c = '}'

lemma sources_backslashes (t : Text) : sources (backslashes t) = t := by
  induction t using backslashes.induct with
  | case1 => rfl
  | case2 c => rfl
  | case3 c d t h ih => simp [backslashes, h, ih]
  | case4 c d t h ih => simp [backslashes, h, ih]

lemma laid_backslashes (t : Text) : Laid (fun _ => True) (backslashes t) := by
  induction t using backslashes.induct with
  | case1 => exact .nil
  | case2 c => exact .shown [c] .nil
  | case3 c d t h ih =>
    have hrows : Text.rows ('\\' :: [] ++ [d]) = [['\\', d]] :=
      Text.rows_of_not_mem (by simp [Ne.symm h.2.1])
    rw [backslashes, if_pos h, h.1, ← hrows]
    exact .marked [] rfl trivial ih
  | case4 c d t h ih =>
    rw [backslashes, if_neg h]
    exact .shown [c] ih

lemma rawText_of_some {c : Char} {t a b : Text} (h : rawElement? (c :: t) = some (a, b)) :
    rawText (c :: t) = .hidden (Text.rows a) :: rawText b := by
  rw [rawText]
  split
  · next a' b' h' =>
    rw [h, Option.some.injEq, Prod.mk.injEq] at h'
    rw [h'.1, h'.2]
  · next h' =>
    rw [h] at h'
    cases h'

lemma rawText_of_none {c : Char} {t : Text} (h : rawElement? (c :: t) = none) :
    rawText (c :: t) = .shown [c] :: rawText t := by
  rw [rawText]
  split
  · next h' =>
    rw [h] at h'
    cases h'
  · rfl

lemma sources_rawText (t : Text) : sources (rawText t) = t := by
  induction t using rawText.induct with
  | case1 => rw [rawText, sources_nil]
  | case2 c t a b h _ ih =>
    rw [rawText_of_some h, sources_hidden, Text.unrows_rows, ih, (append_rawElement? h).1]
  | case3 c t h ih =>
    rw [rawText_of_none h, sources_shown, ih, List.singleton_append]

lemma laid_rawText (t : Text) : Laid EndsSpan (rawText t) := by
  induction t using rawText.induct with
  | case1 =>
    rw [rawText]
    exact .nil
  | case2 c t a b h _ ih =>
    obtain ⟨m, rfl⟩ := eq_of_rawElement? h
    rw [rawText_of_some h]
    exact .marked m rfl (.inl rfl) ih
  | case3 c t h ih =>
    rw [rawText_of_none h]
    exact .shown [c] ih

lemma expressions_of_none {t : Text} (h : Chunk.first? t = none) : expressions t = [.shown t] := by
  rw [expressions, Chunk.chunks_of_none h]
  rfl

lemma expressions_of_some {t a b c : Text} (h : Chunk.first? t = some (a, b, c)) :
    expressions t =
      .shown a :: .hidden (Text.rows (Chunk.expression b).source) :: expressions c := by
  rw [expressions, Chunk.chunks_of_some h]
  rfl

lemma sources_expressions (t : Text) : sources (expressions t) = t := by
  induction t using Chunk.chunks.induct with
  | case1 t h => rw [expressions_of_none h, sources_shown, sources_nil, List.append_nil]
  | case2 t a b c h _ ih =>
    rw [expressions_of_some h, sources_shown, sources_hidden, Text.unrows_rows, ih,
      ← List.append_assoc, Chunk.append_first? h]

lemma laid_expressions (t : Text) : Laid EndsSpan (expressions t) := by
  induction t using Chunk.chunks.induct with
  | case1 t h =>
    rw [expressions_of_none h]
    exact .shown t .nil
  | case2 t a b c h _ ih =>
    have he : (Chunk.expression b).source = '{' :: ('{' :: b ++ ['}']) ++ ['}'] := by
      simp [Chunk.source, openBraces, closeBraces]
    rw [expressions_of_some h, he]
    exact .shown a (.marked _ rfl (.inr rfl) ih)

lemma quotedValues_of_ne {c : Char} (hc : c ≠ '=') (t : Text) :
    quotedValues (c :: t) = .shown [c] :: quotedValues t := by
  rw [quotedValues, if_neg hc]

lemma quotedValues_of_none {t : Text} (h : quotedValue? t = none) :
    quotedValues ('=' :: t) = .shown ['='] :: quotedValues t := by
  rw [quotedValues, if_pos rfl]
  split
  · next h' =>
    rw [h] at h'
    cases h'
  · rfl

lemma quotedValues_of_some {t space value rest : Text} {q : Char}
    (h : quotedValue? t = some (space, q, value, rest)) :
    quotedValues ('=' :: t) =
      .shown ('=' :: space ++ [q]) :: .hidden [value] :: .shown [q] :: quotedValues rest := by
  rw [quotedValues, if_pos rfl]
  split
  · next h' =>
    rw [h] at h'
    simp only [Option.some.injEq, Prod.mk.injEq] at h'
    obtain ⟨rfl, rfl, rfl, rfl⟩ := h'
    rfl
  · next h' =>
    rw [h] at h'
    cases h'

lemma sources_quotedValues (t : Text) : sources (quotedValues t) = t := by
  induction t using quotedValues.induct with
  | case1 => rw [quotedValues, sources_nil]
  | case2 t space q value rest h _ ih =>
    obtain ⟨rfl, -, -, -⟩ := quotedValue?_eq_some_iff.1 h
    simp [quotedValues_of_some h, ih]
  | case3 t h ih =>
    rw [quotedValues_of_none h, sources_shown, ih, List.singleton_append]
  | case4 c t hc ih =>
    rw [quotedValues_of_ne hc, sources_shown, ih, List.singleton_append]

lemma laid_quotedValues (t : Text) : Laid EndsSpan (quotedValues t) := by
  induction t using quotedValues.induct with
  | case1 =>
    rw [quotedValues]
    exact .nil
  | case2 t space q value rest h _ ih =>
    rw [quotedValues_of_some h]
    exact .value _ value (quotedValue?_eq_some_iff.1 h).2.2.1 ih
  | case3 t h ih =>
    rw [quotedValues_of_none h]
    exact .shown _ ih
  | case4 c t hc ih =>
    rw [quotedValues_of_ne hc]
    exact .shown _ ih

end Span

end HtmlTemplate
