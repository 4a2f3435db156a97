import HtmlTemplate.Proofs.Markup.Passes
import HtmlTemplate.Proofs.Markup.Token

/-!
What is left visible after hiding.

Hiding only replaces rows of the text by tokens, so what can be seen afterwards could be seen
before, at a place that corresponds. Each pass leaves nothing of its own kind, and since a later
pass shows nothing new, nothing of any kind is left after the last.
-/

namespace HtmlTemplate

open Placeholders

namespace Span

/-- The second text is the first with tokens in place of some rows. Unless the place is `free`,
only a row that begins as hidden spans do is replaced. -/
inductive Hides : (free : Bool) → Text → Text → Prop
  | nil {free : Bool} : Hides free [] []
  | char {free : Bool} (c : Char) {t u : Text} (rest : Hides (freeAfter c) t u) :
      Hides free (c :: t) (c :: u)
  | row {free : Bool} (n : Nat) (r : Text) {t u : Text}
      (place : free = true ∨ ∃ x r', r = x :: r' ∧ startsSpan x = true)
      (rest : Hides false t u) : Hides free (r ++ t) (token n ++ u)

namespace Hides

variable {free : Bool} {t u : Text}

lemma append (w : Text) (h : ∀ free, Hides free t u) (free : Bool) :
    Hides free (w ++ t) (w ++ u) := by
  induction w generalizing free with
  | nil => exact h free
  | cons c w ih => exact .char c (ih _)

lemma insertAll (w : Text) (p : Placeholders) (h : ∀ free, Hides free t u)
    (place : free = true ∨ ∃ x w', w = x :: w' ∧ startsSpan x = true) :
    Hides free (w ++ t) (Text.unrows (p.insertAll (Text.rows w)).1 ++ u) := by
  induction w using Text.rows_induction generalizing free p with
  | single w hn =>
    rw [Text.rows_of_not_mem hn]
    simpa [Placeholders.insertAll] using
      Hides.row (p.issued + 1) w place (h false)
  | feed a b hn ih =>
    obtain ⟨r, rs, hr⟩ := List.exists_cons_of_ne_nil (Text.rows_ne_nil b)
    have hrest := @ih true (p.insert a).2 (.inl rfl)
    have hplace : free = true ∨ ∃ x r', a = x :: r' ∧ startsSpan x = true := by
      rcases place with h | ⟨x, w', hw, hx⟩
      · exact .inl h
      · cases a with
        | nil =>
          obtain rfl : '\n' = x := by simpa using congrArg List.head? hw
          cases hx
        | cons c a =>
          obtain rfl : c = x := by simpa using congrArg List.head? hw
          exact .inr ⟨c, a, rfl, hx⟩
    have := Hides.row (p.issued + 1) a hplace (.char '\n' hrest)
    rw [hr] at this
    rw [Text.rows_append_feed hn, hr]
    simpa [Placeholders.insertAll] using this

/-- A character that begins no token has been copied. -/
lemma of_cons {c : Char} (h : Hides free t (c :: u)) (hc : c ≠ tokenOpening) :
    ∃ t', t = c :: t' ∧ Hides (freeAfter c) t' u := by
  generalize hv : c :: u = v at h
  cases h with
  | nil => cases hv
  | char d rest =>
    rw [List.cons.injEq] at hv
    obtain ⟨rfl, rfl⟩ := hv
    exact ⟨_, rfl, rest⟩
  | row n r place rest =>
    rw [token, List.cons_append, List.cons.injEq] at hv
    exact absurd hv.1 hc

lemma of_append {w : Text} (h : Hides free t (w ++ u)) (hw : tokenOpening ∉ w) :
    ∃ t' free', t = w ++ t' ∧ Hides free' t' u := by
  induction w generalizing free t with
  | nil => exact ⟨t, free, rfl, h⟩
  | cons c w ih =>
    rw [List.mem_cons, not_or] at hw
    obtain ⟨t, rfl, ht⟩ := of_cons h (Ne.symm hw.1)
    obtain ⟨t, free', rfl, ht'⟩ := ih ht hw.2
    exact ⟨t, free', rfl, ht'⟩

/-- A character that no token holds has been copied, and divides both texts. -/
lemma of_append_cons {a : Text} {c : Char} (h : Hides free t (a ++ c :: u))
    (hc : inToken c = false) :
    ∃ b t', t = b ++ c :: t' ∧ Hides free b a ∧ Hides (freeAfter c) t' u := by
  generalize hv : a ++ c :: u = v at h
  induction h generalizing a with
  | nil => simp at hv
  | @char free d t v rest ih =>
    cases a with
    | nil =>
      rw [List.nil_append, List.cons.injEq] at hv
      obtain ⟨rfl, rfl⟩ := hv
      exact ⟨[], t, rfl, .nil, rest⟩
    | cons e a =>
      rw [List.cons_append, List.cons.injEq] at hv
      obtain ⟨rfl, hv⟩ := hv
      obtain ⟨b, t', rfl, hb, ht⟩ := ih hv
      exact ⟨e :: b, t', rfl, .char e hb, ht⟩
  | row n r place rest ih =>
    obtain ⟨a, rfl, hu⟩ := Text.exists_append_of_not_mem (not_mem_token hc n) hv.symm
    obtain ⟨b, t', rfl, hb, ht⟩ := ih hu.symm
    exact ⟨r ++ b, t', by simp, .row n r place hb, ht⟩

/-- Where not any row may be hidden, a first character has been copied, unless a hidden span
begins with it. -/
lemma head {c : Char} (h : Hides false t (c :: u)) :
    ∃ d t', t = d :: t' ∧ (d = c ∨ startsSpan d = true) := by
  generalize hv : c :: u = v at h
  cases h with
  | nil => cases hv
  | char d rest =>
    rw [List.cons.injEq] at hv
    exact ⟨d, _, rfl, .inl hv.1.symm⟩
  | row n r place rest =>
    obtain ⟨x, r', rfl, hx⟩ := place.resolve_left (by simp)
    exact ⟨x, _, rfl, .inr hx⟩

end Hides

/-- Hiding laid spans replaces rows by tokens. -/
lemma Laid.hides {ends : Char → Prop} {ss : List Span} (hl : Laid ends ss) (p : Placeholders)
    (free : Bool) : Hides free (sources ss) (p.hide ss).1 := by
  induction hl generalizing p free with
  | nil => exact .nil
  | shown t _ ih => exact Hides.append t (ih p) free
  | @marked x y m ss start _ _ ih =>
    rw [sources_hidden, Text.unrows_rows]
    exact Hides.insertAll _ p (ih _) (.inr ⟨x, m ++ [y], rfl, start⟩)
  | @value t v q ss quote _ ih =>
    have hq : freeAfter q = true := by simp [freeAfter, quote]
    have hvalue : Hides (freeAfter q) (v ++ q :: sources ss)
        (token (p.issued + 1) ++ q :: ((p.insert v).2.hide ss).1) :=
      .row _ v (.inl hq) (.char q (ih _ _))
    have := Hides.append t (fun _ => Hides.char q hvalue) free
    simpa [hide, Placeholders.insertAll, Placeholders.insert] using this

/-- Spans of which none is hidden leave text and table as they are. -/
lemma hide_of_shown {ss : List Span} (h : ∀ s ∈ ss, ∃ t, s = .shown t) (p : Placeholders) :
    p.hide ss = (sources ss, p) := by
  induction ss with
  | nil => rfl
  | cons s ss ih =>
    obtain ⟨t, rfl⟩ := h s List.mem_cons_self
    rw [hide, ih fun s hs => h s (List.mem_cons_of_mem _ hs)]
    rfl

lemma not_mem_unrows_insertAll {c : Char} (hc : inToken c = false) (hn : c ≠ '\n')
    (p : Placeholders) (rows : List Text) : c ∉ Text.unrows (p.insertAll rows).1 := by
  induction rows generalizing p with
  | nil => simp [insertAll, Text.unrows, Text.joinWith]
  | cons row rows ih =>
    have ih := ih (p.insert row).2
    cases rows with
    | nil => simpa [insertAll] using not_mem_token hc (p.issued + 1)
    | cons row' rows =>
      simp only [insertAll, Text.unrows_cons_cons, List.mem_append, List.mem_cons, not_or] at ih ⊢
      exact ⟨not_mem_token hc _, hn, ih⟩

lemma exists_unrows_insertAll (p : Placeholders) {rows : List Text} (h : rows ≠ []) :
    ∃ z, Text.unrows (p.insertAll rows).1 = tokenOpening :: z := by
  match rows, h with
  | [_], _ => exact ⟨_, rfl⟩
  | _ :: _ :: _, _ => exact ⟨_, rfl⟩

/-! ### Backslashes -/

/-- No backslash but at the end of a line. -/
def NoBackslash (t : Text) : Prop := ∀ a d b, t = a ++ '\\' :: d :: b → d = '\n' ∨ d = '\r'

lemma NoBackslash.hides {free : Bool} {t u : Text} (ht : NoBackslash t) (h : Hides free t u) :
    NoBackslash u := by
  rintro a d b rfl
  obtain ⟨a', t', rfl, -, h'⟩ := h.of_append_cons rfl
  obtain ⟨c, b', rfl, hc⟩ := Hides.head h'
  have hfeed := ht a' c b' rfl
  rcases hc with rfl | hc
  · exact hfeed
  · rcases hfeed with rfl | rfl <;> cases hc

lemma shown_of_noBackslash {t : Text} (h : NoBackslash t) :
    ∀ s ∈ backslashes t, ∃ u, s = .shown u := by
  induction t using backslashes.induct with
  | case1 => simp [backslashes]
  | case2 c => simp [backslashes]
  | case3 c d t hc _ =>
    obtain ⟨rfl, h1, h2⟩ := hc
    exact absurd (h [] d t rfl) (by simp [h1, h2])
  | case4 c d t hc ih =>
    rw [backslashes, if_neg hc]
    intro s hs
    rcases List.mem_cons.1 hs with rfl | hs
    · exact ⟨[c], rfl⟩
    · refine ih (fun a e b hab => h (c :: a) e b (by rw [hab]; rfl)) s hs

lemma noBackslash_hide (t : Text) (p : Placeholders) :
    NoBackslash (p.hide (backslashes t)).1 := by
  induction t using backslashes.induct generalizing p with
  | case1 => simp [NoBackslash, backslashes, hide]
  | case2 c =>
    rintro a d b h
    have := congrArg List.length h
    simp only [backslashes, hide, List.length_append, List.length_cons, List.length_nil] at this
    omega
  | case3 c d t hc ih =>
    rw [backslashes, if_pos hc]
    rintro a e b h
    obtain ⟨a', rfl, h'⟩ := Text.exists_append_of_not_mem
      (x := token (p.issued + 1)) (not_mem_token rfl _) (by simpa [hide, insertAll] using h)
    exact ih _ a' e b h'
  | case4 c d t hc ih =>
    rw [backslashes, if_neg hc]
    rintro a e b h
    simp only [hide, List.cons_append, List.nil_append] at h
    cases a with
    | nil =>
      rw [List.nil_append, List.cons.injEq] at h
      obtain ⟨rfl, h⟩ := h
      have hd : d = '\n' ∨ d = '\r' := by
        by_contra hne
        rw [not_or] at hne
        exact hc ⟨rfl, hne⟩
      have hh := (laid_backslashes (d :: t)).hides p false
      rw [sources_backslashes, h] at hh
      obtain ⟨x, t', hx, hxe⟩ := hh.head
      obtain ⟨rfl, -⟩ := List.cons.inj hx
      rcases hxe with rfl | hxe
      · exact hd
      · rcases hd with rfl | rfl <;> cases hxe
    | cons x a =>
      rw [List.cons_append, List.cons.injEq] at h
      exact ih p a e b h.2

/-! ### Raw elements -/

lemma opening_not_mem_of_toLower {w l : Text} (h : w.map Char.toLower = l)
    (hl : tokenOpening ∉ l) : tokenOpening ∉ w :=
  fun hm => hl (h ▸ List.mem_map_of_mem hm)

/-- A raw element that can be seen after hiding could be seen before. -/
lemma Hides.isSome_rawElement? {free : Bool} {t u : Text} (h : Hides free t u)
    (hu : (rawElement? u).isSome) : (rawElement? t).isSome := by
  obtain ⟨name, hname, o, d, x, w, y, rfl, ho, hd, hw⟩ := isSome_rawElement?_iff.1 hu
  have hplain : tokenOpening ∉ name := by
    simp only [rawElements, List.mem_cons, List.not_mem_nil, or_false] at hname
    rcases hname with rfl | rfl <;> decide
  have hdo : d ≠ tokenOpening := by
    rintro rfl
    cases hd
  have hopen : tokenOpening ∉ o := opening_not_mem_of_toLower ho (by
    rw [List.mem_cons, not_or]
    exact ⟨by decide, hplain⟩)
  obtain ⟨c, w, rfl, hc, hw'⟩ := List.map_eq_cons_iff.1 (hw.trans (List.cons_append ..))
  obtain rfl := eq_of_toLower hc rfl
  have hclose : tokenOpening ∉ w := opening_not_mem_of_toLower hw' (by
    simp only [List.mem_cons, List.mem_append, List.not_mem_nil, or_false, not_or]
    exact ⟨⟨by decide, hplain⟩, by decide⟩)
  -- the opening tag, the character after its name, and the closing tag, in this order
  obtain ⟨t, _, rfl, h₁⟩ := h.of_append hopen
  obtain ⟨t, rfl, h₂⟩ := h₁.of_cons hdo
  rw [List.append_assoc, List.cons_append] at h₂
  obtain ⟨x', t, rfl, -, h₃⟩ := h₂.of_append_cons rfl
  obtain ⟨y', _, rfl, -⟩ := h₃.of_append hclose
  exact isSome_rawElement?_iff.2 ⟨name, hname, o, d, x', '<' :: w, y', by simp, ho, hd, hw⟩

/-- No raw element begins anywhere. -/
def NoRawElement (t : Text) : Prop := ∀ a b, t = a ++ b → rawElement? b = none

lemma exists_cons_of_rawElement? {b : Text} (h : (rawElement? b).isSome) : ∃ b', b = '<' :: b' := by
  obtain ⟨⟨x, y⟩, hxy⟩ := Option.isSome_iff_exists.1 h
  obtain ⟨m, rfl⟩ := eq_of_rawElement? hxy
  exact ⟨_, (append_rawElement? hxy).1.symm⟩

lemma NoRawElement.hides {free : Bool} {t u : Text} (ht : NoRawElement t) (h : Hides free t u) :
    NoRawElement u := by
  rintro a b rfl
  by_contra hb
  rw [← ne_eq, Option.ne_none_iff_isSome] at hb
  obtain ⟨b, rfl⟩ := exists_cons_of_rawElement? hb
  obtain ⟨a', t', rfl, -, h'⟩ := h.of_append_cons rfl
  have hbracket : Hides false ('<' :: t') ('<' :: b) := .char '<' h'
  have := hbracket.isSome_rawElement? hb
  simp [ht a' _ rfl] at this

lemma shown_of_noRawElement {t : Text} (h : NoRawElement t) :
    ∀ s ∈ rawText t, ∃ u, s = .shown u := by
  induction t using rawText.induct with
  | case1 => simp [rawText]
  | case2 c t a b hab =>
    have := h [] (c :: t) rfl
    simp [hab] at this
  | case3 c t hab ih =>
    rw [rawText_of_none hab]
    intro s hs
    rcases List.mem_cons.1 hs with rfl | hs
    · exact ⟨[c], rfl⟩
    · exact ih (fun a b hab => h (c :: a) b (by rw [hab]; rfl)) s hs

lemma noRawElement_hide (t : Text) (p : Placeholders) :
    NoRawElement (p.hide (rawText t)).1 := by
  induction t using rawText.induct generalizing p with
  | case1 =>
    rintro a b h
    obtain ⟨-, rfl⟩ : a = [] ∧ b = [] := by simpa [rawText, hide] using h
    rfl
  | case2 c t x y hxy _ ih =>
    rw [rawText_of_some hxy]
    rintro a b h
    by_contra hb
    rw [← ne_eq, Option.ne_none_iff_isSome] at hb
    obtain ⟨b, rfl⟩ := exists_cons_of_rawElement? hb
    obtain ⟨a', rfl, h'⟩ := Text.exists_append_of_not_mem
      (not_mem_unrows_insertAll rfl (by decide) _ _) h
    simp [ih _ a' _ h'] at hb
  | case3 c t hct ih =>
    have hh := (laid_rawText (c :: t)).hides p false
    rw [sources_rawText, rawText_of_none hct] at hh
    rw [rawText_of_none hct]
    rintro a b h
    cases a with
    | nil =>
      by_contra hb
      rw [← ne_eq, Option.ne_none_iff_isSome] at hb
      rw [h] at hh
      have := hh.isSome_rawElement? hb
      simp [hct] at this
    | cons d a =>
      simp only [hide, List.cons_append, List.nil_append, List.cons.injEq] at h
      exact ih p a b h.2

/-! ### Expressions -/

/-- An expression that can be seen after hiding could be seen before. -/
lemma first?_eq_none_of_hides {free : Bool} {t u : Text} (ht : Chunk.first? t = none)
    (h : Hides free t u) : Chunk.first? u = none := by
  rw [Chunk.first?_eq_none_iff] at ht ⊢
  rintro a c x y rfl
  have h₁ : Hides free t (a ++ '{' :: '{' :: (c :: x ++ '}' :: '}' :: y)) := by
    simpa [openBraces, closeBraces] using h
  obtain ⟨a', t, rfl, -, h₂⟩ := h₁.of_append_cons rfl
  obtain ⟨t, rfl, h₃⟩ := h₂.of_cons (by decide)
  obtain ⟨z, t, rfl, hz, h₄⟩ := h₃.of_append_cons rfl
  obtain ⟨y', rfl, -⟩ := h₄.of_cons (by decide)
  -- the body had a first character before, for none of its rows was hidden right there
  obtain ⟨d, x', rfl, -⟩ := Hides.head hz
  exact ht a' d x' y' (by simp [openBraces, closeBraces])

lemma first?_hide_expressions (t : Text) (p : Placeholders) :
    Chunk.first? (p.hide (expressions t)).1 = none := by
  induction t using Chunk.chunks.induct generalizing p with
  | case1 t h =>
    rw [expressions_of_none h]
    simpa [hide] using h
  | case2 t a b c h _ ih =>
    obtain ⟨-, hfirst, -⟩ := Chunk.first?_eq_some_iff.1 h
    have ha : ¬ openBraces <:+: a :=
      fun hopen => hfirst (hopen.trans (List.prefix_append a ['{']).isInfix)
    rw [expressions_of_some h, Chunk.first?_eq_none_iff]
    rintro a' d x y he
    obtain ⟨z, hz⟩ := exists_unrows_insertAll p (Text.rows_ne_nil (Chunk.expression b).source)
    have hbrace : '{' ∉ Text.unrows (p.insertAll (Text.rows (Chunk.expression b).source)).1 :=
      not_mem_unrows_insertAll rfl (by decide) _ _
    have ih := Chunk.first?_eq_none_iff.1
      (ih (p.insertAll (Text.rows (Chunk.expression b).source)).2)
    simp only [hide, openBraces, List.append_assoc, List.cons_append, List.nil_append] at he
    rcases List.append_eq_append_iff.1 he with ⟨a₂, rfl, h₂⟩ | ⟨a₂, rfl, h₂⟩
    · -- the braces stand behind the tokens
      obtain ⟨a₃, rfl, h₃⟩ := Text.exists_append_of_not_mem hbrace h₂
      exact ih a₃ d x y (by simpa [openBraces] using h₃)
    · -- they begin in the literal text, which has no two braces and meets a token
      rw [hz] at h₂
      rcases a₂ with _ | ⟨x₁, _ | ⟨x₂, a₃⟩⟩
      · exact absurd (List.cons.inj h₂).1 (by decide)
      · exact absurd (List.cons.inj (List.cons.inj h₂).2).1 (by decide)
      · simp only [List.cons_append, List.cons.injEq] at h₂
        obtain ⟨rfl, rfl, -⟩ := h₂
        exact ha ⟨a', a₃, by simp [openBraces]⟩

/-! ### Quoted values -/

/-- A quoted value that can be seen after hiding could be seen before. -/
lemma quotedValue?_eq_none_of_hides {free : Bool} {t u : Text} (ht : quotedValue? t = none)
    (h : Hides free t u) : quotedValue? u = none := by
  by_contra hu
  rw [← ne_eq, Option.ne_none_iff_exists'] at hu
  obtain ⟨⟨space, q, value, rest⟩, hu⟩ := hu
  obtain ⟨rfl, hs, hq, -⟩ := quotedValue?_eq_some_iff.1 hu
  have hplain : inToken q = false := by rcases isQuote_iff.1 hq with rfl | rfl <;> rfl
  obtain ⟨t, _, rfl, h₁⟩ := h.of_append fun hm => absurd (hs _ hm) (by decide)
  obtain ⟨t, rfl, h₂⟩ := h₁.of_cons (by rintro rfl; cases hq)
  obtain ⟨v, t, rfl, -, -⟩ := h₂.of_append_cons hplain
  obtain ⟨v', rest', hv, hnot⟩ := List.eq_append_cons_of_mem (show q ∈ v ++ q :: t by simp)
  have := quotedValue?_eq_some_iff.2 ⟨congrArg (fun w => space ++ q :: w) hv, hs, hq, hnot⟩
  rw [ht] at this
  cases this

/-- After quoted values are hidden, the values that can be seen are single tokens. -/
lemma hidden_quotedValues_hide (t : Text) (p : Placeholders) :
    ∀ rows, .hidden rows ∈ quotedValues (p.hide (quotedValues t)).1 → ∃ n, rows = [token n] := by
  induction t using quotedValues.induct generalizing p with
  | case1 => simp [quotedValues, hide]
  | case2 t space q value rest h _ ih =>
    obtain ⟨-, hs, hq, -⟩ := quotedValue?_eq_some_iff.1 h
    have hplain : inToken q = false := by rcases isQuote_iff.1 hq with rfl | rfl <;> rfl
    have hv : quotedValue? (space ++ q :: (token (p.issued + 1) ++
        q :: ((p.insert value).2.hide (quotedValues rest)).1)) =
        some (space, q, token (p.issued + 1), _) :=
      quotedValue?_eq_some_iff.2 ⟨rfl, hs, hq, not_mem_token hplain _⟩
    have he : (p.hide (quotedValues ('=' :: t))).1 = '=' :: (space ++ q :: (token (p.issued + 1) ++
        q :: ((p.insert value).2.hide (quotedValues rest)).1)) := by
      simp [quotedValues_of_some h, hide, insertAll]
    rw [he, quotedValues_of_some hv]
    intro rows hrows
    simp only [List.mem_cons, Span.hidden.injEq, reduceCtorEq, false_or] at hrows
    rcases hrows with rfl | hrows
    · exact ⟨_, rfl⟩
    · exact ih _ rows hrows
  | case3 t h ih =>
    have hh := (laid_quotedValues t).hides p false
    rw [sources_quotedValues] at hh
    rw [quotedValues_of_none h]
    simp only [hide, List.singleton_append]
    rw [quotedValues_of_none (quotedValue?_eq_none_of_hides h hh)]
    simpa using ih p
  | case4 c t hc ih =>
    rw [quotedValues_of_ne hc]
    simp only [hide, List.singleton_append]
    rw [quotedValues_of_ne hc]
    simpa using ih p

/-! ### All passes -/

/-- **Nothing is left to hide.** After the four passes neither a backslash pair nor a raw element
nor an expression can be seen, so hiding them again, with any table, does nothing; and every
quoted value that can be seen is a single token. -/
theorem hide_hideAll (source : Text) :
    let e := (empty.hideAll source).1
    (∀ p : Placeholders, p.hide (backslashes e) = (e, p)) ∧
      (∀ p : Placeholders, p.hide (rawText e) = (e, p)) ∧
      (∀ p : Placeholders, p.hide (expressions e) = (e, p)) ∧
      ∀ rows, .hidden rows ∈ quotedValues e → ∃ n, rows = [token n] := by
  intro e
  set h₁ := empty.hide (backslashes source) with hh₁
  set h₂ := h₁.2.hide (rawText h₁.1) with hh₂
  set h₃ := h₂.2.hide (expressions h₂.1) with hh₃
  have he : e = (h₃.2.hide (quotedValues h₃.1)).1 := rfl
  -- what each later pass does to the text
  have r₂ : Hides false h₁.1 h₂.1 := by
    simpa [sources_rawText] using (laid_rawText h₁.1).hides h₁.2 false
  have r₃ : Hides false h₂.1 h₃.1 := by
    simpa [sources_expressions] using (laid_expressions h₂.1).hides h₂.2 false
  have r₄ : Hides false h₃.1 e := by
    rw [he]
    simpa [sources_quotedValues] using (laid_quotedValues h₃.1).hides h₃.2 false
  refine ⟨fun p => ?_, fun p => ?_, fun p => ?_, ?_⟩
  · have hn : NoBackslash e := (((noBackslash_hide source empty).hides r₂).hides r₃).hides r₄
    rw [hide_of_shown (shown_of_noBackslash hn), sources_backslashes]
  · have hn : NoRawElement e := ((noRawElement_hide h₁.1 h₁.2).hides r₃).hides r₄
    rw [hide_of_shown (shown_of_noRawElement hn), sources_rawText]
  · have hn := first?_eq_none_of_hides (first?_hide_expressions h₂.1 h₂.2) r₄
    rw [expressions_of_none hn]
    simp [hide]
  · rw [he]
    exact hidden_quotedValues_hide h₃.1 h₃.2

end Span

end HtmlTemplate
