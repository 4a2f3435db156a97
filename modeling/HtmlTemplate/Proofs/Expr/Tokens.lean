import HtmlTemplate.Proofs.Expr.Lexing
import HtmlTemplate.Proofs.Expr.Parse

/-!
The tokens of a text, wherever it stands.

No token but a string runs on into white space or a closing parenthesis, and a string has its end in
itself. So the tokens of a text are found again in front of either, and white space around a text
adds none.
-/

namespace HtmlTemplate

open Text

namespace Lexer

variable {c : Char} {t u b : Text} {us vs : List Token} {token : Token} {width : Nat}

/-- The tokens that a text is cut into, whatever the place that it begins at. -/
inductive Lexes : Text → List Token → Prop
  | nil : Lexes [] []
  | space {c : Char} {t : Text} {us : List Token} (blank : isSpace c = true) (rest : Lexes t us) :
      Lexes (c :: t) us
  | token {c : Char} {t : Text} {token : Token} {width : Nat} {us : List Token}
      (visible : isSpace c = false) (first : scan c t = .ok (token, width))
      (rest : Lexes (t.drop (width - 1)) us) : Lexes (c :: t) (token :: us)

/-! ### Tokens and their places -/

lemma scan_ne_eof (h : scan c t = .ok (token, width)) : token ≠ .eof := by
  by_cases hquote : (c == '\'' || c == '"') = true
  · rw [scan_quote hquote] at h
    obtain ⟨v, -, -, rfl, -⟩ := exists_of_stringRest h
    exact Token.noConfusion
  rw [scan, if_neg hquote] at h
  split_ifs at h
  · dsimp only at h
    split at h <;> cases h
    exact Token.noConfusion
  · cases h
    unfold wordToken
    split_ifs <;> exact Token.noConfusion
  · split at h
    · next found hfound =>
      cases h
      obtain ⟨s, hs, -⟩ := exists_of_symbol? hfound
      have hsymbols : ∀ p ∈ symbols, p.2 ≠ .eof := by
        simp [symbols]
      exact hsymbols _ hs
    · cases h

lemma tokens_cons {l : Lexeme} (hl : l.token ≠ .eof) (ls : Lexemes) :
    Lexemes.tokens (l :: ls) = l.token :: ls.tokens := by
  rw [Lexemes.tokens, List.map_cons, List.takeWhile_cons_of_pos (by simpa using hl)]
  rfl

lemma Lexes.exists_lexFrom (h : Lexes t us) (place : Nat) :
    ∃ ls, lexFrom place t = .ok ls ∧ Lexemes.tokens ls = us := by
  induction h generalizing place with
  | nil => exact ⟨_, lexFrom_nil place, rfl⟩
  | space hc _ ih =>
    rw [lexFrom_space place hc]
    exact ih (place + 1)
  | @token _ _ _ width _ hc hscan _ ih =>
    obtain ⟨ls, hls, rfl⟩ := ih (place + width)
    rw [lexFrom_token place hc hscan, hls]
    exact ⟨_, rfl, tokens_cons (scan_ne_eof hscan) ls⟩

lemma lexes_of_lexFrom {place : Nat} {ls : Lexemes} (h : lexFrom place t = .ok ls) :
    Lexes t ls.tokens := by
  induction place, t using lexFrom.induct generalizing ls with
  | case1 place =>
    rw [lexFrom_nil] at h
    cases h
    exact .nil
  | case2 place c t hc ih =>
    rw [lexFrom_space place hc] at h
    exact .space hc (ih h)
  | case3 place c t hc fault width hscan =>
    rw [lexFrom.eq_def] at h
    simp only [if_neg hc, hscan, reduceCtorEq] at h
  | case4 place c t hc token width hscan hlt ih =>
    rw [Bool.not_eq_true] at hc
    rw [lexFrom_token place hc hscan] at h
    cases hms : lexFrom (place + width) (t.drop (width - 1)) with
    | error e =>
      rw [hms] at h
      cases h
    | ok ms =>
      rw [hms] at h
      cases h
      rw [tokens_cons (scan_ne_eof hscan)]
      exact .token hc hscan (ih hms)

/-! ### Where no token runs on -/

/-- Nothing, white space or a closing parenthesis comes next. -/
def Breaks (u : Text) : Prop := ∀ d ∈ u.head?, isSpace d = true ∨ d = ')'

lemma breaks_of_isBlank (hb : isBlank b = true) : Breaks b :=
  fun d hd => .inl (isBlank_iff.1 hb d (List.mem_of_mem_head? hd))

lemma takeWhile_append_of_head {q : Char → Bool} (hu : ∀ d ∈ u.head?, q d = false) (t : Text) :
    (t ++ u).takeWhile q = t.takeWhile q := by
  induction t with
  | nil =>
    cases u with
    | nil => rfl
    | cons d u => exact List.takeWhile_cons_of_neg (by rw [hu d rfl]; exact Bool.false_ne_true)
  | cons c t ih => rw [List.cons_append, List.takeWhile_cons, List.takeWhile_cons, ih]

lemma startsWithDigit_append (hu : ∀ d ∈ u.head?, d.isDigit = false) (t : Text) :
    startsWithDigit (t ++ u) = startsWithDigit t := by
  cases t with
  | nil =>
    cases u with
    | nil => rfl
    | cons d u => exact hu d rfl
  | cons c t => rfl

lemma after?_append_of_head {s : Text} (hu : ∀ d ∈ u.head?, d ∉ s) (t : Text) :
    after? s (t ++ u) = (after? s t).map (· ++ u) := by
  induction s generalizing t with
  | nil => rfl
  | cons d s ih =>
    have hs : ∀ d ∈ u.head?, d ∉ s := fun x hx hmem => hu x hx (List.mem_cons_of_mem d hmem)
    cases t with
    | nil =>
      cases u with
      | nil => rfl
      | cons x u =>
        have hne : d ≠ x := fun h => hu x rfl (by rw [h]; exact List.mem_cons_self)
        rw [List.nil_append, after?, after?, if_neg hne]
        rfl
    | cons c t =>
      rw [List.cons_append, after?, after?, ih hs]
      split <;> rfl

namespace Breaks

variable (hu : Breaks u)

include hu

lemma forall_not {q : Char → Bool} (hq : ∀ d, isSpace d = true → q d = false)
    (hparen : q ')' = false) : ∀ d ∈ u.head?, q d = false := by
  intro d hd
  rcases hu d hd with hspace | rfl
  · exact hq d hspace
  · exact hparen

lemma continuesNumber : ∀ d ∈ u.head?, continuesNumber d = false :=
  hu.forall_not (fun d hd => by
    by_contra h
    rw [Bool.not_eq_false] at h
    rw [isSpace_of_continuesNumber h] at hd
    cases hd) (by decide)

lemma continuesWord : ∀ d ∈ u.head?, continuesWord d = false :=
  hu.forall_not (fun d hd => by
    by_contra h
    rw [Bool.not_eq_false] at h
    rw [isSpace_of_continuesWord h] at hd
    cases hd) (by decide)

lemma isDigit : ∀ d ∈ u.head?, d.isDigit = false := by
  intro d hd
  have h := hu.continuesNumber d hd
  rw [Lexer.continuesNumber, Bool.or_eq_false_iff] at h
  exact h.1

/-- Behind its first character, no symbol has a parenthesis. -/
lemma not_mem_symbol {x : Char} {s : Text} (hs : (x :: s, token) ∈ symbols) :
    ∀ d ∈ u.head?, d ∉ s := by
  intro d hd hmem
  rcases hu d hd with hspace | rfl
  · have hplain := ((symbols_plain _ hs).2 d (List.mem_cons_of_mem x hmem)).1
    rw [hspace] at hplain
    cases hplain
  · have hparen : ∀ p ∈ symbols, ')' ∉ p.1.tail := by decide
    exact hparen _ hs hmem

lemma symbol?_append (c : Char) (t : Text) : symbol? (c :: (t ++ u)) = symbol? (c :: t) := by
  have hcut : ∀ p ∈ symbols, after? p.1 (c :: (t ++ u)) = (after? p.1 (c :: t)).map (· ++ u) := by
    rintro ⟨s, token⟩ hs
    obtain ⟨x, s, rfl⟩ := List.exists_cons_of_ne_nil (symbols_plain _ hs).1
    rw [after?, after?, after?_append_of_head (hu.not_mem_symbol hs)]
    split <;> rfl
  rw [symbol?, symbol?]
  generalize symbols = all at hcut
  induction all with
  | nil => rfl
  | cons p all ih =>
    obtain ⟨hp, hall⟩ := List.forall_mem_cons.1 hcut
    rw [List.findSome?_cons, List.findSome?_cons, ih hall]
    dsimp only
    rw [hp]
    cases after? p.1 (c :: t) with
    | none => rfl
    | some rest =>
      dsimp only [Option.map_some]
      rw [startsWithDigit_append hu.isDigit]

/-- Any token but a string. -/
lemma scan_append (hquote : ¬ (c == '\'' || c == '"') = true) (t : Text) :
    scan c (t ++ u) = scan c t := by
  rw [scan, scan, startsWithDigit_append hu.isDigit, takeWhile_append_of_head hu.continuesNumber,
    takeWhile_append_of_head hu.continuesWord, if_neg hquote, if_neg hquote, hu.symbol?_append]

lemma exists_scan_append (h : scan c t = .ok (token, width)) :
    ∃ y r, t = y ++ r ∧ width = y.length + 1 ∧ scan c (t ++ u) = .ok (token, width) := by
  by_cases hquote : (c == '\'' || c == '"') = true
  · rw [scan_quote hquote] at h
    obtain ⟨v, y, r, rfl, rfl, rfl, -, hrest⟩ := exists_of_stringRest h
    refine ⟨y, r, rfl, Nat.add_comm _ _, ?_⟩
    rw [scan_quote hquote, List.append_assoc]
    exact hrest (r ++ u)
  · obtain ⟨y, r, rfl, hwidth, -⟩ := exists_of_scan hquote h
    exact ⟨y, r, rfl, hwidth, by rw [hu.scan_append hquote, h]⟩

end Breaks

/-! ### Texts one after the other -/

/-- **The tokens of a text are those of its parts**, if it is cut where no token runs on. -/
lemma Lexes.append (ht : Lexes t us) (hbreaks : Breaks u) (hu : Lexes u vs) :
    Lexes (t ++ u) (us ++ vs) := by
  induction ht with
  | nil => exact hu
  | space hc _ ih => exact .space hc ih
  | token hc hscan _ ih =>
    obtain ⟨y, r, rfl, rfl, hscan'⟩ := hbreaks.exists_scan_append hscan
    have hrest : (y ++ r ++ u).drop y.length = r ++ u := by
      rw [List.append_assoc, List.drop_left]
    rw [Nat.add_sub_cancel, List.drop_left] at ih
    exact .token hc hscan' (hrest ▸ ih)

/-! ### White space around a text -/

lemma Lexes.eq_nil (h : Lexes b us) (hb : isBlank b = true) : us = [] := by
  induction h with
  | nil => rfl
  | space _ _ ih => exact ih (isBlank_iff.2 (List.forall_mem_cons.1 (isBlank_iff.1 hb)).2)
  | token hc =>
    rw [isBlank_iff] at hb
    rw [hb _ List.mem_cons_self] at hc
    cases hc

lemma Lexes.of_blank_append (hb : isBlank b = true) (h : Lexes (b ++ t) us) : Lexes t us := by
  induction b with
  | nil => exact h
  | cons c b ih =>
    obtain ⟨hc, hb⟩ := List.forall_mem_cons.1 (isBlank_iff.1 hb)
    cases h with
    | space _ h => exact ih (isBlank_iff.2 hb) h
    | token hc' =>
      rw [hc] at hc'
      cases hc'

/-- Of a text with white space behind it, each token is one of the text itself. -/
lemma exists_scan_of_append_blank (hc : isSpace c = false) (hb : isBlank b = true)
    (h : scan c (t ++ b) = .ok (token, width)) :
    ∃ y r, t = y ++ r ∧ width = y.length + 1 ∧ scan c t = .ok (token, width) := by
  by_cases hquote : (c == '\'' || c == '"') = true
  · rw [scan_quote hquote] at h
    obtain ⟨v, y, r, rfl, hsplit, rfl, hlast, hrest⟩ := exists_of_stringRest h
    -- the quote at the end is no white space, so the string lies before it
    rcases List.append_eq_append_iff.1 hsplit with ⟨a, rfl, rfl⟩ | ⟨a, rfl, rfl⟩
    · cases a using List.reverseRecOn with
      | nil =>
        rw [List.append_nil] at hlast hrest ⊢
        refine ⟨t, [], (List.append_nil t).symm, Nat.add_comm _ _, ?_⟩
        have hrun := hrest []
        rwa [List.append_nil, ← scan_quote hquote] at hrun
      | append_singleton a d =>
        have hd : d = c := by simpa using hlast
        have hspace := isBlank_iff.1 hb d (by simp)
        rw [hd, hc] at hspace
        cases hspace
    · exact ⟨y, a, rfl, Nat.add_comm _ _, (scan_quote hquote _).trans (hrest a)⟩
  · rw [(breaks_of_isBlank hb).scan_append hquote] at h
    obtain ⟨y, r, rfl, hwidth, -⟩ := exists_of_scan hquote h
    exact ⟨y, r, rfl, hwidth, h⟩

lemma Lexes.of_append_blank (hb : isBlank b = true) (h : Lexes (t ++ b) us) : Lexes t us := by
  generalize hx : t ++ b = x at h
  induction h generalizing t with
  | nil =>
    obtain ⟨rfl, -⟩ := List.append_eq_nil_iff.1 hx
    exact .nil
  | @space c x us hc h ih =>
    cases t with
    | nil =>
      obtain rfl : b = c :: x := hx
      obtain rfl := (Lexes.space hc h).eq_nil hb
      exact .nil
    | cons d t =>
      obtain ⟨rfl, rfl⟩ := List.cons.inj hx
      exact .space hc (ih rfl)
  | @token c x token width us hc hscan h ih =>
    cases t with
    | nil =>
      obtain rfl : b = c :: x := hx
      rw [isBlank_iff] at hb
      rw [hb c List.mem_cons_self] at hc
      cases hc
    | cons d t =>
      obtain ⟨rfl, rfl⟩ := List.cons.inj hx
      obtain ⟨y, r, rfl, rfl, hscan'⟩ := exists_scan_of_append_blank hc hb hscan
      have hrest : (y ++ r ++ b).drop y.length = r ++ b := by
        rw [List.append_assoc, List.drop_left]
      refine .token hc hscan' (ih ?_)
      rw [Nat.add_sub_cancel, List.drop_left]
      exact hrest.symm

lemma Lexes.trim (h : Lexes t us) : Lexes (trim t) us := by
  have hstart : Lexes (trimStart t) us := by
    refine .of_blank_append (b := t.takeWhile isSpace) ?_ ?_
    · exact isBlank_iff.2 fun c => List.mem_takeWhile_imp
    · rwa [trimStart, List.takeWhile_append_dropWhile]
  refine .of_append_blank (b := (trimStart t).rtakeWhile isSpace) ?_ ?_
  · exact isBlank_iff.2 fun c => List.mem_rtakeWhile_imp
  · rwa [Text.trim, dropEndWhile_eq_rdropWhile, List.rdropWhile_append_rtakeWhile]

end Lexer

namespace Expr

variable {source : Text}

lemma exists_lexes_of_parse {e : Expr} (h : parse source = .ok e) :
    ∃ us, Lexer.Lexes source us ∧ Derives .ternary us e.bare := by
  obtain ⟨ls, hls, hd⟩ := exists_derives_of_parse h
  exact ⟨_, Lexer.lexes_of_lexFrom hls, hd⟩

lemma exists_parse_of_lexes {us : List Token} {tree : Expr} (h : Lexer.Lexes source us)
    (hd : Derives .ternary us tree) : ∃ e, parse source = .ok e ∧ e.bare = tree := by
  obtain ⟨ls, hls, rfl⟩ := h.exists_lexFrom 0
  exact exists_parse_of_derives hls hd

end Expr

end HtmlTemplate
