import HtmlTemplate.Expr.Lexer
import HtmlTemplate.Proofs.Text.Space
import HtmlTemplate.Proofs.Text.Words

/-!
What a token is read off.

A string ends with its quote, and what follows does not matter to it. Any other token has no white
space, and is found by looking at nothing behind the next white space. A text of characters that go
on a word is one token if a word may begin like it, and no token begins above ASCII.
-/

namespace HtmlTemplate.Lexer

open Text

variable {c : Char} {t u : Text} {token : Token} {width : Nat}

/-! ### One token after the other -/

lemma lexFrom_nil (place : Nat) : lexFrom place [] = .ok [⟨.eof, place, place⟩] := by
  rw [lexFrom.eq_def]

lemma lexFrom_space (place : Nat) (hc : isSpace c = true) (t : Text) :
    lexFrom place (c :: t) = lexFrom (place + 1) t := by
  rw [lexFrom.eq_def]
  exact if_pos hc

lemma lexFrom_token (place : Nat) (hc : isSpace c = false) (h : scan c t = .ok (token, width)) :
    lexFrom place (c :: t) =
      (lexFrom (place + width) (t.drop (width - 1))).map (⟨token, place, place + width⟩ :: ·) := by
  rw [lexFrom.eq_def]
  simp only [hc, Bool.false_eq_true, if_false, h]

/-! ### Kinds of characters -/

lemma isSpace_of_continuesWord (h : continuesWord c = true) : isSpace c = false := by
  by_contra hspace
  rw [Bool.not_eq_false] at hspace
  simp only [continuesWord, isAlphanumeric_of_isSpace hspace, Bool.false_or, Bool.or_eq_true,
    beq_iff_eq] at h
  rcases h with rfl | rfl <;> cases hspace

lemma isSpace_of_continuesNumber (h : continuesNumber c = true) : isSpace c = false := by
  by_contra hspace
  rw [Bool.not_eq_false] at hspace
  rw [of_isSpace (P := fun c => continuesNumber c = false) (by decide) hspace] at h
  cases h

lemma symbols_plain : ∀ p ∈ symbols, p.1 ≠ [] ∧ ∀ c ∈ p.1, isSpace c = false ∧ c.toNat < 128 := by
  have hall : symbols.all (fun p => !p.1.isEmpty &&
      p.1.all fun c => !isSpace c && decide (c.toNat < 128)) = true := by decide
  simpa [List.all_eq_true] using hall

/-! ### Symbols -/

lemma exists_of_symbol? (h : symbol? t = some (token, width)) :
    ∃ s, (s, token) ∈ symbols ∧ s <+: t ∧ width = s.length := by
  obtain ⟨⟨s, found⟩, hs, hfound⟩ := List.exists_of_findSome?_eq_some h
  dsimp only at hfound
  split at hfound
  · next rest hrest =>
    split at hfound
    · cases hfound
    · cases hfound
      exact ⟨s, hs, ⟨rest, append_after? hrest⟩, rfl⟩
  · cases hfound

/-- No symbol begins with a character above ASCII. -/
lemma symbol?_eq_none (hc : 128 ≤ c.toNat) (t : Text) : symbol? (c :: t) = none := by
  by_contra hsome
  obtain ⟨⟨token, width⟩, hsome⟩ := Option.ne_none_iff_exists'.1 hsome
  obtain ⟨s, hs, hprefix, -⟩ := exists_of_symbol? hsome
  obtain ⟨hne, hplain⟩ := symbols_plain _ hs
  obtain ⟨d, s, rfl⟩ := List.exists_cons_of_ne_nil hne
  obtain ⟨rfl, -⟩ := List.cons_prefix_cons.1 hprefix
  have := (hplain d List.mem_cons_self).2
  omega

/-! ### Looking no further than white space -/

lemma takeWhile_front {q : Char → Bool} (hq : ∀ c, q c = true → isSpace c = false) (t : Text) :
    (front t).takeWhile q = t.takeWhile q := by
  induction t with
  | nil => rfl
  | cons c t ih =>
    cases hc : isSpace c with
    | true =>
      have hstop : ¬ q c = true := fun h => by
        rw [hq c h] at hc
        cases hc
      rw [front_cons_space hc, List.takeWhile_cons_of_neg hstop, List.takeWhile_nil]
    | false => rw [front_cons hc, List.takeWhile_cons, List.takeWhile_cons, ih]

lemma startsWithDigit_front (t : Text) : startsWithDigit (front t) = startsWithDigit t := by
  cases t with
  | nil => rfl
  | cons c t =>
    cases hc : isSpace c with
    | true =>
      rw [front_cons_space hc]
      exact (of_isSpace (P := fun c => startsWithDigit [] = c.isDigit) (by decide) hc)
    | false => rw [front_cons hc, startsWithDigit, startsWithDigit]

lemma after?_front {s : Text} (hs : ∀ c ∈ s, isSpace c = false) (t : Text) :
    after? s (front t) = (after? s t).map front := by
  induction s generalizing t with
  | nil => rfl
  | cons d s ih =>
    obtain ⟨hd, hs⟩ := List.forall_mem_cons.1 hs
    cases t with
    | nil => rfl
    | cons c t =>
      cases hc : isSpace c with
      | true =>
        have hne : d ≠ c := by
          rintro rfl
          rw [hc] at hd
          cases hd
        rw [front_cons_space hc, after?, after?, if_neg hne]
        rfl
      | false =>
        rw [front_cons hc, after?, after?, ih hs]
        split <;> rfl

lemma symbol?_front (t : Text) : symbol? (front t) = symbol? t := by
  rw [symbol?, symbol?]
  have hplain := symbols_plain
  generalize symbols = all at hplain
  induction all with
  | nil => rfl
  | cons p all ih =>
    obtain ⟨s, token⟩ := p
    obtain ⟨⟨-, hs⟩, hall⟩ := List.forall_mem_cons.1 hplain
    rw [List.findSome?_cons, List.findSome?_cons, ih hall]
    dsimp only
    rw [after?_front fun c hc => (hs c hc).1]
    cases after? s t with
    | none => rfl
    | some rest =>
      dsimp only [Option.map_some]
      rw [startsWithDigit_front]

/-- Any token but a string. -/
lemma scan_front (hc : isSpace c = false) (hquote : ¬ (c == '\'' || c == '"') = true) (t : Text) :
    scan c (front t) = scan c t := by
  rw [scan, scan, startsWithDigit_front, takeWhile_front fun _ => isSpace_of_continuesNumber,
    takeWhile_front fun _ => isSpace_of_continuesWord, if_neg hquote, if_neg hquote,
    ← front_cons hc, symbol?_front]

/-! ### Strings -/

/-- A string ends with its quote. -/
lemma exists_of_stringRest {quote : Char} {value : Text} {passed : Nat}
    (h : stringRest quote value passed t = .ok (token, width)) :
    ∃ v y r, token = .string v ∧ t = y ++ r ∧ width = passed + y.length ∧
      y.getLast? = some quote ∧
        ∀ u, stringRest quote value passed (y ++ u) = .ok (token, width) := by
  fun_induction stringRest quote value passed t with
  | case1 => cases h
  | case2 value passed t =>
    cases h
    refine ⟨_, [quote], t, rfl, rfl, rfl, rfl, fun u => ?_⟩
    rw [List.cons_append, stringRest.eq_def]
    simp
  | case3 => cases h
  | case4 value passed d t hquote ih =>
    obtain ⟨v, y, r, rfl, rfl, rfl, hlast, hrest⟩ := ih h
    refine ⟨v, '\\' :: d :: y, r, rfl, rfl, ?_, ?_, fun u => ?_⟩
    · simp only [List.length_cons]
      omega
    · rw [List.getLast?_cons, List.getLast?_cons, hlast]
      rfl
    · rw [List.cons_append, List.cons_append, stringRest.eq_def]
      simpa [hquote] using hrest u
  | case5 value passed c t hquote hc ih =>
    obtain ⟨v, y, r, rfl, rfl, rfl, hlast, hrest⟩ := ih h
    refine ⟨v, c :: y, r, rfl, rfl, ?_, ?_, fun u => ?_⟩
    · simp only [List.length_cons]
      omega
    · rw [List.getLast?_cons, hlast]
      rfl
    · rw [List.cons_append, stringRest.eq_def]
      simpa [hquote, hc] using hrest u

lemma scan_quote (hquote : (c == '\'' || c == '"') = true) (t : Text) :
    scan c t = stringRest c [] 1 t := by
  have hnumber : ¬ (c.isDigit || (c == '.' && startsWithDigit t)) = true := by
    simp only [Bool.or_eq_true, beq_iff_eq] at hquote
    rcases hquote with rfl | rfl
    · exact Bool.false_ne_true
    · exact Bool.false_ne_true
  rw [scan, if_neg hnumber, if_pos hquote]

/-! ### Tokens -/

/-- The rest of a token other than a string has no white space. -/
lemma exists_of_scan (hquote : ¬ (c == '\'' || c == '"') = true)
    (h : scan c t = .ok (token, width)) :
    ∃ y r, t = y ++ r ∧ width = y.length + 1 ∧ ∀ d ∈ y, isSpace d = false := by
  rw [scan, if_neg hquote] at h
  split_ifs at h
  · dsimp only at h
    split at h
    · cases h
      exact ⟨_, _, List.takeWhile_append_dropWhile.symm, rfl, fun d hd =>
        isSpace_of_continuesNumber (List.mem_takeWhile_imp hd)⟩
    · cases h
  · cases h
    exact ⟨_, _, List.takeWhile_append_dropWhile.symm, rfl, fun d hd =>
      isSpace_of_continuesWord (List.mem_takeWhile_imp hd)⟩
  · split at h
    · next found hfound =>
      cases h
      obtain ⟨s, hs, ⟨r, hr⟩, rfl⟩ := exists_of_symbol? hfound
      obtain ⟨hne, hplain⟩ := symbols_plain _ hs
      obtain ⟨d, y, rfl⟩ := List.exists_cons_of_ne_nil hne
      obtain ⟨-, rfl⟩ := List.cons.inj hr
      exact ⟨y, r, rfl, rfl, fun d hd => (hplain d (List.mem_cons_of_mem _ hd)).1⟩
    · cases h

/-- A token is found again in a squeezed text, with its seam behind it. A string is if it is
itself the same squeezed. -/
lemma scan_seam (hc : isSpace c = false) (h : scan c t = .ok (token, width)) :
    ∃ y r, t = y ++ r ∧ width = y.length + 1 ∧ ((∀ v, token ≠ .string v) → seam y = y) ∧
      (seam y = y → seam t = y ++ seam r ∧ scan c (seam t) = .ok (token, width)) := by
  by_cases hquote : (c == '\'' || c == '"') = true
  · rw [scan_quote hquote] at h
    obtain ⟨v, y, r, rfl, rfl, rfl, hlast, hrest⟩ := exists_of_stringRest h
    have hword : ∀ d ∈ y.getLast?, isSpace d = false := by
      intro d hd
      obtain rfl := Option.some.inj (hlast.symm.trans hd)
      exact hc
    refine ⟨y, r, rfl, Nat.add_comm _ _, fun hv => absurd rfl (hv v), fun hsame => ?_⟩
    rw [(squeeze_append hword r).1, hsame]
    exact ⟨rfl, (scan_quote hquote _).trans (hrest _)⟩
  · obtain ⟨y, r, rfl, hwidth, hy⟩ := exists_of_scan hquote h
    refine ⟨y, r, rfl, hwidth, fun _ => seam_of_forall hy, fun hsame => ⟨?_, ?_⟩⟩
    · rw [(squeeze_append (fun d hd => hy d (List.mem_of_mem_getLast? hd)) r).1, hsame]
    · rw [← scan_front hc hquote, front_seam, scan_front hc hquote, h]

/-! ### Words -/

lemma bounds_of_isDigit (h : c.isDigit = true) : 48 ≤ c.toNat ∧ c.toNat ≤ 57 := by
  simp only [Char.isDigit, Bool.and_eq_true, decide_eq_true_eq, ge_iff_le,
    UInt32.le_iff_toNat_le] at h
  exact h

lemma bounds_of_startsWord (h : startsWord c = true) :
    c.toNat = 36 ∨ (65 ≤ c.toNat ∧ c.toNat ≤ 122) := by
  have halpha : c.isAlpha = (decide (c.val ≥ 'A'.val ∧ c.val ≤ 'Z'.val) ||
      (decide (c.val ≥ 'a'.val) && decide (c.val ≤ 'z'.val))) := rfl
  simp only [startsWord, halpha, Bool.or_eq_true, Bool.and_eq_true, decide_eq_true_eq, ge_iff_le,
    beq_iff_eq, UInt32.le_iff_toNat_le] at h
  rcases h with ((⟨h, h'⟩ | ⟨h, h'⟩) | rfl) | rfl
  · exact .inr ⟨h, h'.trans (by decide)⟩
  · exact .inr ⟨le_trans (by decide) h, h'⟩
  · decide
  · decide

/-- Neither a number nor a string begins with a letter of ASCII, or above it. -/
lemma not_number_not_quote (hc : c.toNat = 36 ∨ 65 ≤ c.toNat) (t : Text) :
    ¬ (c.isDigit || (c == '.' && startsWithDigit t)) = true ∧
      ¬ (c == '\'' || c == '"') = true := by
  simp only [Bool.or_eq_true, Bool.and_eq_true, beq_iff_eq]
  refine ⟨?_, ?_⟩
  · rintro (hdigit | ⟨rfl, -⟩)
    · have := bounds_of_isDigit hdigit
      omega
    · exact absurd hc (by decide)
  · rintro (rfl | rfl) <;> exact absurd hc (by decide)

lemma scan_word (hc : startsWord c = true) (ht : ∀ d ∈ t, continuesWord d = true) :
    scan c t = .ok (wordToken (c :: t), (c :: t).length) := by
  obtain ⟨hnumber, hquote⟩ := not_number_not_quote ((bounds_of_startsWord hc).imp_right And.left) t
  rw [scan, if_neg hnumber, if_neg hquote, if_pos hc, List.takeWhile_eq_self_iff.2 ht]

/-- No token begins with a character above ASCII. -/
lemma scan_error (hc : 128 ≤ c.toNat) (t : Text) : scan c t = .error (.unexpected c, 1) := by
  obtain ⟨hnumber, hquote⟩ := not_number_not_quote (c := c) (.inr (by omega)) t
  have hword : ¬ startsWord c = true := fun h => by
    have := bounds_of_startsWord h
    omega
  rw [scan, if_neg hnumber, if_neg hquote, if_neg hword, symbol?_eq_none hc]

lemma lex_word (hc : startsWord c = true) (ht : ∀ d ∈ c :: t, continuesWord d = true) :
    ∃ x y, lex (c :: t) = .ok [⟨wordToken (c :: t), x⟩, ⟨.eof, y⟩] := by
  obtain ⟨hfirst, hrest⟩ := List.forall_mem_cons.1 ht
  rw [lex, lexFrom_token 0 (isSpace_of_continuesWord hfirst) (scan_word hc hrest), List.length_cons,
    Nat.add_sub_cancel, List.drop_length, lexFrom_nil]
  exact ⟨_, _, rfl⟩

lemma lex_error (hc : 128 ≤ c.toNat) (hspace : isSpace c = false) (t : Text) :
    lex (c :: t) = .error ⟨.unexpected c, 0, 1⟩ := by
  rw [lex, lexFrom.eq_def]
  simp only [hspace, Bool.false_eq_true, if_false, scan_error hc]

/-- A word is the name of a variable or a constant. -/
lemma wordToken_cases (w : Text) :
    wordToken w = .identifier w ∨ ∀ name, wordToken w ≠ .identifier name := by
  unfold wordToken
  split_ifs <;> simp

end HtmlTemplate.Lexer
