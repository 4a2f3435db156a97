import HtmlTemplate.Proofs.Expr.Spacing
import HtmlTemplate.Proofs.Expr.Tokens

/-!
Tokens cover an expression.

A token depends on no character behind it: it is read off its own text as well. So the texts of the
tokens, with a blank between any two, have the same tokens. The tokens stand one behind the other
and between them is nothing but white space.
-/

namespace HtmlTemplate

open Text

namespace Lexemes

/-- The lexemes stand one behind the other from a place on, and only the end has no width. -/
def InOrder : Nat → Lexemes → Prop
  | _, [] => True
  | place, l :: ls => place ≤ l.extent.start ∧ l.extent.start ≤ l.extent.stop ∧
      (l.token ≠ .eof → l.extent.start < l.extent.stop) ∧ InOrder l.extent.stop ls

variable {place place' : Nat} {ls : Lexemes}

lemma InOrder.mono (h : InOrder place' ls) (hle : place ≤ place') : InOrder place ls := by
  cases ls with
  | nil => trivial
  | cons l ls => exact ⟨hle.trans h.1, h.2⟩

lemma InOrder.le_start (h : InOrder place ls) : ∀ l ∈ ls, place ≤ l.extent.start := by
  induction ls generalizing place with
  | nil => exact List.forall_mem_nil _
  | cons l ls ih =>
    obtain ⟨hplace, hle, -, hrest⟩ := h
    exact List.forall_mem_cons.2 ⟨hplace, fun m hm => hplace.trans (hle.trans (ih hrest m hm))⟩

lemma InOrder.pairwise (h : InOrder place ls) :
    ls.Pairwise fun l m => l.extent.stop ≤ m.extent.start := by
  induction ls generalizing place with
  | nil => exact List.Pairwise.nil
  | cons l ls ih =>
    obtain ⟨-, -, -, hrest⟩ := h
    exact List.pairwise_cons.2 ⟨hrest.le_start, ih hrest⟩

lemma InOrder.start_lt_stop (h : InOrder place ls) :
    ∀ l ∈ ls, l.token ≠ .eof → l.extent.start < l.extent.stop := by
  induction ls generalizing place with
  | nil => exact List.forall_mem_nil _
  | cons l ls ih =>
    obtain ⟨-, -, hl, hrest⟩ := h
    exact List.forall_mem_cons.2 ⟨hl, ih hrest⟩

end Lexemes

namespace Lexer

variable {c : Char} {t source : Text} {us : List Token} {token : Token} {width place : Nat}
  {ls : List Lexeme} {fault : LexFault}

/-! ### A token by itself -/

lemma startsWithDigit_takeWhile (t : Text) :
    startsWithDigit (t.takeWhile continuesNumber) = startsWithDigit t := by
  cases t with
  | nil => rfl
  | cons d t =>
    cases hd : d.isDigit with
    | true =>
      rw [List.takeWhile_cons_of_pos (by rw [continuesNumber, hd, Bool.true_or])]
      rfl
    | false =>
      rw [List.takeWhile_cons]
      split
      · rfl
      · exact hd.symm

lemma takeWhile_takeWhile (q : Char → Bool) (t : Text) :
    (t.takeWhile q).takeWhile q = t.takeWhile q :=
  List.takeWhile_eq_self_iff.2 fun _ => List.mem_takeWhile_imp

/-- Every symbol is a token by itself. -/
lemma scan_symbol : ∀ p ∈ symbols, scan (p.1.headD ' ') p.1.tail = .ok (p.2, p.1.length) := by
  decide

/-- **A token is read off its own text.** -/
lemma exists_scan_self (h : scan c t = .ok (token, width)) :
    ∃ y r, t = y ++ r ∧ width = y.length + 1 ∧ scan c y = .ok (token, width) := by
  by_cases hquote : (c == '\'' || c == '"') = true
  · rw [scan_quote hquote] at h
    obtain ⟨v, y, r, -, rfl, rfl, -, hrest⟩ := exists_of_stringRest h
    have hself := hrest []
    rw [List.append_nil, ← scan_quote hquote] at hself
    exact ⟨y, r, rfl, Nat.add_comm _ _, hself⟩
  · rw [scan, if_neg hquote] at h
    split_ifs at h with hnumber hword
    · refine ⟨t.takeWhile continuesNumber, _, List.takeWhile_append_dropWhile.symm, ?_, ?_⟩
      · dsimp only at h
        split at h <;> cases h
        rfl
      · rw [scan, startsWithDigit_takeWhile, if_pos hnumber, takeWhile_takeWhile]
        exact h
    · cases h
      refine ⟨_, _, List.takeWhile_append_dropWhile.symm, rfl, ?_⟩
      exact scan_word hword fun d => List.mem_takeWhile_imp
    · split at h
      · next found hfound =>
        cases h
        obtain ⟨s, hs, ⟨r, hr⟩, rfl⟩ := exists_of_symbol? hfound
        obtain ⟨d, y, rfl⟩ := List.exists_cons_of_ne_nil (symbols_plain _ hs).1
        obtain ⟨rfl, rfl⟩ := List.cons.inj hr
        exact ⟨y, r, rfl, rfl, scan_symbol _ hs⟩
      · cases h

/-! ### Where the tokens of a text stand -/

/-- The lexemes that a text is cut into, if it begins at a place. -/
inductive Cut : Nat → Text → List Lexeme → Prop
  | nil (place : Nat) : Cut place [] [⟨.eof, place, place⟩]
  | space {place : Nat} {c : Char} {t : Text} {ls : List Lexeme} (blank : isSpace c = true)
      (rest : Cut (place + 1) t ls) : Cut place (c :: t) ls
  | token {place : Nat} {c : Char} {y r : Text} {token : Token} {ls : List Lexeme}
      (visible : isSpace c = false) (first : scan c y = .ok (token, y.length + 1))
      (rest : Cut (place + (y.length + 1)) r ls) :
      Cut place (c :: (y ++ r)) (⟨token, place, place + (y.length + 1)⟩ :: ls)

lemma cut_of_lexFrom (h : lexFrom place t = .ok ls) : Cut place t ls := by
  induction place, t using lexFrom.induct generalizing ls with
  | case1 place =>
    rw [lexFrom_nil] at h
    cases h
    exact .nil place
  | case2 place c t hc ih =>
    rw [lexFrom_space place hc] at h
    exact .space hc (ih h)
  | case3 place c t hc fault width hscan =>
    rw [lexFrom.eq_def] at h
    simp only [if_neg hc, hscan, reduceCtorEq] at h
  | case4 place c t hc token width hscan hlt ih =>
    rw [Bool.not_eq_true] at hc
    rw [lexFrom_token place hc hscan] at h
    obtain ⟨y, r, rfl, rfl, hself⟩ := exists_scan_self hscan
    rw [Nat.add_sub_cancel, List.drop_left] at h ih
    cases hms : lexFrom (place + (y.length + 1)) r with
    | error e =>
      rw [hms] at h
      cases h
    | ok ms =>
      rw [hms] at h
      cases h
      exact .token hc hself (ih hms)

namespace Cut

lemma exists_eq_append (h : Cut place t ls) :
    ∃ front, ls = front ++ [⟨.eof, place + t.length, place + t.length⟩] ∧
      ∀ l ∈ front, l.token ≠ .eof := by
  induction h with
  | nil place => exact ⟨[], rfl, List.forall_mem_nil _⟩
  | space _ _ ih =>
    obtain ⟨front, rfl, hfront⟩ := ih
    refine ⟨front, ?_, hfront⟩
    rw [List.length_cons, Nat.add_assoc, Nat.add_comm 1]
  | @token place c y r token ls _ hscan _ ih =>
    obtain ⟨front, rfl, hfront⟩ := ih
    refine ⟨⟨token, place, place + (y.length + 1)⟩ :: front, ?_,
      List.forall_mem_cons.2 ⟨scan_ne_eof hscan, hfront⟩⟩
    rw [List.length_cons, List.length_append, List.cons_append, Nat.add_assoc, Nat.add_right_comm]

lemma inOrder (h : Cut place t ls) : Lexemes.InOrder place ls := by
  induction h with
  | nil place => exact ⟨Nat.le_refl _, Nat.le_refl _, fun hne => absurd rfl hne, trivial⟩
  | space _ _ ih => exact ih.mono (Nat.le_succ _)
  | @token place _ y _ _ _ _ _ _ ih =>
    have hlt : place < place + (y.length + 1) := by omega
    exact ⟨Nat.le_refl _, hlt.le, fun _ => hlt, ih⟩

/-- A character that is no white space is one of a token. -/
lemma exists_of_getElem? (h : Cut place t ls) {i : Nat} (hi : t[i]? = some c)
    (hc : isSpace c = false) :
    ∃ l ∈ ls, l.token ≠ .eof ∧ l.extent.start ≤ place + i ∧ place + i < l.extent.stop := by
  induction h generalizing i with
  | nil place => cases hi
  | @space place d t ls hd _ ih =>
    cases i with
    | zero =>
      cases hi
      rw [hc] at hd
      cases hd
    | succ i =>
      obtain ⟨l, hl, hne, hstart, hstop⟩ := ih hi
      exact ⟨l, hl, hne, by omega, by omega⟩
  | @token place d y r token ls hd hscan _ ih =>
    by_cases hin : i < y.length + 1
    · refine ⟨_, List.mem_cons_self, scan_ne_eof hscan, ?_, ?_⟩
      · exact Nat.le_add_right place i
      · exact Nat.add_lt_add_left hin place
    · have hi' : r[i - (y.length + 1)]? = some c := by
        rw [← hi, ← List.cons_append, List.getElem?_append_right (Nat.not_lt.1 hin)]
        rfl
      obtain ⟨l, hl, hne, hstart, hstop⟩ := ih hi'
      exact ⟨l, List.mem_cons_of_mem _ hl, hne, by omega, by omega⟩

/-- The text of a token has this token and no other. -/
lemma lexes_text (h : Cut place t ls) (hs : source.drop place = t) :
    ∀ l ∈ ls, l.token ≠ .eof → Lexes (l.text source) [l.token] := by
  induction h with
  | nil place => exact List.forall_mem_singleton.2 fun hne => absurd rfl hne
  | space _ _ ih => exact ih (by rw [← List.drop_drop, hs]; rfl)
  | @token place c y r token ls hc hscan _ ih =>
    refine List.forall_mem_cons.2 ⟨fun _ => ?_, ih ?_⟩
    · have htext : Lexeme.text ⟨token, place, place + (y.length + 1)⟩ source = c :: y := by
        simp only [Lexeme.text, hs, Nat.add_sub_cancel_left, List.take_succ_cons, List.take_left]
      rw [htext]
      refine .token hc hscan ?_
      rw [Nat.add_sub_cancel, List.drop_length]
      exact .nil
    · rw [← List.drop_drop, hs, List.drop_succ_cons, List.drop_left]

end Cut

/-! ### The texts of the tokens -/

/-- Texts with a blank between any two have the tokens of all. -/
lemma lexes_joinWith (parts : List (Text × List Token)) (h : ∀ p ∈ parts, Lexes p.1 p.2) :
    Lexes (joinWith [' '] (parts.map Prod.fst)) (parts.flatMap Prod.snd) := by
  induction parts with
  | nil => exact .nil
  | cons p parts ih =>
    obtain ⟨hp, hparts⟩ := List.forall_mem_cons.1 h
    cases parts with
    | nil => simpa [joinWith] using hp
    | cons q parts =>
      have hbreaks : Breaks (' ' :: joinWith [' '] ((q :: parts).map Prod.fst)) :=
        fun d hd => .inl (Option.some.inj hd ▸ rfl)
      have happend := hp.append hbreaks (.space rfl (ih hparts))
      rw [List.map_cons, List.map_cons, joinWith, List.intercalate_cons_cons, List.flatMap_cons]
      simpa [joinWith] using happend

lemma map_token_of_lex (h : lex t = .ok ls) :
    ls.map Lexeme.token = Lexemes.tokens ls ++ [.eof] := by
  obtain ⟨front, rfl, hfront⟩ := (cut_of_lexFrom h).exists_eq_append
  rw [Lexemes.tokens, List.map_append, List.takeWhile_append_of_pos]
  · simp
  · intro u hu
    obtain ⟨l, hl, rfl⟩ := List.mem_map.1 hu
    exact decide_eq_true (hfront l hl)

lemma Lexes.exists_lex (h : Lexes t us) :
    ∃ ls, lex t = .ok ls ∧ ls.map Lexeme.token = us ++ [.eof] := by
  obtain ⟨ls, hls, rfl⟩ := h.exists_lexFrom 0
  exact ⟨ls, hls, map_token_of_lex hls⟩

/-- The texts of tokens, and empty texts behind them, have the tokens. -/
lemma exists_lex_texts (front empty : List Lexeme)
    (hfront : ∀ l ∈ front, Lexes (l.text source) [l.token])
    (hempty : ∀ l ∈ empty, l.text source = []) :
    ∃ ls, lex (joinWith [' '] ((front ++ empty).map fun l => l.text source)) = .ok ls ∧
      ls.map Lexeme.token = front.map Lexeme.token ++ [.eof] := by
  have hlast : ∀ l ∈ empty, Lexes (l.text source) [] := fun l hl => by
    rw [hempty l hl]
    exact .nil
  obtain ⟨ls, hls, htokens⟩ := (lexes_joinWith
    (front.map (fun l => (l.text source, [l.token])) ++ empty.map fun l => (l.text source, []))
    (List.forall_mem_append.2
      ⟨List.forall_mem_map.2 hfront, List.forall_mem_map.2 hlast⟩)).exists_lex
  refine ⟨ls, ?_, ?_⟩
  · rw [← hls, List.map_append, List.map_append, List.map_map, List.map_map]
    rfl
  · rw [htokens, List.flatMap_append, List.flatMap_map, List.flatMap_map, ← List.map_eq_flatMap]
    simp

/-! ### Where errors are -/

lemma le_of_stringRest_error {quote : Char} {value : Text} {passed : Nat}
    (h : stringRest quote value passed t = .error (fault, width)) :
    passed ≤ width ∧ width ≤ passed + t.length := by
  fun_induction stringRest quote value passed t with
  | case1 =>
    cases h
    exact ⟨Nat.le_refl _, Nat.le_refl _⟩
  | case2 => cases h
  | case3 =>
    cases h
    exact ⟨Nat.le_succ _, Nat.le_refl _⟩
  | case4 value passed d t hquote ih =>
    have := ih h
    simp only [List.length_cons]
    omega
  | case5 value passed c t hquote hc ih =>
    have := ih h
    simp only [List.length_cons]
    omega

lemma le_of_scan_error (h : scan c t = .error (fault, width)) :
    0 < width ∧ width ≤ t.length + 1 := by
  rw [scan] at h
  split_ifs at h
  · dsimp only at h
    split at h <;> cases h
    exact ⟨Nat.succ_pos _, Nat.succ_le_succ (List.takeWhile_prefix _).length_le⟩
  · have := le_of_stringRest_error h
    omega
  · split at h <;> cases h
    exact ⟨Nat.one_pos, Nat.succ_le_succ (Nat.zero_le _)⟩

lemma extent_of_lexFrom_error {e : LexError} (h : lexFrom place t = .error e) :
    e.extent.start < e.extent.stop ∧ e.extent.stop ≤ place + t.length := by
  induction place, t using lexFrom.induct with
  | case1 place =>
    rw [lexFrom_nil] at h
    cases h
  | case2 place c t hc ih =>
    rw [lexFrom_space place hc] at h
    have := ih h
    rw [List.length_cons]
    omega
  | case3 place c t hc fault width hscan =>
    rw [lexFrom.eq_def] at h
    simp only [if_neg hc, hscan, Except.error.injEq] at h
    obtain rfl := h
    have := le_of_scan_error hscan
    rw [List.length_cons]
    dsimp only
    omega
  | case4 place c t hc token width hscan hlt ih =>
    rw [Bool.not_eq_true] at hc
    rw [lexFrom_token place hc hscan] at h
    obtain ⟨y, r, rfl, rfl, -⟩ := exists_scan_self hscan
    rw [Nat.add_sub_cancel, List.drop_left] at h ih
    cases hms : lexFrom (place + (y.length + 1)) r with
    | error e' =>
      rw [hms] at h
      cases h
      have := ih hms
      rw [List.length_cons, List.length_append]
      omega
    | ok ms =>
      rw [hms] at h
      cases h

/-! ### Coverage -/

/-- The lexemes have some width and stand one behind the other in a text, and every character that
is in none of them is white space. -/
structure Covers (source : Text) (ls : List Lexeme) : Prop where
  proper : ∀ l ∈ ls, l.token ≠ .eof ∧ l.extent.start < l.extent.stop ∧
    l.extent.stop ≤ source.length
  apart : ls.Pairwise fun l m => l.extent.stop ≤ m.extent.start
  blank : ∀ (i : Nat) (c : Char), source[i]? = some c →
    (∀ l ∈ ls, ¬ (l.extent.start ≤ i ∧ i < l.extent.stop)) → isSpace c = true

lemma covers_of_lex {front : List Lexeme} {n : Nat}
    (h : lex source = .ok (front ++ [⟨.eof, n, n⟩])) (hn : n = source.length)
    (hfront : ∀ l ∈ front, l.token ≠ .eof) : Covers source front := by
  have hcut := cut_of_lexFrom h
  obtain ⟨hapart, -, hbefore⟩ := List.pairwise_append.1 hcut.inOrder.pairwise
  refine ⟨fun l hl => ⟨hfront l hl, ?_, ?_⟩, hapart, fun i c hi hout => ?_⟩
  · exact hcut.inOrder.start_lt_stop l (List.mem_append_left _ hl) (hfront l hl)
  · exact hn ▸ hbefore l hl _ (List.mem_singleton_self _)
  · by_contra hc
    rw [Bool.not_eq_true] at hc
    obtain ⟨l, hl, hne, hin⟩ := hcut.exists_of_getElem? hi hc
    rw [Nat.zero_add] at hin
    rcases List.mem_append.1 hl with hl | hl
    · exact hout l hl hin
    · exact hne (by rw [List.mem_singleton.1 hl])

/-- **The tokens cover the text**, and the end stands behind it. The texts of the tokens, with or
without that of the end, are cut into the same tokens when single blanks stand between them. An
error is about at least one character of the text. -/
theorem lex_covers (source : Text) :
    match lex source with
    | .ok ls => ∃ front, ls = front ++ [⟨.eof, source.length, source.length⟩] ∧
        Covers source front ∧
        (∃ ls', lex (joinWith [' '] (front.map fun l => l.text source)) = .ok ls' ∧
          ls'.map Lexeme.token = ls.map Lexeme.token) ∧
        ∃ ls', lex (joinWith [' '] (ls.map fun l => l.text source)) = .ok ls' ∧
          ls'.map Lexeme.token = ls.map Lexeme.token
    | .error e => e.extent.start < e.extent.stop ∧ e.extent.stop ≤ source.length := by
  cases h : lex source with
  | error e =>
    have hextent := extent_of_lexFrom_error h
    rwa [Nat.zero_add] at hextent
  | ok ls =>
    have hcut := cut_of_lexFrom h
    obtain ⟨front, rfl, hfront⟩ := hcut.exists_eq_append
    rw [Nat.zero_add] at h hcut ⊢
    have htexts : ∀ l ∈ front, Lexes (l.text source) [l.token] := fun l hl =>
      hcut.lexes_text rfl l (List.mem_append_left _ hl) (hfront l hl)
    have hend : Lexeme.text ⟨.eof, source.length, source.length⟩ source = [] := by
      rw [Lexeme.text, Nat.sub_self, List.take_zero]
    have hall := exists_lex_texts front [⟨.eof, source.length, source.length⟩] htexts
      (List.forall_mem_singleton.2 hend)
    have hvisible := exists_lex_texts front [] htexts (List.forall_mem_nil _)
    rw [List.append_nil] at hvisible
    have htokens : List.map Lexeme.token (front ++ [⟨.eof, source.length, source.length⟩]) =
        front.map Lexeme.token ++ [.eof] := List.map_append
    rw [← htokens] at hvisible hall
    exact ⟨front, rfl, covers_of_lex h rfl hfront, hvisible, hall⟩

end Lexer

end HtmlTemplate
