import HtmlTemplate.Proofs.Expr.Lexing
import HtmlTemplate.Proofs.Expr.Parse

/-!
White space in expressions.

The words of an expression put together again with single blanks are the same expression, if no
string in it has white space of another kind: each token is found again with the white space behind
it squeezed to a seam, and the trees depend on nothing but the tokens.
-/

namespace HtmlTemplate

open Text

/-- The part of an expression that a token covers. -/
def Lexeme.text (l : Lexeme) (source : Text) : Text :=
  (source.drop l.extent.start).take (l.extent.stop - l.extent.start)

def Token.isString : Token → Bool
  | string _ => true
  | _ => false

namespace Lexer

variable {source t : Text}

/-- The strings in an expression as they are written, with their quotes. -/
def literals (source : Text) : List Text :=
  match lex source with
  | .ok ls => (ls.filter fun l => l.token.isString).map fun l => l.text source
  | .error _ => []

/-- A blank in front does not matter. -/
lemma exists_lexFrom_seam {us : List Token}
    (h : ∀ place, ∃ ls, lexFrom place (squeeze t) = .ok ls ∧ ls.map Lexeme.token = us)
    (place : Nat) : ∃ ls, lexFrom place (seam t) = .ok ls ∧ ls.map Lexeme.token = us := by
  rcases seam_eq t with he | he
  · rw [he]
    exact h place
  · rw [he, lexFrom_space place rfl]
    exact h (place + 1)

lemma exists_lexFrom_of_isBlank (h : isBlank t = true) (place : Nat) :
    ∃ stop, lexFrom place t = .ok [⟨.eof, stop, stop⟩] := by
  induction t generalizing place with
  | nil => exact ⟨place, lexFrom_nil place⟩
  | cons c t ih =>
    obtain ⟨hc, ht⟩ := List.forall_mem_cons.1 (isBlank_iff.1 h)
    rw [lexFrom_space place hc]
    exact ih (isBlank_iff.2 ht) (place + 1)

/-- From any place on, a squeezed text has the same tokens. -/
lemma map_token_lexFrom_squeeze {place : Nat} {ls : List Lexeme} (hs : source.drop place = t)
    (h : lexFrom place t = .ok ls)
    (hplain : ∀ l ∈ ls, l.token.isString = true → squeeze (l.text source) = l.text source)
    (place' : Nat) :
    ∃ ls', lexFrom place' (squeeze t) = .ok ls' ∧ ls'.map Lexeme.token = ls.map Lexeme.token := by
  induction place, t using lexFrom.induct generalizing ls place' with
  | case1 place =>
    rw [lexFrom_nil] at h
    cases h
    exact ⟨_, lexFrom_nil place', rfl⟩
  | case2 place c t hc ih =>
    rw [lexFrom_space place hc] at h
    rw [squeeze_cons_space hc]
    exact ih (by rw [← List.drop_drop, hs]; rfl) h hplain place'
  | case3 place c t hc fault width hscan =>
    rw [lexFrom.eq_def] at h
    simp only [if_neg hc, hscan, reduceCtorEq] at h
  | case4 place c t hc token width hscan hlt ih =>
    rw [Bool.not_eq_true] at hc
    rw [lexFrom_token place hc hscan] at h
    -- the token is `c` and `y`, and `r` follows it
    obtain ⟨y, r, rfl, rfl, hother, hsame⟩ := scan_seam hc hscan
    simp only [Nat.add_sub_cancel, List.drop_left] at h ih
    cases hms : lexFrom (place + (y.length + 1)) r with
    | error e =>
      rw [hms] at h
      cases h
    | ok ms =>
      rw [hms] at h
      cases h
      obtain ⟨hfirst, hrest⟩ := List.forall_mem_cons.1 hplain
      have hy : seam y = y := by
        by_cases hstring : token.isString = true
        · have htext := hfirst hstring
          simp only [Lexeme.text, hs, Nat.add_sub_cancel_left, List.take_succ_cons,
            List.take_left] at htext
          rw [squeeze_cons hc] at htext
          exact (List.cons.inj htext).2
        · exact hother fun v hv => hstring (by rw [hv]; rfl)
      obtain ⟨hseam, hscan'⟩ := hsame hy
      have hdrop : source.drop (place + (y.length + 1)) = r := by
        rw [← List.drop_drop, hs, List.drop_succ_cons, List.drop_left]
      obtain ⟨ls', hls', htokens⟩ :=
        exists_lexFrom_seam (ih hdrop hms hrest) (place' + (y.length + 1))
      refine ⟨⟨token, place', place' + (y.length + 1)⟩ :: ls', ?_, ?_⟩
      · rw [squeeze_cons hc, lexFrom_token place' hc hscan', hseam, Nat.add_sub_cancel,
          List.drop_left, hls']
        rfl
      · rw [List.map_cons, List.map_cons, htokens]

end Lexer

/-- **An expression with its white space squeezed to single blanks is read as the same tree**, if
the strings in it are the same squeezed. -/
theorem Expr.parse_squeeze {source : Text} {tree : Expr} (h : parse source = .ok tree)
    (hplain : ∀ x ∈ Lexer.literals source, squeeze x = x) :
    ∃ tree', parse (squeeze source) = .ok tree' ∧ tree'.bare = tree.bare := by
  obtain ⟨ls, hls, hd⟩ := exists_derives_of_parse h
  have hliteral : ∀ l ∈ ls, l.token.isString = true → squeeze (l.text source) = l.text source := by
    intro l hl hstring
    refine hplain _ ?_
    rw [Lexer.literals, hls]
    exact List.mem_map_of_mem (List.mem_filter.2 ⟨hl, hstring⟩)
  obtain ⟨ls', hls', htokens⟩ :=
    Lexer.map_token_lexFrom_squeeze (List.drop_zero : source.drop 0 = source) hls hliteral 0
  refine exists_parse_of_derives hls' ?_
  rwa [Lexemes.tokens, htokens]

/-- An expression is not blank. -/
lemma Expr.isBlank_of_parse {source : Text} {tree : Expr} (h : parse source = .ok tree) :
    isBlank source = false := by
  by_contra hblank
  rw [Bool.not_eq_false] at hblank
  obtain ⟨ls, hls, hd⟩ := exists_derives_of_parse h
  obtain ⟨place, hend⟩ := Lexer.exists_lexFrom_of_isBlank hblank 0
  rw [Lexer.lex, hend] at hls
  cases hls
  exact hd.start

end HtmlTemplate
