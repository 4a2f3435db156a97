import Mathlib.Data.List.TakeWhile
import HtmlTemplate.Proofs.Expr.Completeness
import HtmlTemplate.Proofs.Expr.Soundness

/-!
The parser of expressions is the grammar.

It accepts the sources whose tokens the grammar derives, and answers with the one tree that they
derive.
-/

namespace HtmlTemplate

open Lexemes HtmlTemplate.Parser

/-- The tokens of an expression have an end. -/
lemma Lexer.ended_lexFrom {place : Nat} {t : Text} {ls : Lexemes} (h : lexFrom place t = .ok ls) :
    Ended ls := by
  induction place, t using lexFrom.induct generalizing ls with
  | case1 place =>
    rw [lexFrom.eq_def] at h
    cases h
    exact ⟨[], _, rfl, rfl⟩
  | case2 place c t hc ih =>
    rw [lexFrom.eq_def] at h
    exact ih (by simpa only [if_pos hc] using h)
  | case3 place c t hc fault width hs =>
    rw [lexFrom.eq_def] at h
    simp only [if_neg hc, hs, reduceCtorEq] at h
  | case4 place c t hc token width hs hlt ih =>
    rw [lexFrom.eq_def] at h
    simp only [if_neg hc, hs] at h
    cases hr : lexFrom (place + width) (t.drop (width - 1)) with
    | error e =>
      rw [hr] at h
      cases h
    | ok ms =>
      rw [hr] at h
      cases h
      obtain ⟨front, l, rfl, hl⟩ := ih hr
      exact ⟨⟨token, place, place + width⟩ :: front, l, rfl, hl⟩

namespace Lexemes

variable {ls ls' : Lexemes} {us : List Token}

/-- Tokens before the end, and the end. -/
lemma Ended.eq_append (h : Ended ls) :
    ∃ xs rest, ls = xs ++ rest ∧ xs.map Lexeme.token = ls.tokens ∧ rest ≠ [] ∧
      rest.next.token = .eof := by
  let p : Lexeme → Bool := fun l => decide (l.token ≠ .eof)
  have hp : ls.takeWhile p ++ ls.dropWhile p = ls := List.takeWhile_append_dropWhile
  have hhead := List.head?_dropWhile_not p ls
  cases hd : ls.dropWhile p with
  | nil =>
    obtain ⟨front, l, rfl, hl⟩ := h
    exact absurd hl (by simpa [p] using List.dropWhile_eq_nil_iff.1 hd l (by simp))
  | cons m ms =>
    rw [hd] at hp hhead
    refine ⟨_, m :: ms, hp.symm, ?_, by simp, by simpa [p] using hhead⟩
    rw [tokens, List.takeWhile_map]
    rfl

lemma Took.tokens_eq (h : Took ls us ls') (hus : .eof ∉ us) (hl : ls'.next.token = .eof) :
    ls.tokens = us := by
  obtain ⟨heq, front, l, rfl, hend⟩ := h
  have hhead : ((front ++ [l]).map Lexeme.token).takeWhile (· ≠ .eof) = [] := by
    cases front <;> simp_all
  rw [tokens, heq, List.takeWhile_append_of_pos, hhead, List.append_nil]
  intro t ht
  simp only [decide_eq_true_eq]
  rintro rfl
  exact hus ht

end Lexemes

/-- The end is in no derivation. -/
lemma Derives.eof_notMem {c : Category} {us : List Token} {t : c.Tree} (h : Derives c us t) :
    .eof ∉ us := by
  induction h with
  | @operator level us vs a b t op _ hop _ iha ihb =>
    have ht := Grammar.binaryOp?_eq_some_iff.2 ⟨_, rfl, hop⟩
    have hne : .eof ≠ t := by
      rintro rfl
      cases ht
    simp [iha, ihb, hne]
  | field _ hn ih | optionalField _ hn ih => cases hn <;> simp [ih]
  | literal h => cases h <;> simp
  | pair hk _ ih => cases hk <;> simp [ih]
  | _ => simp_all

lemma Parser.reads_whole {steps : Nat} {ls ls' : Lexemes} {e : Expr} :
    Reads (whole steps) ls e ls' ↔ Reads (ternary steps) ls e ls' ∧ ls'.next.token = .eof := by
  simp only [whole, reads_bind, reads_peek]
  constructor
  · rintro ⟨a, ms, ha, l, ms', ⟨rfl, rfl⟩, h⟩
    split at h
    · rename_i hl
      obtain ⟨rfl, rfl⟩ := reads_pure.1 h
      exact ⟨ha, hl⟩
    · exact absurd h not_reads_fail
  · rintro ⟨h, hl⟩
    exact ⟨e, ls', h, _, _, ⟨rfl, rfl⟩, by simp [hl]⟩

lemma Expr.parse_eq_ok_iff {source : Text} {e : Expr} :
    parse source = .ok e ↔
      ∃ ls ls', Lexer.lex source = .ok ls ∧ Reads (whole (stepsFor ls)) ls e ls' := by
  unfold parse Reads
  cases Lexer.lex source with
  | error l => simp
  | ok ls =>
    cases h : (whole (stepsFor ls)).run ls with
    | error x => simp [Except.map, h]
    | ok p => simp [Except.map, h, Prod.ext_iff]

variable {ls : Lexemes}

/-- What the grammar derives from the tokens of a whole expression is what the parser reads. -/
lemma Derives.exists_reads_whole {tree : Expr} (hl : Ended ls)
    (h : Derives .ternary ls.tokens tree) :
    ∃ e ls', Reads (whole (stepsFor ls)) ls e ls' ∧ e.bare = tree := by
  obtain ⟨xs, rest, rfl, hxs, hr, hend⟩ := hl.eq_append
  have hfollow : Category.ternary.Follow rest.next.token := by
    simp [Category.Follow, hend, Token.Links, Token.binaryOp?]
  obtain ⟨e, he, hreads⟩ := h.complete xs rest (stepsFor (xs ++ rest)) hxs hr hfollow
    (by simp only [Category.margin, stepsFor, List.length_append]; omega)
  exact ⟨e, rest, reads_whole.2 ⟨hreads, hend⟩, he⟩

lemma Parser.Reads.derives {ls' : Lexemes} {steps : Nat} {e : Expr} (hl : Ended ls)
    (h : Reads (whole steps) ls e ls') : Derives .ternary ls.tokens e.bare := by
  obtain ⟨h, hend⟩ := reads_whole.1 h
  obtain ⟨us, hus, hd⟩ := (sound steps).ternary hl h
  rwa [hus.tokens_eq hd.eof_notMem hend]

/-- **The grammar is unambiguous.** -/
theorem Derives.unique {us : List Token} {a b : Expr} (ha : Derives .ternary us a)
    (hb : Derives .ternary us b) : a = b := by
  let xs : Lexemes := us.map fun t => ⟨t, Expr.nowhere⟩
  let rest : Lexemes := [⟨.eof, Expr.nowhere⟩]
  have hxs : xs.map Lexeme.token = us := by
    rw [List.map_map]
    exact List.map_id us
  have hfollow : Category.ternary.Follow rest.next.token := by
    simp [rest, next, Category.Follow, Token.Links, Token.binaryOp?]
  have hr : rest ≠ [] := by simp [rest]
  obtain ⟨e, rfl, he⟩ := ha.complete xs rest _ hxs hr hfollow (Nat.le_refl _)
  obtain ⟨e', rfl, he'⟩ := hb.complete xs rest _ hxs hr hfollow (Nat.le_refl _)
  cases he.symm.trans he'
  rfl

namespace Expr

variable {source : Text}

/-- A text that can be read has a tree. -/
lemma exists_parse (t : Text) (h : (parse t).toOption.isSome = true) :
    ∃ tree, parse t = .ok tree := by
  cases hparse : parse t with
  | error err =>
    rw [hparse] at h
    cases h
  | ok tree => exact ⟨tree, rfl⟩

lemma exists_derives_of_parse {e : Expr} (h : parse source = .ok e) :
    ∃ ls, Lexer.lex source = .ok ls ∧ Derives .ternary (Lexemes.tokens ls) e.bare := by
  obtain ⟨ls, ls', hl, h⟩ := parse_eq_ok_iff.1 h
  exact ⟨ls, hl, h.derives (Lexer.ended_lexFrom hl)⟩

lemma exists_parse_of_derives {tree : Expr} (hl : Lexer.lex source = .ok ls)
    (h : Derives .ternary ls.tokens tree) : ∃ e, parse source = .ok e ∧ e.bare = tree := by
  obtain ⟨e, ls', h, he⟩ := h.exists_reads_whole (Lexer.ended_lexFrom hl)
  exact ⟨e, parse_eq_ok_iff.2 ⟨ls, ls', hl, h⟩, he⟩

end Expr

/-- **The parser accepts the language of the grammar and gives its trees.** -/
theorem Expr.parse_iff_derives (source : Text) (tree : Expr) :
    (∃ e, parse source = .ok e ∧ e.bare = tree) ↔
      ∃ ls, Lexer.lex source = .ok ls ∧ Derives .ternary (Lexemes.tokens ls) tree := by
  constructor
  · rintro ⟨e, he, rfl⟩
    exact exists_derives_of_parse he
  · rintro ⟨ls, hl, hd⟩
    exact exists_parse_of_derives hl hd

end HtmlTemplate
