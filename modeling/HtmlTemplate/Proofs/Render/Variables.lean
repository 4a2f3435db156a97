import HtmlTemplate.Proofs.Expr.Lexing
import HtmlTemplate.Proofs.Expr.Memo
import HtmlTemplate.Proofs.Expr.Parse
import HtmlTemplate.Proofs.Render.Ending
import HtmlTemplate.Render.Directive

/-!
Which names of variables can be read.

A name that a loop or a tree binds may begin with any letter, and may be one of the words that stand
for constants. An expression is another thing: there a word begins with a letter of ASCII, and a
constant is never looked up.
-/

namespace HtmlTemplate

open Text

variable {c : Char} {n t : Text}

/-! ### Names -/

namespace Text

lemma isAlphanumeric_of_isAlphabetic (h : isAlphabetic c = true) : isAlphanumeric c = true := by
  unfold isAlphabetic at h
  unfold isAlphanumeric
  split at h
  · next hascii =>
    rw [if_pos hascii, Char.isAlphanum, h, Bool.true_or]
  · next hascii => rw [if_neg hascii, h, Bool.true_or]

end Text

/-- All characters of a name may stand in a word. -/
lemma continuesWord_of_isVariableName (hn : isVariableName n = true) :
    n ≠ [] ∧ ∀ c ∈ n, Lexer.continuesWord c = true := by
  cases n with
  | nil => cases hn
  | cons c t =>
    rw [isVariableName, Bool.and_eq_true, List.all_eq_true] at hn
    obtain ⟨hc, ht⟩ := hn
    refine ⟨List.cons_ne_nil c t, List.forall_mem_cons.2 ⟨?_, ht⟩⟩
    simp only [Bool.or_eq_true] at hc
    simp only [Lexer.continuesWord, Bool.or_eq_true]
    exact hc.imp_left (Or.imp_left isAlphanumeric_of_isAlphabetic)

lemma isSpace_of_isVariableName (hn : isVariableName n = true) : ∀ c ∈ n, isSpace c = false :=
  fun c hc => Lexer.isSpace_of_continuesWord ((continuesWord_of_isVariableName hn).2 c hc)

lemma trim_of_isVariableName (hn : isVariableName n = true) : trim n = n := by
  have htrim := trim_append (continuesWord_of_isVariableName hn).1 (isSpace_of_isVariableName hn) []
  rwa [List.append_nil, dropEndWhile_eq_nil_iff.2 (by simp), List.append_nil] at htrim

/-! ### Names as expressions -/

lemma Lexer.exists_literal_wordToken (w : Text) : ∃ a, Grammar.Literal (wordToken w) a := by
  unfold wordToken
  split_ifs <;> exact ⟨_, by constructor⟩

/-- The value of a token that is an operand by itself and no variable. -/
def Token.constant : Token → Json
  | number x => Json.ofFloat x
  | string s => .string s
  | boolean b => .bool b
  | _ => .null

namespace Expr

variable {e : Expr} {token : Token}

/-- A single token that is an operand is an expression. -/
lemma exists_parse_of_literal {a : Expr} {x y : Extent} (h : Grammar.Literal token a)
    (hlex : Lexer.lex t = .ok [⟨token, x⟩, ⟨.eof, y⟩]) : ∃ e, parse t = .ok e ∧ e.bare = a := by
  refine exists_parse_of_derives hlex ?_
  have htokens : Lexemes.tokens [⟨token, x⟩, ⟨.eof, y⟩] = [token] := by
    cases h <;> rfl
  rw [htokens]
  exact .single ((Derives.operand (.unsigned (.unlinked (.literal h)))).mono (Nat.zero_le _))

lemma eval_of_identifier {name : Text} {c : Context} {v : Json}
    (h : Grammar.Literal (.identifier name) e.bare) (hv : c.get? name = some v) :
    e.eval c = .ok v := by
  cases e <;> rw [bare] at h <;> cases h
  rw [eval, reach, hv]
  rfl

/-- An operand that is no variable has the same value in every context. -/
lemma eval_of_constant (h : Grammar.Literal token e.bare) (ht : ∀ name, token ≠ .identifier name)
    (c : Context) : e.eval c = .ok token.constant := by
  cases e <;> rw [bare] at h <;> cases h
  case identifier name => exact absurd rfl (ht name)
  all_goals rw [eval, reach]; rfl

end Expr

/-- Whether an expression of just this name is the variable: it begins with a letter of ASCII, an
underscore or a dollar sign, and is no constant. -/
def isReadable (n : Text) : Bool :=
  n.head?.any Lexer.startsWord && decide (Lexer.wordToken n = .identifier n)

lemma exists_parse_word (hn : isVariableName n = true) (hc : n.head?.any Lexer.startsWord = true) :
    ∃ e, Expr.parse n = .ok e ∧ Grammar.Literal (Lexer.wordToken n) e.bare := by
  obtain ⟨hne, hword⟩ := continuesWord_of_isVariableName hn
  obtain ⟨c, t, rfl⟩ := List.exists_cons_of_ne_nil hne
  obtain ⟨x, y, hlex⟩ := Lexer.lex_word hc hword
  obtain ⟨a, ha⟩ := Lexer.exists_literal_wordToken (c :: t)
  obtain ⟨e, he, rfl⟩ := Expr.exists_parse_of_literal ha hlex
  exact ⟨e, he, ha⟩

lemma exists_parse_error (hn : isVariableName n = true)
    (hc : n.head?.any Lexer.startsWord = false) : ∃ err, Expr.parse n = .error err := by
  cases n with
  | nil => cases hn
  | cons c t =>
    have hspace := isSpace_of_isVariableName hn c List.mem_cons_self
    have hascii : 128 ≤ c.toNat := by
      by_contra hascii
      rw [isVariableName, Bool.and_eq_true, isAlphabetic, if_pos (by omega)] at hn
      have hword : ((c :: t).head?.any Lexer.startsWord) = true := hn.1
      rw [hc] at hword
      cases hword
    rw [Expr.parse, Lexer.lex_error hascii hspace]
    exact ⟨_, rfl⟩

/-- **The variables that can be read.** An expression of just the name has the value that is bound
to the name, in any context, if the name begins with a letter of ASCII, an underscore or a dollar
sign and is no constant. Otherwise what is bound to it does not matter. -/
theorem evaluate_bind_iff (hn : isVariableName n = true) (c : Context) {m : Memo} (hm : m.Sound) :
    ((∀ v, (exec (evaluate (c.bind n v) n) m).1 = .ok v) ↔ isReadable n = true) ∧
      (isReadable n = false → ∀ v w,
        (exec (evaluate (c.bind n v) n) m).1 = (exec (evaluate (c.bind n w) n) m).1) := by
  simp only [fst_exec_evaluate hm, trim_of_isVariableName hn]
  have hsame (hread : isReadable n = false) (v w : Json) :
      ((Expr.parse n).mapError (.invalid n)).bind (fun e => e.eval (c.bind n v)) =
        ((Expr.parse n).mapError (.invalid n)).bind (fun e => e.eval (c.bind n w)) := by
    cases hword : n.head?.any Lexer.startsWord with
    | false =>
      obtain ⟨err, herr⟩ := exists_parse_error hn hword
      rw [herr]
      rfl
    | true =>
      obtain ⟨e, he, hliteral⟩ := exists_parse_word hn hword
      rw [isReadable, hword, Bool.true_and, decide_eq_false_iff_not] at hread
      have hconstant :=
        Expr.eval_of_constant hliteral ((Lexer.wordToken_cases n).resolve_left hread)
      rw [he]
      exact (hconstant _).trans (hconstant _).symm
  refine ⟨⟨fun hall => ?_, fun hread v => ?_⟩, hsame⟩
  · by_contra hread
    rw [Bool.not_eq_true] at hread
    have htwo := (hsame hread .null (.bool true)).trans (hall (.bool true))
    rw [hall .null] at htwo
    cases htwo
  · rw [isReadable, Bool.and_eq_true, decide_eq_true_eq] at hread
    obtain ⟨e, he, hliteral⟩ := exists_parse_word hn hread.1
    rw [hread.2] at hliteral
    rw [he]
    exact Expr.eval_of_identifier hliteral (Context.get?_extend_self c n v)

/-- A name of ASCII. -/
theorem evaluate_bind_iff_item : isVariableName "item" = true ∧
    ∀ v, (exec (evaluate (Context.empty.bind "item" v) "item") (Memo.empty 0)).1 = .ok v := by
  have hname : isVariableName "item" = true := by decide +kernel
  exact ⟨hname, (evaluate_bind_iff hname .empty (Memo.sound_empty 0)).1.2 (by decide +kernel)⟩

/-- A name that begins with a letter above ASCII cannot be read, and a constant hides a variable of
its name. -/
theorem evaluate_bind_iff_accent :
    let value (n : Text) := (exec (evaluate (Context.empty.bind n .null) n) (Memo.empty 0)).1
    isVariableName "é" = true ∧
      value "é" = .error (.invalid "é" ⟨"Unexpected character: 'é'", 1, 1⟩) ∧
      isVariableName "true" = true ∧ value "true" = .ok (.bool true) := by
  have haccent : isVariableName "é" = true := by decide +kernel
  have hconstant : isVariableName "true" = true := by decide +kernel
  intro value
  refine ⟨haccent, ?_, hconstant, ?_⟩
  · have hlex : Lexer.lex "é" = .error ⟨.unexpected 'é', 0, 1⟩ :=
      Lexer.lex_error (by decide) (by decide) []
    have hparse : Expr.parse "é" = .error ⟨"Unexpected character: 'é'", 1, 1⟩ := by
      rw [Expr.parse, hlex]
      rfl
    unfold value
    rw [fst_exec_evaluate (Memo.sound_empty 0), trim_of_isVariableName haccent, hparse]
    rfl
  · have hword : Lexer.wordToken "true" = .boolean true := by decide +kernel
    obtain ⟨e, he, hliteral⟩ := exists_parse_word hconstant (by decide)
    unfold value
    rw [fst_exec_evaluate (Memo.sound_empty 0), trim_of_isVariableName hconstant, he]
    exact Expr.eval_of_constant (hword ▸ hliteral) (by simp) _

end HtmlTemplate
