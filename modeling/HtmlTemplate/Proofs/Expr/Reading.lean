import Mathlib.Tactic.Lemma
import HtmlTemplate.Expr.Parser

/-!
Runs of parsers that succeed, as a relation between the tokens before and after.
-/

namespace HtmlTemplate

/-- A token that is no operator with a power above `least`. -/
def Token.Slack (least : Nat) (t : Token) : Prop :=
  ∀ op power, t.binaryOp? = some (op, power) → power ≤ least

namespace Lexemes

/-- The tokens before the end. -/
def tokens (ls : Lexemes) : List Token := (ls.map Lexeme.token).takeWhile (· ≠ .eof)

/-- The last token is the end. -/
def Ended (ls : Lexemes) : Prop := ∃ front l, ls = front ++ [l] ∧ l.token = .eof

/-- A token that is not the end has others behind it. -/
lemma Ended.eq_cons {ls : Lexemes} (h : Ended ls) (hn : ls.next.token ≠ .eof) :
    ls = ls.next :: ls.rest ∧ Ended ls.rest := by
  obtain ⟨front, l, rfl, hl⟩ := h
  match front with
  | [] => exact absurd hl hn
  | [m] => exact ⟨rfl, [], l, rfl, hl⟩
  | m :: k :: front => exact ⟨rfl, k :: front, l, rfl, hl⟩

@[simp]
lemma next_cons (l : Lexeme) (ls : Lexemes) : next (l :: ls) = l := rfl

lemma rest_cons (l : Lexeme) {ls : Lexemes} (h : ls ≠ []) : rest (l :: ls) = ls := by
  cases ls with
  | nil => exact absurd rfl h
  | cons m ls => rfl

end Lexemes

namespace Parser

/-- A parser gives `a` and leaves `ls'` of the tokens. -/
def Reads {α : Type} (x : Parser α) (ls : Lexemes) (a : α) (ls' : Lexemes) : Prop :=
  x.run ls = .ok (a, ls')

variable {α β : Type} {ls ls' : Lexemes}

@[simp]
lemma reads_pure {a b : α} : Reads (pure a) ls b ls' ↔ a = b ∧ ls = ls' := by
  have hrun : (pure a : Parser α).run ls = .ok (a, ls) := rfl
  simp [Reads, hrun]

lemma reads_bind {x : Parser α} {f : α → Parser β} {b : β} :
    Reads (x >>= f) ls b ls' ↔ ∃ a ms, Reads x ls a ms ∧ Reads (f a) ms b ls' := by
  simp only [Reads, StateT.run_bind]
  cases h : x.run ls with
  | error e => simp [bind, Except.bind]
  | ok p => simp [bind, Except.bind, Prod.ext_iff, and_assoc]

@[simp]
lemma reads_map {x : Parser α} {f : α → β} {b : β} :
    Reads (f <$> x) ls b ls' ↔ ∃ a, Reads x ls a ls' ∧ f a = b := by
  rw [← bind_pure_comp, reads_bind]
  simp

@[simp]
lemma reads_peek {l : Lexeme} : Reads peek ls l ls' ↔ ls.next = l ∧ ls = ls' := by
  have hrun : peek.run ls = .ok (ls.next, ls) := rfl
  simp [Reads, hrun]

@[simp]
lemma reads_advance {u : Unit} : Reads advance ls u ls' ↔ ls.rest = ls' := by
  have hrun : advance.run ls = .ok ((), ls.rest) := rfl
  simp [Reads, hrun]

@[simp]
lemma reads_peek_bind {f : Lexeme → Parser β} {b : β} :
    Reads (peek >>= f) ls b ls' ↔ Reads (f ls.next) ls b ls' := by
  simp [reads_bind, and_assoc]

@[simp]
lemma reads_advance_bind {x : Parser β} {b : β} :
    Reads (advance >>= fun _ => x) ls b ls' ↔ Reads x ls.rest b ls' := by
  simp [reads_bind]

@[simp]
lemma not_reads_fail {message : Text} {a : α} : ¬ Reads (fail message) ls a ls' := by
  have hrun : ∃ e, (fail message : Parser α).run ls = .error e := ⟨_, rfl⟩
  obtain ⟨e, he⟩ := hrun
  simp [Reads, he]

@[simp]
lemma not_reads_exhausted {a : α} : ¬ Reads exhausted ls a ls' := not_reads_fail

@[simp]
lemma reads_expect {token : Token} {what : Text} {l : Lexeme} :
    Reads (expect token what) ls l ls' ↔
      ls.next.token = token ∧ ls.next = l ∧ ls.rest = ls' := by
  simp only [expect, reads_peek_bind]
  split
  · simp [*, and_comm]
  · simp [*]

@[simp]
lemma reads_field {object e : Expr} {optional : Bool} :
    Reads (field object optional) ls e ls' ↔
      ∃ name, ls.next.token.propertyName? = some name ∧
        .field ⟨object.extent.start, ls.next.extent.stop⟩ object optional ls.next.extent name = e ∧
        ls.rest = ls' := by
  simp only [field, reads_peek_bind]
  split
  · simp [*, and_comm]
  · simp [*]

/-! ### Rows -/

/-- Items up to a closing token, with commas between them and perhaps one behind the last. -/
def row (close : Token) (one : Parser α) (others : Parser (List α)) : Parser (List α) := do
  if (← peek).token = close then return []
  else
    let a ← one
    if (← peek).token = .comma then
      advance
      return a :: (← others)
    else return [a]

lemma items_eq_row (steps : Nat) :
    items (steps + 1) = row .rightBracket (ternary steps) (items steps) := by
  rw [items, row]

lemma properties_eq_row (steps : Nat) :
    properties (steps + 1) = row .rightBrace (property steps) (properties steps) := by
  rw [properties, row]

lemma reads_row {close : Token} {one : Parser α} {others : Parser (List α)} {as : List α} :
    Reads (row close one others) ls as ls' ↔
      if ls.next.token = close then as = [] ∧ ls = ls'
      else ∃ a ms, Reads one ls a ms ∧
        if ms.next.token = .comma then ∃ more, Reads others ms.rest more ls' ∧ as = a :: more
        else as = [a] ∧ ms = ls' := by
  rw [row, reads_peek_bind]
  split
  · rw [reads_pure, eq_comm]
  · rw [reads_bind]
    refine exists_congr fun a => exists_congr fun ms => and_congr_right fun _ => ?_
    rw [reads_peek_bind]
    split
    · rw [reads_advance_bind, reads_bind]
      simp [eq_comm]
    · rw [reads_pure, eq_comm]

section Row

variable {close : Token} {one : Parser α} {others : Parser (List α)} {a : α} {as : List α}
  {ms : Lexemes}

lemma reads_row_nil (h : ls.next.token = close) : Reads (row close one others) ls [] ls := by
  rw [reads_row, if_pos h]
  exact ⟨rfl, rfl⟩

lemma reads_row_last (hl : ls.next.token ≠ close) (ha : Reads one ls a ms)
    (hm : ms.next.token ≠ .comma) : Reads (row close one others) ls [a] ms := by
  rw [reads_row, if_neg hl]
  exact ⟨a, ms, ha, by rw [if_neg hm]; exact ⟨rfl, rfl⟩⟩

lemma reads_row_more (hl : ls.next.token ≠ close) (ha : Reads one ls a ms)
    (hm : ms.next.token = .comma) (has : Reads others ms.rest as ls') :
    Reads (row close one others) ls (a :: as) ls' := by
  rw [reads_row, if_neg hl]
  exact ⟨a, ms, ha, by rw [if_pos hm]; exact ⟨as, has, rfl⟩⟩

end Row

end Parser

end HtmlTemplate
