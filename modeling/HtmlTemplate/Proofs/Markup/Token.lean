import Mathlib.Data.List.Basic
import HtmlTemplate.Markup.Placeholder
import HtmlTemplate.Proofs.Text.Numeral

/-!
Tokens in a text. A token is read back as itself wherever it stands, and the three walks over a
text (decoding, taking, counting line feeds) pass over an ordinary character and enter the span
of a known token; these are the only equations of the walks that are used elsewhere.
-/

namespace HtmlTemplate

/-- The characters that tokens are made of. -/
def inToken (c : Char) : Bool := c == tokenOpening || c == tokenClosing || c.isDigit

namespace Placeholders

lemma inToken_of_mem {c : Char} {n : Nat} (h : c ∈ token n) : inToken c = true := by
  simp only [token, List.mem_cons, List.mem_append, List.not_mem_nil, or_false] at h
  rcases h with rfl | h | rfl
  · simp [inToken]
  · simp [inToken, Text.isDigit_of_mem_numeral h]
  · simp [inToken]

lemma not_mem_token {c : Char} (hc : inToken c = false) (n : Nat) : c ∉ token n :=
  fun h => by simp [inToken_of_mem h] at hc

lemma closeToken?_append {a t : Text} (h : tokenClosing ∉ a) :
    closeToken? (a ++ tokenClosing :: t) = some (a ++ [tokenClosing], t) := by
  induction a with
  | nil => simp [closeToken?]
  | cons c a ih =>
    simp only [List.mem_cons, not_or] at h
    rw [List.cons_append, closeToken?, if_neg (Ne.symm h.1), ih h.2]
    rfl

lemma closing_not_mem_numeral (n : Nat) : tokenClosing ∉ Text.numeral n := by
  intro h
  exact absurd (Text.isDigit_of_mem_numeral h) (by decide)

lemma pieces_char {c : Char} (hc : c ≠ tokenOpening) (t : Text) :
    pieces (c :: t) = .char c :: pieces t := by
  rw [pieces, if_neg hc]

lemma pieces_of_close {t body rest : Text} (h : closeToken? t = some (body, rest)) :
    pieces (tokenOpening :: t) = .token (tokenOpening :: body) :: pieces rest := by
  rw [pieces, if_pos rfl]
  split
  · next h' =>
    rw [h, Option.some.injEq, Prod.mk.injEq] at h'
    rw [h'.1, h'.2]
  · next h' =>
    rw [h] at h'
    cases h'

lemma pieces_of_open {t : Text} (h : closeToken? t = none) :
    pieces (tokenOpening :: t) = .char tokenOpening :: pieces t := by
  rw [pieces, if_pos rfl]
  split
  · next h' =>
    rw [h] at h'
    cases h'
  · rfl

lemma pieces_token (n : Nat) (t : Text) : pieces (token n ++ t) = .token (token n) :: pieces t := by
  have h : closeToken? (Text.numeral n ++ [tokenClosing] ++ t) =
      some (Text.numeral n ++ [tokenClosing], t) := by
    rw [List.append_assoc]
    exact closeToken?_append (closing_not_mem_numeral n)
  exact pieces_of_close h

lemma filter_isDigit_token (n : Nat) : (token n).filter Char.isDigit = Text.numeral n := by
  have h : (Text.numeral n).filter Char.isDigit = Text.numeral n :=
    List.filter_eq_self.2 fun c hc => Text.isDigit_of_mem_numeral hc
  rw [token, List.filter_cons_of_neg (by decide), List.filter_append, h,
    List.filter_cons_of_neg (by decide), List.filter_nil, List.append_nil]

@[simp] lemma number?_token (n : Nat) : number? (token n) = some n := by
  simp [number?, filter_isDigit_token, Text.digitsValue_numeral]

lemma number?_eq_some_iff {k : Text} {n : Nat} : number? k = some n ↔ k = token n := by
  constructor
  · intro h
    rw [number?] at h
    split at h
    · next hk =>
      rw [← Option.some.inj h]
      exact hk
    · cases h
  · rintro rfl
    exact number?_token n

lemma get?_token (p : Placeholders) (n : Nat) : p.get? (token n) = p.find? n := by
  simp [get?]

lemma get?_eq_some_iff {p : Placeholders} {k span : Text} :
    p.get? k = some span ↔ ∃ n, k = token n ∧ p.find? n = some span := by
  rw [get?, Option.bind_eq_some_iff]
  simp only [number?_eq_some_iff]

lemma mem_entries {p : Placeholders} {n : Nat} {span : Text} (h : p.find? n = some span) :
    (n, span) ∈ p.entries := by
  obtain ⟨before, after, hentries, -⟩ := List.lookup_eq_some_iff.1 h
  simp [hentries]

lemma token_injective {m n : Nat} (h : token m = token n) : m = n := by
  have := congrArg number? h
  simpa using this

/-- Texts that are the same begin with the same token. -/
lemma eq_of_token_append {m n : Nat} {s t : Text} (h : token m ++ s = token n ++ t) : m = n := by
  have hpieces := congrArg pieces h
  rw [pieces_token, pieces_token, List.cons.injEq, Piece.token.injEq] at hpieces
  exact token_injective hpieces.1

@[simp] lemma fst_insert (p : Placeholders) (span : Text) :
    (p.insert span).1 = token (p.issued + 1) := rfl

/-- The table without the entries of some numbers. -/
def without (p : Placeholders) (ns : List Nat) : Placeholders :=
  { p with entries := p.entries.filter fun e => e.1 ∉ ns }

@[simp] lemma without_nil (p : Placeholders) : p.without [] = p := by
  simp [without]

lemma without_without (p : Placeholders) (ms ns : List Nat) :
    (p.without ms).without ns = p.without (ms ++ ns) := by
  simp only [without, List.filter_filter]
  congr 2
  funext e
  simp [Bool.and_comm]

lemma erase_token (p : Placeholders) (n : Nat) : p.erase (token n) = p.without [n] := by
  simp [erase, without]

lemma lookup_filter {es : List (Nat × Text)} {ns : List Nat} {n : Nat} (h : n ∉ ns) :
    (es.filter fun e => e.1 ∉ ns).lookup n = es.lookup n := by
  induction es with
  | nil => rfl
  | cons e es ih =>
    obtain ⟨m, s⟩ := e
    by_cases hn : n = m
    · subst hn
      rw [List.filter_cons_of_pos (by simpa using h)]
      simp
    · have hb : (n == m) = false := by simpa using hn
      rw [List.lookup_cons, hb]
      by_cases hm : m ∈ ns
      · rw [List.filter_cons_of_neg (by simpa using hm), ih]
      · rw [List.filter_cons_of_pos (by simpa using hm), List.lookup_cons, hb, ih]

lemma find?_without {p : Placeholders} {ns : List Nat} {n : Nat} (h : n ∉ ns) :
    (p.without ns).find? n = p.find? n := lookup_filter h

/-! ### The walks over a text -/

lemma decodeWithin_char (p : Placeholders) (d : Nat) {c : Char} (hc : c ≠ tokenOpening) (t : Text) :
    p.decodeWithin d (c :: t) = c :: p.decodeWithin d t := by
  cases d with
  | zero => rfl
  | succ d => simp [decodeWithin, pieces_char hc]

lemma decodeWithin_token {p : Placeholders} {n : Nat} {span : Text} (h : p.find? n = some span)
    (d : Nat) (t : Text) :
    p.decodeWithin (d + 1) (token n ++ t) = p.decodeWithin d span ++ p.decodeWithin (d + 1) t := by
  simp [decodeWithin, pieces_token, get?_token, h]

lemma newlinesWithin_char (p : Placeholders) (d : Nat) {c : Char} (hc : c ≠ tokenOpening)
    (t : Text) :
    p.newlinesWithin d (c :: t) = (if c = '\n' then 1 else 0) + p.newlinesWithin d t := by
  cases d <;> simp [newlinesWithin, newlinesBy, pieces_char hc]

lemma newlinesWithin_token {p : Placeholders} {n : Nat} {span : Text} (h : p.find? n = some span)
    (d : Nat) (t : Text) :
    p.newlinesWithin (d + 1) (token n ++ t) =
      p.newlinesWithin d span + p.newlinesWithin (d + 1) t := by
  simp [newlinesWithin, newlinesBy, pieces_token, get?_token, h]

lemma takeWithin_char (d : Nat) (p : Placeholders) {c : Char} (hc : c ≠ tokenOpening) (t : Text) :
    takeWithin d p (c :: t) = (c :: (takeWithin d p t).1, (takeWithin d p t).2) := by
  cases d with
  | zero => rfl
  | succ d => simp [takeWithin, takePieces, pieces_char hc]

lemma takeWithin_token {p : Placeholders} {n : Nat} {span : Text} (h : p.find? n = some span)
    (d : Nat) (t : Text) :
    takeWithin (d + 1) p (token n ++ t) =
      let (a, q) := takeWithin d (p.without [n]) span
      let (b, q) := takeWithin (d + 1) q t
      (a ++ b, q) := by
  simp [takeWithin, takePieces, pieces_token, get?_token, h, erase_token]

end Placeholders

end HtmlTemplate
