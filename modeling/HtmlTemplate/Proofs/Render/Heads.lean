import HtmlTemplate.Proofs.Expr.Spacing
import HtmlTemplate.Proofs.Render.Loops
import HtmlTemplate.Proofs.Render.Variables

/-!
What the heads of loops and trees make of the expressions in them.

The head of a loop is read word by word, so its expression comes out with single blanks for all
white space, and is the same expression unless there is other white space inside a string. The head
of a tree is cut at the first ` as `, so it is read as meant unless the expression has one itself.
-/

namespace HtmlTemplate

open Text

variable {c : Char} {d e n t v : Text} {tree : Expr}

/-! ### Heads of loops -/

namespace LoopHead

/-- The word for what a loop runs over. -/
def word : LoopOver → Text
  | .values => "of"
  | .keys => "in"

/-- It is a word. -/
lemma word_plain (kind : LoopOver) : word kind ≠ [] ∧ ∀ c ∈ word kind, isSpace c = false := by
  cases kind <;> simp [word, isSpace]

lemma kind?_word (kind : LoopOver) : kind? (word kind) = some kind := by
  cases kind <;> decide

lemma kind?_eq_none (hof : v ≠ word .values) (hin : v ≠ word .keys) : kind? v = none :=
  (if_neg hof).trans (if_neg hin)

/-- One name without a comma is one variable. -/
lemma variables?_of_isVariableName (hv : isVariableName v = true) :
    variables? v = some (v, none) := by
  have hpieces : splitAt (· == ',') v = [v] := by
    refine splitAt_of_forall fun c hc => ?_
    have hword := (continuesWord_of_isVariableName hv).2 c hc
    rw [beq_eq_false_iff_ne]
    rintro rfl
    exact absurd hword (by decide)
  rw [variables?, hpieces, List.map_singleton, trim_of_isVariableName hv]
  exact if_pos hv

/-- A range has no white space. -/
lemma isSpace_of_range? {data : LoopData} (h : range? t = some data) (hc : c ∈ t) :
    isSpace c = false := by
  have hdigits {a : Text} {count : Nat} (ha : natural63? a = some count) :
      ∀ c ∈ a, isSpace c = false := fun c hc =>
    Lexer.isSpace_of_continuesNumber (by
      rw [Lexer.continuesNumber, (natural63?_eq_some_iff.1 ha).isDigit hc, Bool.true_or])
  unfold range? at h
  split at h
  · obtain ⟨count, hcount, -⟩ := Option.map_eq_some_iff.1 h
    exact hdigits hcount c hc
  · next a b hcut =>
    obtain ⟨first, hfirst, h⟩ := Option.bind_eq_some_iff.1 h
    obtain ⟨last, hlast, -⟩ := Option.bind_eq_some_iff.1 h
    rw [← append_cut? hcut, List.mem_append, List.mem_append, List.mem_singleton] at hc
    rcases hc with (hc | rfl) | hc
    · exact hdigits hfirst c hc
    · decide
    · exact hdigits hlast c hc

/-- **The expression of a loop keeps its words.** It is read as the expression that is written if
each string in it has no white space but single blanks. -/
theorem parse?_squeeze (kind : LoopOver) (hv : isVariableName v = true)
    (hof : v ≠ word .values) (hin : v ≠ word .keys) (he : Expr.parse e = .ok tree)
    (hrange : kind = .values → range? (trim e) = none) :
    parse? (v ++ ' ' :: word kind ++ ' ' :: e) = some ⟨v, none, kind, .expression (squeeze e)⟩ ∧
      ((∀ x ∈ Lexer.literals e, squeeze x = x) →
        ∃ tree', Expr.parse (squeeze e) = .ok tree' ∧ tree'.bare = tree.bare) := by
  refine ⟨?_, Expr.parse_squeeze he⟩
  have hwords : words (v ++ ' ' :: word kind ++ ' ' :: e) = v :: word kind :: words e := by
    rw [List.append_assoc, List.cons_append, words_append (continuesWord_of_isVariableName hv).1
      (isSpace_of_isVariableName hv), words_append (word_plain kind).1 (word_plain kind).2]
  have hsplit : splitWords (v :: word kind :: words e) = some ([v], kind, words e) := by
    rw [splitWords, kind?_eq_none hof hin, splitWords, kind?_word]
    rfl
  have hdata : data? kind (squeeze e) = some (.expression (squeeze e)) := by
    unfold data?
    rw [if_neg (squeeze_ne_nil (Expr.isBlank_of_parse he))]
    cases kind with
    | keys => rfl
    | values =>
      dsimp only
      cases hdata : range? (squeeze e) with
      | none => rfl
      | some data =>
        -- a range is a single word
        rw [squeeze_eq_trim fun _ => isSpace_of_range? hdata, hrange rfl] at hdata
        cases hdata
  have hjoin : joinWith [' '] [v] = v := by simp [joinWith]
  rw [parse?, hwords, hsplit]
  simp only [Option.bind_eq_bind, Option.bind_some, hjoin, variables?_of_isVariableName hv]
  rw [← squeeze, hdata]
  rfl

/-- White space of other kinds between tokens, and a string with a single blank. -/
theorem parse?_squeeze_between : ∃ tree tree',
    Expr.parse "rows [ 'x y' ]\n  .cells" = .ok tree ∧
      parse? "r of rows [ 'x y' ]\n  .cells" =
        some ⟨"r", none, .values, .expression "rows [ 'x y' ] .cells"⟩ ∧
      Expr.parse "rows [ 'x y' ] .cells" = .ok tree' ∧ tree'.bare = tree.bare := by
  obtain ⟨tree, htree⟩ := Expr.exists_parse "rows [ 'x y' ]\n  .cells" (by decide +kernel)
  obtain ⟨hparse, hread⟩ := parse?_squeeze (v := "r") .values (by decide +kernel) (by decide)
    (by decide) htree (fun _ => by decide +kernel)
  have hsource : squeeze "rows [ 'x y' ]\n  .cells" = "rows [ 'x y' ] .cells" := by
    decide +kernel
  rw [hsource] at hparse hread
  obtain ⟨tree', htree', hsame⟩ := hread (by decide +kernel)
  exact ⟨tree, tree', htree, hparse, htree', hsame⟩

/-- A string with two blanks loses one of them. -/
theorem parse?_squeeze_inside : ∃ tree tree', Expr.parse "'a  b'" = .ok tree ∧
    parse? "s of 'a  b'" = some ⟨"s", none, .values, .expression "'a b'"⟩ ∧
      Expr.parse "'a b'" = .ok tree' ∧ tree'.bare ≠ tree.bare := by
  have hlex : Lexer.lex "'a  b'" = .ok [⟨.string "a  b", 0, 6⟩, ⟨.eof, 6, 6⟩] := by decide +kernel
  have hlex' : Lexer.lex "'a b'" = .ok [⟨.string "a b", 0, 5⟩, ⟨.eof, 5, 5⟩] := by decide +kernel
  obtain ⟨tree, htree, hbare⟩ := Expr.exists_parse_of_literal (.string _) hlex
  obtain ⟨tree', htree', hbare'⟩ := Expr.exists_parse_of_literal (.string _) hlex'
  refine ⟨tree, tree', htree, by decide +kernel, htree', ?_⟩
  rw [hbare, hbare', Ne, Expr.string.injEq]
  decide

end LoopHead

/-! ### Heads of trees -/

namespace TreeHead

/-- A text that does not end like this stands further ahead. -/
lemma exists_concat {w x y u : Text} (hw : ∃ t d, w = t ++ [d] ∧ d ≠ c)
    (h : x ++ w ++ y = u ++ [c]) : ∃ y', y = y' ++ [c] ∧ x ++ w ++ y' = u := by
  rcases y.eq_nil_or_concat' with rfl | ⟨y', e, rfl⟩
  · obtain ⟨t, d, rfl, hne⟩ := hw
    rw [List.append_nil, ← List.append_assoc] at h
    exact absurd (List.append_inj_right' h rfl) (by simp [hne])
  · rw [← List.append_assoc] at h
    obtain ⟨hfront, hlast⟩ := List.append_inj' h rfl
    exact ⟨y', by rw [hlast], hfront⟩

/-- An ` as ` that begins earlier leaves the end of the other one to what stands behind it. -/
lemma exists_of_cut? {a b : Text} (h : cut? " as " (d ++ " as " ++ n) = some (a, b))
    (hearly : (" as " : Text) <:+: d ++ " as") : ∃ z, b = z ++ "as" ++ ' ' :: n := by
  obtain ⟨x, y, hxy⟩ := hearly
  have hend : ∀ c, ' ' ≠ c → ∃ t d, (" as " : Text) = t ++ [d] ∧ d ≠ c :=
    fun c hc => ⟨" as", ' ', rfl, hc⟩
  -- it ends with a blank, so it is over before the last two letters of `d ++ " as"`
  obtain ⟨y, rfl, hfront⟩ := exists_concat (x := x) (y := y) (u := d ++ " a")
    (hend 's' (by decide)) (by rw [hxy]; simp)
  obtain ⟨y, rfl, hstart⟩ := exists_concat (x := x) (y := y) (u := d ++ " ")
    (hend 'a' (by decide)) (by rw [hfront]; simp)
  have hwhole : d ++ " as " ++ n = x ++ " as " ++ (y ++ "as" ++ ' ' :: n) := by
    calc d ++ " as " ++ n
      _ = d ++ " " ++ ("as" ++ ' ' :: n) := by simp
      _ = x ++ " as " ++ (y ++ "as" ++ ' ' :: n) := by rw [← hstart]; simp
  have hle := length_le_of_cut? h hwhole
  have hsame : a ++ " as " ++ b = x ++ " as " ++ y ++ ("as" ++ ' ' :: n) := by
    rw [append_cut? h, hwhole]
    simp
  rcases List.append_eq_append_iff.1 hsame with ⟨z, -, hz⟩ | ⟨z, hz, hrest⟩
  · exact ⟨z, by rw [hz, List.append_assoc]⟩
  · have hlength := congrArg List.length hz
    simp only [List.length_append] at hlength
    obtain rfl : z = [] := List.eq_nil_of_length_eq_zero (by omega)
    exact ⟨[], hrest.symm⟩

/-- **The head of a tree is the expression and the variable** unless there is an ` as ` further
ahead; then what follows that one is no variable. -/
theorem parse?_as (he : Expr.parse d = .ok tree) (hn : isVariableName n = true) :
    parse? (d ++ " as " ++ n) =
      if (" as " : Text) <:+: d ++ " as" then none else some ⟨trim d, n⟩ := by
  have hdata : trim d ≠ [] := by
    rw [Ne, trim_eq_nil_iff, Expr.isBlank_of_parse he]
    exact Bool.false_ne_true
  split
  · next hearly =>
    obtain ⟨⟨a, b⟩, hcut⟩ := Option.isSome_iff_exists.1
      (isSome_cut? (p := " as ") (t := d ++ " as " ++ n) ⟨d, n, rfl⟩)
    obtain ⟨z, rfl⟩ := exists_of_cut? hcut hearly
    have hblank : ' ' ∈ trim (z ++ "as" ++ ' ' :: n) := by
      refine mem_trim ?_ (continuesWord_of_isVariableName hn).1
        (fun c hc => isSpace_of_isVariableName hn c (List.mem_of_mem_getLast? hc)) ' '
      by_contra hblank
      rw [Bool.not_eq_false, isBlank_iff] at hblank
      exact absurd (hblank 'a' (by simp)) (by decide)
    have hname : ¬ isVariableName (trim (z ++ "as" ++ ' ' :: n)) = true := fun hname =>
      absurd (isSpace_of_isVariableName hname ' ' hblank) (by decide)
    rw [parse?, hcut]
    exact if_neg fun h => hname h.2
  · next hearly =>
    have hcut : cut? " as " (d ++ " as " ++ n) = some (d, n) :=
      (cut?_eq_some_iff (p := " as") (c := ' ')).2 ⟨rfl, hearly⟩
    rw [parse?, hcut]
    dsimp only
    rw [trim_of_isVariableName hn, if_pos ⟨hdata, hn⟩]

/-- A string may hold the word at its end. -/
theorem parse?_as_end : parse? "rows['known as'] as r" = some ⟨"rows['known as']", "r"⟩ := by
  obtain ⟨tree, htree⟩ := Expr.exists_parse "rows['known as']" (by decide +kernel)
  have hhead := parse?_as (n := "r") htree (by decide +kernel)
  have htrim : trim "rows['known as']" = "rows['known as']" := by decide +kernel
  rw [if_neg (by decide +kernel), htrim] at hhead
  exact hhead

/-- In the middle of a string it is taken for the end of the expression. -/
theorem parse?_as_inside : (Expr.parse "m['x as y']").toOption.isSome = true ∧
    isVariableName "n" = true ∧ parse? ("m['x as y']" ++ " as " ++ "n") = none := by
  decide +kernel

end TreeHead

end HtmlTemplate
