import HtmlTemplate.Proofs.Expr.Links
import HtmlTemplate.Proofs.Expr.Memo
import HtmlTemplate.Proofs.Expr.Tokens

/-!
Links behind parentheses.

The tree of an expression has no parentheses: a link behind them is one more link of the expression
inside. It reads a property of the value of that expression, unless the expression is a chain that
is left early; then the link behind the parentheses is passed over with the rest of the chain.
-/

namespace HtmlTemplate

namespace Expr

variable {c : Context}

/-! ### Extents do not matter -/

mutual

lemma reach_bare (c : Context) : ∀ e : Expr, reach c e.bare = reach c e
  | number .. | string .. | boolean .. | null .. | undefined .. | identifier .. => by
    rw [bare, reach, reach]
  | unary _ op a => by rw [bare, reach, reach, reach_bare c a]
  | binary _ op a b => by rw [bare, reach, reach, reach_bare c a, reach_bare c b]
  | field _ o optional _ name => by
    rw [bare, reach, reach, reach_bare c o]
  | index _ o optional key => by
    rw [bare, reach, reach, reach_bare c o, reach_bare c key]
  | ternary _ condition a b => by
    rw [bare, reach, reach, reach_bare c condition, reach_bare c a, reach_bare c b]
  | array _ items => by rw [bare, reach, reach, reachItems_bare c items]
  | object _ properties => by rw [bare, reach, reach, reachProperties_bare c properties]

lemma reachItems_bare (c : Context) :
    ∀ es : List Expr, reachItems c (bareItems es) = reachItems c es
  | [] => rfl
  | e :: es => by rw [bareItems, reachItems, reachItems, reach_bare c e, reachItems_bare c es]

lemma reachProperties_bare (c : Context) :
    ∀ ps : List (Property Expr), reachProperties c (bareProperties ps) = reachProperties c ps
  | [] => rfl
  | ⟨key, e, shorthand⟩ :: ps => by
    rw [bareProperties, bareProperty, reachProperties, reachProperties, reach_bare c e,
      reachProperties_bare c ps]

end

lemma reach_eq_of_bare {a b : Expr} (h : a.bare = b.bare) (c : Context) :
    reach c a = reach c b := by
  rw [← reach_bare c a, h, reach_bare]

lemma eval_eq_of_bare {a b : Expr} (h : a.bare = b.bare) (c : Context) : a.eval c = b.eval c := by
  rw [eval, eval, reach_eq_of_bare h]

/-! ### Reading a property of a value -/

/-- The property of a value that an expression on its own has, or the error that there is none. -/
def access (p : Text) : Except EvalError Json → Except EvalError Json
  | .error e => .error e
  | .ok .null => .error (.nullAccess p)
  | .ok v => .ok ((v.part? p).getD .null)

lemma access_ok (p : Text) (v : Json) : access p (.ok v) = v.property p := by
  rw [Json.property_eq]
  cases v <;> rfl

lemma eval_of_reach_none {e : Expr} (h : reach c e = .ok none) : e.eval c = .ok .null := by
  rw [eval, h]
  rfl

/-- A link that is not optional reads a property of the value, if a value is reached before it. -/
lemma eval_link {o : Expr} {l : Link} {p : Text} (hoptional : l.optional = false)
    (hkey : l.key.evaluate c = .ok p) (hreach : reach c o ≠ .ok none) :
    (o.link l).eval c = access p (o.eval c) := by
  rw [eval, eval, reach_link]
  rcases hr : reach c o with e | _ | v
  · rfl
  · exact absurd hr hreach
  · change (reachLink c l (some v)).map settle = access p (.ok v)
    rw [reachLink, hoptional, Bool.false_and, if_neg Bool.false_ne_true, hkey, access_ok]
    change (do return some (← v.property p) : Except EvalError (Option Json)).map settle = _
    cases v.property p <;> rfl

end Expr

/-! ### Words -/

namespace Lexer

open Text

/-- A name as it is written in an expression. -/
def isWord : Text → Bool
  | [] => false
  | c :: t => startsWord c && t.all continuesWord

lemma continuesWord_of_startsWord {c : Char} (h : startsWord c = true) :
    continuesWord c = true := by
  have hascii : c.toNat < 128 := by
    have := bounds_of_startsWord h
    omega
  simp only [startsWord, Bool.or_eq_true] at h
  simp only [continuesWord, Bool.or_eq_true]
  refine h.imp_left (Or.imp_left fun halpha => ?_)
  rw [isAlphanumeric, if_pos hascii, Char.isAlphanum, halpha, Bool.true_or]

variable {p : Text}

lemma forall_of_isWord (hp : isWord p = true) : p ≠ [] ∧ ∀ c ∈ p, isSpace c = false := by
  cases p with
  | nil => cases hp
  | cons c t =>
    rw [isWord, Bool.and_eq_true, List.all_eq_true] at hp
    obtain ⟨hc, ht⟩ := hp
    exact ⟨List.cons_ne_nil c t, List.forall_mem_cons.2
      ⟨isSpace_of_continuesWord (continuesWord_of_startsWord hc),
        fun d hd => isSpace_of_continuesWord (ht d hd)⟩⟩

lemma startsWithDigit_of_isWord (hp : isWord p = true) : startsWithDigit p = false := by
  cases p with
  | nil => cases hp
  | cons c t =>
    rw [isWord, Bool.and_eq_true] at hp
    have hbounds := bounds_of_startsWord hp.1
    refine Bool.eq_false_iff.2 fun hdigit => ?_
    have := bounds_of_isDigit hdigit
    omega

lemma lexes_of_isWord (hp : isWord p = true) : Lexes p [wordToken p] := by
  have hspace := (forall_of_isWord hp).2
  cases p with
  | nil => cases hp
  | cons c t =>
    rw [isWord, Bool.and_eq_true, List.all_eq_true] at hp
    refine .token (hspace c List.mem_cons_self) (scan_word hp.1 hp.2) ?_
    rw [List.length_cons, Nat.add_sub_cancel, List.drop_length]
    exact .nil

end Lexer

/-- A word with a meaning of its own is a name after a point. -/
lemma Grammar.name_wordToken (p : Text) : Name (Lexer.wordToken p) p := by
  unfold Lexer.wordToken
  split_ifs with htrue hfalse hnull hundefined
  · exact htrue ▸ .true
  · exact hfalse ▸ .false
  · exact hnull ▸ .null
  · exact hundefined ▸ .undefined
  · exact .identifier p

/-! ### A text in parentheses -/

/-- A text in parentheses, with a point and a name behind it. -/
def inParens (e p : Text) : Text := '(' :: e ++ ')' :: '.' :: p

section

variable {e p : Text}

lemma Lexer.Lexes.inParens {us : List Token} (h : Lexes e us) (hp : isWord p = true) :
    Lexes (inParens e p) (.leftParen :: us ++ [.rightParen] ++ [.dot, wordToken p]) := by
  have hdot : scan '.' p = .ok (.dot, 1) := by
    rw [scan, startsWithDigit_of_isWord hp]
    rfl
  have hbehind : Lexes (')' :: '.' :: p) [.rightParen, .dot, wordToken p] :=
    .token rfl rfl (.token rfl hdot (lexes_of_isWord hp))
  have hbreaks : Breaks (')' :: '.' :: p) := fun d hd => .inr (Option.some.inj hd).symm
  rw [List.append_assoc]
  exact .token rfl rfl (h.append hbreaks hbehind)

/-- The link that a point and a name are. -/
def dotted (p : Text) : Expr.Link := ⟨Expr.nowhere, false, .field Expr.nowhere p⟩

lemma Expr.exists_parse_inParens {tree : Expr} (he : parse e = .ok tree)
    (hp : Lexer.isWord p = true) :
    ∃ whole, parse (inParens e p) = .ok whole ∧ whole.bare = (tree.link (dotted p)).bare := by
  obtain ⟨us, hus, hd⟩ := exists_lexes_of_parse he
  refine exists_parse_of_lexes (hus.inParens hp) ?_
  have hlink := Derives.field (.unlinked (.parens hd)) (Grammar.name_wordToken p)
  rw [dotted, link, bare]
  exact .single ((Derives.operand (.unsigned hlink)).mono (Nat.zero_le _))

lemma trim_inParens (e : Text) (hp : Lexer.isWord p = true) :
    Text.trim (inParens e p) = inParens e p := by
  obtain ⟨hne, hspace⟩ := Lexer.forall_of_isWord hp
  refine Text.trim_eq_self (fun c hc => ?_) fun c hc => hspace c (List.mem_of_mem_getLast? ?_)
  · obtain rfl := Option.some.inj hc
    rfl
  · obtain ⟨d, p, rfl⟩ := List.exists_cons_of_ne_nil hne
    rwa [inParens, List.getLast?_append_cons, List.getLast?_cons_cons,
      List.getLast?_cons_cons] at hc

end

lemma eq_null_of_isNull {x : Except EvalError Json} (h : x.toOption.map Json.isNull = some true) :
    x = .ok .null := by
  cases x with
  | error e => cases h
  | ok v => rw [Json.isNull_iff.1 (Option.some.inj h)]

/-- **A name behind parentheses reads a property of the value inside**, and fails as reading the
property does, exactly if the expression inside is no chain that is left early. If it is one, the
value is `null` with the name and without it. -/
theorem evaluate_inParens {e p : Text} {tree : Expr} (he : Expr.parse e = .ok tree)
    (hp : Lexer.isWord p = true) (c : Context) {m : Memo} (hm : m.Sound) :
    let value := (exec (evaluate c e) m).1
    let property := (exec (evaluate c (inParens e p)) m).1
    (property = Expr.access p value ↔ ¬ tree.LeftEarly c) ∧
      (tree.LeftEarly c → value = .ok .null ∧ property = .ok .null) := by
  intro value property
  obtain ⟨us, hus, hd⟩ := Expr.exists_lexes_of_parse he
  obtain ⟨inner, hinner, hbare⟩ := Expr.exists_parse_of_lexes hus.trim hd
  obtain ⟨whole, hwhole, hlink⟩ := Expr.exists_parse_inParens he hp
  have hvalue : value = tree.eval c := by
    refine (fst_exec_evaluate hm c e).trans ?_
    rw [hinner]
    exact Expr.eval_eq_of_bare hbare c
  have hproperty : property = (tree.link (dotted p)).eval c := by
    refine (fst_exec_evaluate hm c _).trans ?_
    rw [trim_inParens e hp, hwhole]
    exact Expr.eval_eq_of_bare hlink c
  rw [hvalue, hproperty]
  have hearly (h : tree.LeftEarly c) :
      tree.eval c = .ok .null ∧ (tree.link (dotted p)).eval c = .ok .null :=
    ⟨Expr.eval_of_reach_none (Expr.reach_eq_none_iff.2 h),
      Expr.eval_of_reach_none (Expr.reach_eq_none_iff.2 (h.link _))⟩
  refine ⟨⟨fun hsame h => ?_, fun h => ?_⟩, hearly⟩
  · obtain ⟨hnull, hlinked⟩ := hearly h
    rw [hnull, hlinked] at hsame
    cases hsame
  · exact Expr.eval_link rfl rfl (mt Expr.reach_eq_none_iff.1 h)

/-- An optional link that meets no `null` does not matter behind the parentheses. -/
theorem evaluate_inParens_defined :
    let c := Context.empty.bind "a" (.object [("b", .object [("d", .bool true)])])
    let value := (exec (evaluate c " a?.b ") (Memo.empty 0)).1
    let property := (exec (evaluate c (inParens " a?.b " "d")) (Memo.empty 0)).1
    (∃ tree, Expr.parse " a?.b " = .ok tree) ∧ Lexer.isWord "d" = true ∧
      property = Expr.access "d" value ∧ property.toOption.map Json.countsAsTrue = some true := by
  intro c value property
  have hword : Lexer.isWord "d" = true := by decide
  have hnull : value.toOption.map Json.isNull = some false := by decide +kernel
  obtain ⟨tree, htree⟩ := Expr.exists_parse " a?.b " (by decide +kernel)
  obtain ⟨hiff, hearly⟩ := evaluate_inParens htree hword c (Memo.sound_empty 0)
  refine ⟨⟨tree, htree⟩, hword, hiff.2 fun h => ?_, by decide +kernel⟩
  have hvalue : value = .ok .null := (hearly h).1
  rw [hvalue] at hnull
  cases hnull

/-- In parentheses or not, a chain that an optional link ends is `null`, and so is any link behind
it. -/
theorem evaluate_inParens_early :
    let c := Context.empty.bind "a" .null
    let value := (exec (evaluate c "a?.b") (Memo.empty 0)).1
    let property := (exec (evaluate c "(a?.b).d") (Memo.empty 0)).1
    (∃ tree, Expr.parse "a?.b" = .ok tree) ∧ value = .ok .null ∧ property = .ok .null ∧
      property ≠ Expr.access "d" value := by
  intro c value property
  have hvalue : value = .ok .null := eq_null_of_isNull (by decide +kernel)
  have hproperty : property = .ok .null := eq_null_of_isNull (by decide +kernel)
  refine ⟨Expr.exists_parse "a?.b" (by decide +kernel), hvalue, hproperty, ?_⟩
  rw [hvalue, hproperty]
  exact nofun

end HtmlTemplate
