import Mathlib.Data.Bool.AllAny
import HtmlTemplate.Proofs.Expr.Escaping
import HtmlTemplate.Proofs.Markup.PlainText
import HtmlTemplate.Proofs.Render.Loaded
import HtmlTemplate.Proofs.Render.Static

/-!
A value between two texts.

The text of a value is filled in once, escaped, and is not read again for expressions or tags. Only
the last replacements look at it.
-/

namespace HtmlTemplate

variable {a b v : Text} {m : Memo}

/-- A template with nothing but a variable between two texts. -/
def aroundVariable (a b : Text) : Text := a ++ (Chunk.expression " s ").source ++ b

lemma chunks_aroundVariable (ha : '{' ∉ a) (hb : '{' ∉ b) :
    Chunk.chunks (aroundVariable a b) = [.literal a, .expression " s ", .literal b] := by
  have hopen : ¬ openBraces <:+: a ++ ['{'] := by
    rw [openBraces, Text.infix_append_iff_of_not_mem ha]
    decide
  have hbody : Chunk.IsBody " s " := ⟨' ', ['s', ' '], rfl, by decide⟩
  have hrest : ¬ openBraces <:+: b := fun hi => hb (hi.subset (by decide))
  rw [aroundVariable, Chunk.chunks_of_some (Chunk.first?_eq_some_iff.2 ⟨rfl, hopen, hbody⟩),
    Chunk.chunks_of_none (Chunk.first?_of_no_braces hrest)]

/-- The name of a variable that is an expression by itself. -/
def Expr.variable? : Expr → Option Text
  | identifier _ name => some name
  | _ => none

lemma parse_variable : ∃ extent, Expr.parse (Text.trim " s ") = .ok (.identifier extent "s") := by
  have hname : (Expr.parse (Text.trim " s ")).toOption.bind Expr.variable? = some "s" := by
    decide +kernel
  cases hparse : Expr.parse (Text.trim " s ") with
  | error e =>
    rw [hparse] at hname
    cases hname
  | ok e =>
    rw [hparse] at hname
    cases e with
    | identifier extent name =>
      cases hname
      exact ⟨extent, rfl⟩
    | _ => cases hname

lemma exec_evaluate_variable (hm : m.Sound) (v : Json) :
    ∃ m', exec (evaluate ⟨[[("s", v)]]⟩ " s ") m = (.ok v, m') := by
  obtain ⟨extent, hparse⟩ := parse_variable
  refine ⟨(m.parse (Text.trim " s ")).2, ?_⟩
  rw [evaluate, exec_bind, exec_readExpression hm, hparse]
  rfl

lemma exec_fillIn_variable (hm : m.Sound) (ha : '{' ∉ a) (hb : '{' ∉ b) (v : Text) :
    ∃ m', exec (fillIn ⟨[[("s", .string v)]]⟩ false (aroundVariable a b)) m =
      (.ok (a ++ escapeMarkup v ++ b), m') := by
  obtain ⟨m', hvalue⟩ := exec_evaluate_variable hm (.string v)
  refine ⟨m', ?_⟩
  rw [fillIn, chunks_aroundVariable ha hb]
  simp only [List.mapM_cons, List.mapM_nil, fillChunk, bind_assoc, pure_bind]
  rw [exec_bind, hvalue]
  change (Except.ok (a ++ (escapeMarkup v ++ (b ++ []))), m') = _
  rw [List.append_nil, List.append_assoc]

/-! ### A template of one text -/

variable {setup : Setup} {depth : Nat} {t : Template} {raw out : Text} {line : Nat} {scope : Scope}
  {s s' : Store}

lemma exec_walk_text (h : exec (Node.renderText raw scope) s = (.ok out, s')) :
    exec (walk setup (depth + 1) t [.leaf .text raw line] scope) s = (.ok out, s') := by
  have hnode : exec (Node.render setup (walk setup depth) t scope (.leaf .text raw line) none) s =
      (.ok out, s') := by
    change exec (Render.within _ (Node.renderText raw scope)) s = _
    rw [Render.exec_within, h]
    rfl
  have hparts : exec (Render.fanOut
      (fun (p : Node × Option Bool) => Node.render setup (walk setup depth) t scope p.1 p.2)
      [(.leaf .text raw line, none)]) s = (.ok [out], s') := by
    rw [Render.fanOut, Render.exec_fanOutFrom_cons, hnode]
    rfl
  have hbranches : decideBranches t scope [.leaf .text raw line] = pure [none] := rfl
  rw [walk, Node.renderSiblings, hbranches, pure_bind]
  change exec (Render.fanOut _ [(Node.leaf .text raw line, none)] >>= _) s = _
  rw [exec_bind, hparts]
  change (Except.ok [out].flatten, s') = _
  rw [List.flatten_singleton]

lemma mem_aroundVariable {c : Char} :
    c ∈ aroundVariable a b ↔ c ∈ a ∨ c ∈ (Chunk.expression " s ").source ∨ c ∈ b := by
  rw [aroundVariable, List.mem_append, List.mem_append, or_assoc]

lemma exec_rendered_aroundVariable (depth : Nat) (hs : s.memo.Sound)
    (ha : ∀ c ∈ ['<', '{', tokenOpening], c ∉ a) (hb : ∀ c ∈ ['<', '{', tokenOpening], c ∉ b)
    (r : Request) (loader : Loader) (file : Option Text) (v : Text) :
    ∃ s', exec (r.rendered loader (depth + 1) ⟨[[("s", .string v)]]⟩ file (aroundVariable a b)) s =
      (.ok (a ++ escapeMarkup v ++ b), s') := by
  have hnot : ∀ c ∈ ['<', tokenOpening], c ∉ aroundVariable a b := by
    intro c hc
    have hmem : c ∈ ['<', '{', tokenOpening] := by
      revert hc
      simp only [List.mem_cons, List.not_mem_nil, or_false]
      exact fun hc => hc.imp_right .inr
    have hvariable : c ∉ (Chunk.expression " s ").source := by
      rcases List.mem_cons.1 hc with rfl | hc
      · decide
      · rw [List.mem_singleton.1 hc]
        decide
    rw [mem_aroundVariable, not_or, not_or]
    exact ⟨ha c hmem, hvariable, hb c hmem⟩
  have hne : aroundVariable a b ≠ [] := by
    intro hnil
    have hbrace : '{' ∈ aroundVariable a b := mem_aroundVariable.2 (.inr (.inl (by decide)))
    rw [hnil] at hbrace
    cases hbrace
  obtain ⟨line, hparse⟩ :=
    parseTemplate_of_no_bracket (hnot _ (by decide)) hne (hnot _ (by decide))
  obtain ⟨m', hfill⟩ := exec_fillIn_variable hs (ha _ (by decide)) (hb _ (by decide)) v
  have hholes : checkHoles ⟨file, [.leaf .text (aroundVariable a b) line]⟩ = pure () := by
    rw [checkHoles, Node.nodesAll_leaf]
    rfl
  have hblank : ¬ Text.isBlank (aroundVariable a b) = true := by
    rw [Text.isBlank, List.all_eq_true]
    intro hspace
    exact absurd (hspace '{' (mem_aroundVariable.2 (.inr (.inl (by decide))))) (by decide)
  refine ⟨{ s with memo := m' }, ?_⟩
  rw [Request.rendered, hparse]
  dsimp only
  rw [hholes, pure_bind]
  refine exec_walk_text ?_
  rw [Node.renderText, if_neg hblank]
  change exec (Render.evaluating (fillIn ⟨[[("s", .string v)]]⟩ false (aroundVariable a b))) s = _
  rw [Render.exec_evaluating, hfill]
  rfl

/-- **The value of a variable is not read again.** A template with a variable between two texts is
rendered as the texts with the escaped value between them, in which only the last replacements are
made. They leave it as it is exactly if the value has none of their marks. -/
theorem Engine.render_aroundVariable (e : Engine) (ts : List Text) (he : e.Honest ts)
    (loader : Loader) (elapsed : Nat) (options : Options) (a b v : Text)
    (ha : ∀ c ∈ ['<', '{', '}', '@', tokenOpening], c ∉ a)
    (hb : ∀ c ∈ ['<', '{', '}', '@', tokenOpening], c ∉ b)
    (hdigest : Set.InjOn Digest.ofText {t | t = aroundVariable a b ∨ t ∈ ts}) :
    let r : Request := ⟨.text (aroundVariable a b), .object [("s", .string v)], options⟩
    (e.render loader elapsed r).1 = .ok (a ++ finishOutput elapsed (escapeMarkup v) ++ b) ∧
    ((e.render loader elapsed r).1 = .ok (a ++ escapeMarkup v ++ b) ↔
      ∀ mark ∈ [timestampMark, literalOpenBraces, literalCloseBraces], ¬ mark <:+: v) := by
  intro r
  have hload : r.load loader = pure (aroundVariable a b, options.filename) := rfl
  obtain ⟨s, hmemo, -, hbody⟩ := he.exec_body depthLimit hdigest (fun t ht => .inr ht) (.inl rfl)
    (show Context.ofJson? r.context = some ⟨[[("s", .string v)]]⟩ from rfl) hload
  have hplain : ∀ c ∈ ['<', '{', tokenOpening], c ∈ ['<', '{', '}', '@', tokenOpening] :=
    List.all_iff_forall_prop.1 (by decide)
  have hmarks : ∀ c ∈ ("@{}" : Text), c ∈ ['<', '{', '}', '@', tokenOpening] :=
    List.all_iff_forall_prop.1 (by decide)
  obtain ⟨s', hrendered⟩ := exec_rendered_aroundVariable 9999 (hmemo ▸ he.memo)
    (fun c hc => ha c (hplain c hc)) (fun c hc => hb c (hplain c hc)) r loader options.filename v
  have hrun : (e.render loader elapsed r).1 =
      .ok (a ++ finishOutput elapsed (escapeMarkup v) ++ b) := by
    change exec (r.rendered loader depthLimit _ _ _) s = _ at hrendered
    change (exec (finishOutput elapsed <$> r.body loader depthLimit) e.store).1 = _
    rw [exec_map, hbody, hrendered, ← finishOutput_between (fun c hc hm => ha c (hmarks c hm) hc)
      fun c hc hm => hb c (hmarks c hm) hc]
    rfl
  refine ⟨hrun, ?_⟩
  rw [hrun, Except.ok.injEq, List.append_left_inj, List.append_right_inj, finishOutput_eq_self_iff]
  have hmark : ∀ mark ∈ [timestampMark, literalOpenBraces, literalCloseBraces],
      (mark <:+: escapeMarkup v ↔ mark <:+: v) := by
    simp only [List.forall_mem_cons, List.not_mem_nil, false_implies, implies_true, and_true]
    exact ⟨infix_escapeMarkup_iff (by decide) (List.all_iff_forall_prop.1 (by decide)),
      infix_escapeMarkup_iff (by decide) (List.all_iff_forall_prop.1 (by decide)),
      infix_escapeMarkup_iff (by decide) (List.all_iff_forall_prop.1 (by decide))⟩
  exact forall₂_congr fun mark hm => not_congr (hmark mark hm)

/-- A value with a bracket, and with two braces that are no mark. -/
theorem Engine.render_aroundVariable_bracket :
    let r : Request := ⟨.text (aroundVariable "a" "b"), .object [("s", .string "<\x7b\x7b x")],
      .default⟩
    (new 1).Honest [] ∧
    (∀ c ∈ ['<', '{', '}', '@', tokenOpening], c ∉ ("a" : Text)) ∧
    (∀ c ∈ ['<', '{', '}', '@', tokenOpening], c ∉ ("b" : Text)) ∧
    Set.InjOn Digest.ofText {t | t = aroundVariable "a" "b" ∨ t ∈ ([] : List Text)} ∧
    ((new 1).render Library.empty.loader 0 r).1 = .ok "a&lt;\x7b\x7b xb" := by
  intro r
  have hdigest : Set.InjOn Digest.ofText
      {t | t = aroundVariable "a" "b" ∨ t ∈ ([] : List Text)} := by
    refine (Set.injOn_singleton _ (aroundVariable "a" "b")).mono ?_
    rintro t (rfl | ht)
    · rfl
    · cases ht
  have ha : ∀ c ∈ ['<', '{', '}', '@', tokenOpening], c ∉ ("a" : Text) :=
    List.all_iff_forall_prop.1 (by decide)
  have hb : ∀ c ∈ ['<', '{', '}', '@', tokenOpening], c ∉ ("b" : Text) :=
    List.all_iff_forall_prop.1 (by decide)
  refine ⟨honest_new 1, ha, hb, hdigest, ?_⟩
  exact (render_aroundVariable (new 1) [] (honest_new 1) Library.empty.loader 0 .default "a" "b"
    "<\x7b\x7b x" ha hb hdigest).2.2 (by decide)

/-- Literal opening braces in a value become braces. -/
theorem Engine.render_aroundVariable_braces :
    let r : Request := ⟨.text (aroundVariable [] []), .object [("s", .string literalOpenBraces)],
      .default⟩
    ((new 1).render Library.empty.loader 0 r).1.toOption = some openBraces ∧
    ((new 1).render Library.empty.loader 0 r).1 ≠
      .ok ([] ++ escapeMarkup literalOpenBraces ++ []) := by
  intro r
  have hrun : ((new 1).render Library.empty.loader 0 r).1.toOption = some openBraces := by
    decide +kernel
  refine ⟨hrun, fun h => ?_⟩
  rw [h] at hrun
  exact absurd hrun (by decide)

end HtmlTemplate
