import HtmlTemplate.Proofs.Render.Lexical

/-!
Scopes that differ in what stands around them.

Surroundings have the tree around and the fills for their holes themselves, so it does not matter
what number and which fills a scope has for them.
-/

namespace HtmlTemplate

/-- A scope with another number for the tree around, and other fills. -/
def Scope.inPlace (scope : Scope) (tree : Option Nat) (fills : Option (Record Text)) : Scope :=
  { scope with tree := tree, fills := fills }

section InPlace

variable (tree : Option Nat) (fills : Option (Record Text))

lemma holds_inPlace (source : Option Text) (scope : Scope) :
    holds source (scope.inPlace tree fills) = holds source scope := by
  cases source <;> rfl

lemma chooseFrom_inPlace (stop skip : Option Text) (scopes : List Scope) :
    ∀ chosen, chooseFrom stop skip (chosen.map (·.inPlace tree fills))
        (scopes.map (·.inPlace tree fills)) =
      List.map (·.inPlace tree fills) <$> chooseFrom stop skip chosen scopes := by
  induction scopes with
  | nil =>
    intro chosen
    simp [chooseFrom]
  | cons scope scopes ih =>
    intro chosen
    rw [List.map_cons, chooseFrom, chooseFrom, map_bind, holds_inPlace, holds_inPlace]
    refine bind_congr fun stops => ?_
    cases stops with
    | true => simp
    | false =>
      simp only [Bool.false_eq_true, if_false, map_bind]
      refine bind_congr fun skips => ?_
      cases skips with
      | true => simp [ih]
      | false => simpa using ih (scope :: chosen)

lemma loopScopes_inPlace (n : Node) (scope : Scope) :
    loopScopes n (scope.inPlace tree fills) =
      List.map (·.inPlace tree fills) <$> loopScopes n scope := by
  simp only [loopScopes, map_bind]
  refine bind_congr fun on => bind_congr fun l => bind_congr fun step => bind_congr fun items => ?_
  have hchoose := chooseFrom_inPlace tree fills (n.attributes.get? "break")
    (n.attributes.get? "continue") (items.map fun item => scope.extend (item.bindings l)) []
  rw [List.map_map] at hchoose
  exact hchoose

lemma decideFrom_inPlace (t : Template) (scope : Scope) (ns : List Node) :
    ∀ state, decideFrom t (scope.inPlace tree fills) state ns = decideFrom t scope state ns := by
  induction ns with
  | nil => exact fun _ => rfl
  | cons n ns ih =>
    intro state
    simp only [decideFrom, ih]
    rfl

namespace Node

lemma evaluateAll_inPlace (scope : Scope) (attributes : List (Text × Text)) :
    evaluateAll (scope.inPlace tree fills) attributes = evaluateAll scope attributes := by
  induction attributes with
  | nil => rfl
  | cons a attributes ih =>
    simp only [evaluateAll, ih]
    rfl

lemma siblingsBy_inPlace (t : Template) (scope : Scope) (watch : Node → Render Unit)
    (element : Node → Bool → Render Text) (ns : List Node) :
    siblingsBy t (scope.inPlace tree fills) watch element ns =
      siblingsBy t scope watch element ns := by
  have hrule : ∀ n b, siblingsBy.nodeBy t (scope.inPlace tree fills) element n b =
      siblingsBy.nodeBy t scope element n b := by
    intro n b
    cases n with
    | leaf kind raw line => cases kind <;> rfl
    | element head closed children => rfl
  simp only [siblingsBy, decideBranches, decideFrom_inPlace, hrule]

end Node

/-- The number and the fills in a scope play no part. -/
def Walk.IgnoresPlace (walk : Walk) : Prop :=
  ∀ t ns (scope : Scope) tree fills, walk t ns (scope.inPlace tree fills) = walk t ns scope

namespace Node

variable {walk : Walk} (hw : walk.IgnoresPlace) (t : Template) (n : Node) (scope : Scope)
include hw

lemma renderIn_inPlace (body : List Node) (scopes : List Scope) :
    renderIn walk t body (scopes.map (·.inPlace tree fills)) = renderIn walk t body scopes := by
  have hbody : (fun scope => walk t body scope) ∘ (·.inPlace tree fills) =
      fun scope => walk t body scope := funext fun scope => hw t body scope tree fills
  rw [renderIn, renderIn, Render.fanOut_map, hbody]

lemma renderLoop_inPlace :
    renderLoop walk t n (scope.inPlace tree fills) = renderLoop walk t n scope := by
  rw [renderLoop, loopScopes_inPlace, bind_map_left]
  exact bind_congr fun scopes => renderIn_inPlace tree fills hw t n.children scopes

lemma renderBinding_inPlace :
    renderBinding walk t n (scope.inPlace tree fills) = renderBinding walk t n scope := by
  rw [renderBinding, renderBinding, evaluateAll_inPlace]
  split
  · rfl
  · exact bind_congr fun vars => hw t n.children (scope.extend vars) tree fills

lemma renderFills_inPlace (parts : List (Text × Node)) :
    renderFills walk t parts (scope.inPlace tree fills) = renderFills walk t parts scope := by
  simp only [renderFills, hw t _ scope tree fills]

lemma renderPlain_inPlace :
    renderPlain walk t n (scope.inPlace tree fills) = renderPlain walk t n scope := by
  simp only [renderPlain, hw t _ scope tree fills]
  rfl

end Node

namespace Lexical

variable {setup : Setup} {watch : Watch} {lexical : Surroundings → Walk}
  (hw : ∀ e, (lexical e).IgnoresPlace) (e : Surroundings) (t : Template) (n : Node) (scope : Scope)
include hw

lemma renderItems_inPlace (f : Expansion) (items : List Json) :
    renderItems lexical e f items (scope.inPlace tree fills) =
      renderItems lexical e f items scope := by
  have hscopes : items.map (fun v => (scope.inPlace tree fills).extend [(f.item, v)]) =
      (items.map fun v => scope.extend [(f.item, v)]).map (·.inPlace tree fills) := by
    rw [List.map_map]
    rfl
  rw [renderItems, renderItems, hscopes, Node.renderIn_inPlace tree fills (hw e)]

lemma renderTree_inPlace :
    renderTree lexical e t n (scope.inPlace tree fills) = renderTree lexical e t n scope := by
  unfold renderTree
  refine bind_congr fun on => bind_congr fun b => bind_congr fun v => ?_
  cases v with
  | array items =>
    refine congrArg (Render.insideTree _) (funext fun id => ?_)
    exact renderItems_inPlace (some id) fills hw _ { scope with tree := some id } _ _
  | _ => rfl

lemma renderChildren_inPlace :
    renderChildren lexical e n (scope.inPlace tree fills) = renderChildren lexical e n scope := by
  unfold renderChildren
  cases e.tree with
  | none => rfl
  | some f =>
    have hcontext : (scope.inPlace tree fills).context = scope.context := rfl
    dsimp only
    rw [hcontext]
    cases Node.itemField scope.context f.item _ with
    | array items => exact renderItems_inPlace tree fills hw _ _ _ _
    | _ => rfl

lemma renderInclusion_inPlace :
    renderInclusion setup lexical e t n (scope.inPlace tree fills) =
      renderInclusion setup lexical e t n scope := by
  simp only [renderInclusion, Node.renderFills_inPlace tree fills (hw e)]
  rfl

lemma renderElement_inPlace (taken : Bool) :
    renderElement setup lexical e t n (scope.inPlace tree fills) taken =
      renderElement setup lexical e t n scope taken := by
  have hchildren := hw e t n.children scope tree fills
  unfold renderElement
  cases Directive.ofTag? n.tag with
  | none => exact Node.renderPlain_inPlace tree fills (hw e) _ _ _
  | some d =>
    refine congrArg (Node.mark setup d <$> ·) ?_
    cases d with
    | ifBranch | elifBranch | elseBranch =>
      change (if taken = true then _ else _) = (if taken = true then _ else _)
      rw [hchildren]
    | loop => exact Node.renderLoop_inPlace tree fills (hw e) _ _ _
    | binding => exact Node.renderBinding_inPlace tree fills (hw e) _ _ _
    | tree => exact renderTree_inPlace tree fills hw _ _ _ _
    | children => exact renderChildren_inPlace tree fills hw _ _ _
    | inclusion => exact renderInclusion_inPlace tree fills hw _ _ _ _
    | hole =>
      change renderHole _ _ _ _ _ = renderHole _ _ _ _ _
      rw [renderHole, renderHole, hchildren]
    | fill => rfl
    | html => exact hw e t n.children { scope with raw := true } tree fills

end Lexical

omit tree fills in
lemma Lexical.ignoresPlace_walk (setup : Setup) (depth : Nat) :
    ∀ e, (Lexical.walk setup unwatched depth e).IgnoresPlace := by
  induction depth with
  | zero => exact fun _ _ _ _ _ _ => rfl
  | succ depth ih =>
    intro e t ns scope tree fills
    have helement :
        (fun n => renderElement setup (Lexical.walk setup unwatched depth) e t n
          (scope.inPlace tree fills)) =
          fun n => renderElement setup (Lexical.walk setup unwatched depth) e t n scope :=
      funext fun n => funext fun taken => renderElement_inPlace tree fills ih e t n scope taken
    rw [Lexical.walk, Lexical.walk, renderSiblings, renderSiblings, Node.siblingsBy_inPlace,
      helement]
    rfl

end InPlace

end HtmlTemplate
