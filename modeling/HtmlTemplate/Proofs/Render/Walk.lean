import HtmlTemplate.Proofs.Files.Library
import HtmlTemplate.Proofs.Render.Agree
import HtmlTemplate.Engine

/-!
Rendering cannot tell related stores apart, if only loading a template cannot.

What relates the stores is left open but for what the renderer itself looks at: evaluating an
expression gives the same, and the tree expansions are the same. A directive is rendered alike if
its children are, in the scopes it makes for them.
-/

namespace HtmlTemplate

/-- A relation between stores that evaluation does not see. -/
structure Blind (S : Store → Store → Prop) : Prop where
  evaluating : ∀ (c : Context) (source : Text),
    Agree S (Render.evaluating (evaluate c source)) (Render.evaluating (evaluate c source))
  filling : ∀ (c : Context) (raw : Bool) (t : Text),
    Agree S (Render.evaluating (fillIn c raw t)) (Render.evaluating (fillIn c raw t))

/-- A relation between stores that evaluation and tree expansions do not see. -/
structure Unseen (S : Store → Store → Prop) : Prop extends Blind S where
  trees : ∀ {s s' : Store}, S s s' → s.trees = s'.trees
  setTrees : ∀ {s s' : Store} (ts : Expansions), S s s' →
    S { s with trees := ts } { s' with trees := ts }

namespace Scope

/-- A scope inside another one, with no tree and no inclusion between them. -/
structure Around (outer inner : Scope) : Prop where
  tree : inner.tree = outer.tree
  fills : inner.fills = outer.fills

lemma around_refl (scope : Scope) : scope.Around scope := ⟨rfl, rfl⟩

lemma around_extend (scope : Scope) (vars : Record Json) : scope.Around (scope.extend vars) :=
  ⟨rfl, rfl⟩

end Scope

namespace Node

/-- Renders siblings by a rule for their elements, after all their branches are decided. Something
may be done before each of them. -/
def siblingsBy (t : Template) (scope : Scope) (watch : Node → Render Unit)
    (element : Node → Bool → Render Text) (ns : List Node) : Render Text := do
  let taken ← decideBranches t scope ns
  let parts ← Render.fanOut (fun (n, b) => do watch n; nodeBy n b) (ns.zip taken)
  return parts.flatten
where
  nodeBy (n : Node) (taken : Option Bool) : Render Text :=
    match n with
    | .leaf .doctype raw _ => pure raw
    | .leaf .instruction raw _ => pure raw
    | .leaf _ raw _ => Render.within (t.place n) (renderText raw scope)
    | .element .. => Render.within (t.place n) (element n (taken.getD false))

lemma renderSiblings_eq (setup : Setup) (walk : Walk) (t : Template) (ns : List Node)
    (scope : Scope) :
    renderSiblings setup walk t ns scope =
      siblingsBy t scope (fun _ => pure ()) (fun n => renderElement setup walk t n scope) ns := by
  have hrule : ∀ x : Node × Option Bool, render setup walk t scope x.1 x.2 =
      siblingsBy.nodeBy t scope (fun n => renderElement setup walk t n scope) x.1 x.2 := by
    rintro ⟨n, b⟩
    cases n with
    | leaf kind raw line => cases kind <;> rfl
    | element head closed children => rfl
  simp only [renderSiblings, siblingsBy, hrule, pure_bind]

end Node

section

variable {α : Type} {S : Store → Store → Prop}

/-! ### What no store plays a part in -/

lemma agree_demand (name : Text) (n : Node) : Agree S (demand name n) (demand name n) := by
  unfold demand
  split
  · exact agree_pure _
  · exact Render.agree_misuse _ _

lemma agree_checkHoles (t : Template) : Agree S (checkHoles t) (checkHoles t) := by
  unfold checkHoles
  split
  · exact agree_pure _
  · exact Render.agree_within _ (Render.agree_misuse _ _)

lemma fillsFrom_cons (t : Template) (seen : List Text) (n : Node) (ns : List Node) :
    fillsFrom t seen (n :: ns) =
      if !n.isElement then fillsFrom t seen ns
      else if !isFill n then
        Render.within (t.place n) (Render.misuse .invalidChild
          ("t-include only accepts t-fill children, found <" ++ n.tag ++ ['>']))
      else if slotName n ∈ seen then
        Render.within (t.place n)
          (Render.misuse .duplicateSlotName (repeatedMessage .fill (slotName n)))
      else ((slotName n, n) :: ·) <$> fillsFrom t (slotName n :: seen) ns := rfl

lemma agree_fillsFrom (t : Template) (ns : List Node) :
    ∀ seen, Agree S (fillsFrom t seen ns) (fillsFrom t seen ns) := by
  induction ns with
  | nil => exact fun seen => agree_pure _
  | cons n ns ih =>
    intro seen
    rw [fillsFrom_cons]
    split
    · exact ih seen
    · split
      · exact Render.agree_within _ (Render.agree_misuse _ _)
      · split
        · exact Render.agree_within _ (Render.agree_misuse _ _)
        · exact (ih _).map _

lemma agree_readFile (loader : Loader) (path : Text) :
    Agree S (readFile loader path) (readFile loader path) := by
  unfold readFile
  split
  · exact agree_throw _
  · exact Render.agree_fail _
  · split
    · exact agree_pure _
    · exact Render.agree_fail _

lemma gives_readFile (loader : Loader) (path : Text) :
    Gives (readFile loader path) loader.Holds := by
  unfold readFile
  split
  · exact gives_throw _ _
  · exact gives_throw _ _
  · rename_i bytes h
    split
    · rename_i t ht
      exact gives_pure ⟨path, bytes, h, ht⟩
    · exact gives_throw _ _

lemma agree_readLoop (on : Text) : Agree S (readLoop on) (readLoop on) := by
  unfold readLoop
  split
  · exact agree_pure _
  · exact Render.agree_misuse _ _

lemma agree_loopStep (kind : LoopOver) (step : Option Text) :
    Agree S (loopStep kind step) (loopStep kind step) := by
  unfold loopStep
  split
  · split
    · exact agree_pure _
    · exact Render.agree_misuse _ _
  · exact agree_pure _

namespace Node

lemma agree_readBinding (on : Text) : Agree S (readBinding on) (readBinding on) := by
  unfold readBinding
  split
  · exact agree_pure _
  · exact Render.agree_misuse _ _

lemma agree_includedPath (t : Template) (file : Text) :
    Agree S (includedPath t file) (includedPath t file) := by
  unfold includedPath
  split
  · exact agree_pure _
  · exact Render.agree_fail _

end Node

/-! ### The scopes of a loop -/

lemma gives_chooseFrom (stop skip : Option Text) (scopes : List Scope) :
    ∀ chosen, Gives (chooseFrom stop skip chosen scopes) (· ⊆ chosen ++ scopes) := by
  induction scopes with
  | nil => exact fun chosen => gives_pure (by simp)
  | cons scope scopes ih =>
    intro chosen
    rw [chooseFrom]
    refine gives_bind fun stops => ?_
    split
    · exact gives_pure (by simp)
    · refine gives_bind fun skips => ?_
      split
      · exact (ih _).mono fun _ h => List.Subset.trans h (by simp)
      · exact (ih _).mono fun _ h => List.Subset.trans h (by simp)

/-- A loop makes scopes inside the one it stands in. -/
lemma gives_loopScopes (n : Node) (scope : Scope) :
    Gives (loopScopes n scope) fun scopes => ∀ inner ∈ scopes, scope.Around inner := by
  unfold loopScopes
  refine gives_bind fun on => ?_
  refine gives_bind fun l => ?_
  refine gives_bind fun step => ?_
  refine gives_bind fun items => ?_
  refine (gives_chooseFrom _ _ _ _).mono fun scopes h inner hinner => ?_
  rw [List.nil_append] at h
  obtain ⟨item, -, rfl⟩ := List.mem_map.1 (h hinner)
  exact scope.around_extend _

/-! ### Expressions -/

section Blind

variable (hS : Blind S)
include hS

lemma agree_evaluate (scope : Scope) (source : Text) :
    Agree S (scope.evaluate source) (scope.evaluate source) :=
  hS.evaluating scope.context source

lemma agree_fillIn (scope : Scope) (t : Text) : Agree S (scope.fillIn t) (scope.fillIn t) :=
  hS.filling scope.context scope.raw t

lemma agree_branchHolds (scope : Scope) (n : Node) :
    Agree S (branchHolds scope n) (branchHolds scope n) :=
  (agree_demand _ _).bind fun _ => (agree_evaluate hS _ _).bind fun _ => agree_pure _

lemma agree_decideElement (scope : Scope) (state : BranchState) (n : Node) :
    Agree S (decideElement scope state n) (decideElement scope state n) := by
  unfold decideElement
  split
  · exact (agree_branchHolds hS _ _).bind fun _ => agree_pure _
  · exact (agree_demand _ _).bind fun _ => Render.agree_misuse _ _
  · exact (agree_demand _ _).bind fun _ => agree_pure _
  · exact (agree_branchHolds hS _ _).bind fun _ => agree_pure _
  · exact Render.agree_misuse _ _
  · exact agree_pure _
  · exact agree_pure _

lemma agree_decideFrom (t : Template) (scope : Scope) (ns : List Node) :
    ∀ state, Agree S (decideFrom t scope state ns) (decideFrom t scope state ns) := by
  induction ns with
  | nil => exact fun state => agree_pure _
  | cons n ns ih =>
    intro state
    rw [decideFrom]
    split
    · exact (Render.agree_within _ (agree_decideElement hS _ _ _)).bind fun ⟨taken, state⟩ =>
        (ih state).bind fun _ => agree_pure _
    · exact (ih state).bind fun _ => agree_pure _

lemma agree_itemsFor (scope : Scope) (l : LoopHead) (step : Nat) :
    Agree S (itemsFor scope l step) (itemsFor scope l step) := by
  unfold itemsFor
  split
  · split
    · exact Render.agree_misuse _ _
    · exact agree_pure _
  · refine (agree_evaluate hS _ _).bind fun v => ?_
    split
    · exact agree_pure _
    · exact Render.agree_misuse _ _

lemma agree_holds (source : Option Text) (scope : Scope) :
    Agree S (holds source scope) (holds source scope) := by
  unfold holds
  split
  · exact (agree_evaluate hS _ _).bind fun _ => agree_pure _
  · exact agree_pure _

lemma agree_chooseFrom (stop skip : Option Text) (scopes : List Scope) :
    ∀ chosen, Agree S (chooseFrom stop skip chosen scopes)
      (chooseFrom stop skip chosen scopes) := by
  induction scopes with
  | nil => exact fun chosen => agree_pure _
  | cons scope scopes ih =>
    intro chosen
    rw [chooseFrom]
    refine (agree_holds hS _ _).bind fun stops => ?_
    split
    · exact agree_pure _
    · refine (agree_holds hS _ _).bind fun skips => ?_
      split
      · exact ih _
      · exact ih _

lemma agree_loopScopes (n : Node) (scope : Scope) :
    Agree S (loopScopes n scope) (loopScopes n scope) :=
  (agree_demand _ _).bind fun _ => (agree_readLoop _).bind fun _ =>
    (agree_loopStep _ _).bind fun _ => (agree_itemsFor hS _ _ _).bind fun _ =>
      agree_chooseFrom hS _ _ _ _

namespace Node

lemma agree_renderText (raw : Text) (scope : Scope) :
    Agree S (renderText raw scope) (renderText raw scope) := by
  unfold renderText
  split
  · exact agree_pure _
  · exact agree_fillIn hS _ _

lemma agree_evaluateAll (scope : Scope) (attributes : List (Text × Text)) :
    Agree S (evaluateAll scope attributes) (evaluateAll scope attributes) := by
  induction attributes with
  | nil => exact agree_pure _
  | cons a attributes ih =>
    exact (agree_evaluate hS _ _).bind fun _ => ih.bind fun _ => agree_pure _

lemma agree_renderAttribute (scope : Scope) (a : Text × Text) :
    Agree S (renderAttribute scope a) (renderAttribute scope a) :=
  (agree_fillIn hS _ _).bind fun _ => agree_pure _

/-! ### Directives, from their children -/

variable {walk walk' : Walk} {t : Template} {n : Node} {scope : Scope}

omit hS in
lemma agree_renderIn {body : List Node} {scopes : List Scope}
    (hw : ∀ inner ∈ scopes, Agree S (walk t body inner) (walk' t body inner)) :
    Agree S (renderIn walk t body scopes) (renderIn walk' t body scopes) :=
  (Render.agree_fanOut hw).bind fun _ => agree_pure _

omit hS in
lemma agree_renderFills {fills : List (Text × Node)}
    (hw : ∀ p ∈ fills, Agree S (walk t p.2.children scope) (walk' t p.2.children scope)) :
    Agree S (renderFills walk t fills scope) (renderFills walk' t fills scope) :=
  (Render.agree_fanOut fun p hp => Render.agree_within _ (hw p hp)).bind fun _ => agree_pure _

lemma agree_siblingsBy {watch watch' : Node → Render Unit} {ns : List Node}
    {element element' : Node → Bool → Render Text}
    (hwatch : ∀ n ∈ ns, Agree S (watch n) (watch' n))
    (helement : ∀ n ∈ ns, ∀ taken, Agree S (element n taken) (element' n taken)) :
    Agree S (siblingsBy t scope watch element ns) (siblingsBy t scope watch' element' ns) := by
  refine (agree_decideFrom hS _ _ _ _).bind fun taken =>
    (Render.agree_fanOut fun ⟨n, b⟩ hn => ?_).bind fun _ => agree_pure _
  have hn := (List.of_mem_zip hn).1
  refine (hwatch n hn).bind fun _ => ?_
  unfold siblingsBy.nodeBy
  split
  · exact agree_pure _
  · exact agree_pure _
  · exact Render.agree_within _ (agree_renderText hS _ _)
  · exact Render.agree_within _ (helement _ hn _)

variable (hw : ∀ inner, scope.Around inner →
  Agree S (walk t n.children inner) (walk' t n.children inner))
include hw

omit hS in
lemma agree_renderBranch {setup setup' : Setup} (hdebug : setup.debug = setup'.debug)
    (taken : Bool) :
    Agree S (renderBranch setup walk t n scope taken)
      (renderBranch setup' walk' t n scope taken) := by
  unfold renderBranch
  split
  · exact hw _ scope.around_refl
  · rw [untaken, untaken, hdebug]
    exact agree_pure _

lemma agree_renderLoop : Agree S (renderLoop walk t n scope) (renderLoop walk' t n scope) :=
  (agree_loopScopes hS _ _).bind_of_gives (gives_loopScopes _ _) fun _ hscopes =>
    agree_renderIn fun inner hinner => hw inner (hscopes inner hinner)

lemma agree_renderBinding :
    Agree S (renderBinding walk t n scope) (renderBinding walk' t n scope) := by
  unfold renderBinding
  split
  · exact Render.agree_misuse _ _
  · exact (agree_evaluateAll hS _ _).bind fun vars => hw _ (scope.around_extend vars)

lemma agree_renderPlain : Agree S (renderPlain walk t n scope) (renderPlain walk' t n scope) := by
  refine (Agree.mapM (fun a => agree_renderAttribute hS scope a) _).bind fun attributes => ?_
  split
  · exact agree_pure _
  · exact (hw _ scope.around_refl).bind fun _ => agree_pure _

end Node

end Blind

/-! ### Tree expansions -/

section Unseen

variable (hS : Unseen S)
include hS

lemma agree_onTrees (f : Expansions → α × Expansions) :
    Agree S (Render.onTrees f) (Render.onTrees f) := by
  intro s s' hs
  refine ⟨.ok (f s.trees).1, { s with trees := (f s.trees).2 }, { s' with trees := (f s.trees).2 },
    rfl, ?_, hS.setTrees _ hs⟩
  rw [hS.trees hs]
  rfl

omit hS in
lemma exec_insideTree (f : Expansion) (x : Nat → Render α) (s : Store) :
    exec (Render.insideTree f x) s =
      let (id, trees) := s.trees.start f
      let (r, t) := exec (x id) { s with trees := trees }
      (r, { t with trees := t.trees.finish id }) := rfl

lemma agree_insideTree (f : Expansion) {x y : Nat → Render α}
    (h : ∀ id, Agree S (x id) (y id)) :
    Agree S (Render.insideTree f x) (Render.insideTree f y) := by
  intro s s' hs
  obtain ⟨r, t, t', hx, hy, ht⟩ := h _ _ _ (hS.setTrees (s.trees.start f).2 hs)
  rw [exec_insideTree, exec_insideTree, ← hS.trees hs]
  dsimp only
  rw [hx, hy, ← hS.trees ht]
  exact ⟨r, _, _, rfl, rfl, hS.setTrees _ ht⟩

namespace Node

lemma agree_expansionOf (id : Nat) : Agree S (expansionOf id) (expansionOf id) := by
  refine (agree_onTrees hS _).bind fun found => ?_
  split
  · exact agree_pure _
  · exact Render.agree_misuse _ _

variable {walk walk' : Walk} (hw : ∀ t ns scope, Agree S (walk t ns scope) (walk' t ns scope))
include hw

lemma agree_renderItems (id : Nat) (items : List Json) (scope : Scope) :
    Agree S (renderItems walk id items scope) (renderItems walk' id items scope) :=
  (agree_expansionOf hS _).bind fun _ => agree_renderIn fun _ _ => hw _ _ _

lemma agree_renderTree (t : Template) (n : Node) (scope : Scope) :
    Agree S (renderTree walk t n scope) (renderTree walk' t n scope) := by
  refine (agree_demand _ _).bind fun on => (agree_readBinding _).bind fun b =>
    (agree_evaluate hS.toBlind _ _).bind fun v => ?_
  split
  · exact agree_insideTree hS _ fun id => agree_renderItems hS hw _ _ _
  · exact Render.agree_misuse _ _

lemma agree_renderChildren (n : Node) (scope : Scope) :
    Agree S (renderChildren walk n scope) (renderChildren walk' n scope) := by
  unfold renderChildren
  split
  · exact Render.agree_misuse _ _
  · refine (agree_expansionOf hS _).bind fun f => ?_
    dsimp only
    split
    · exact agree_renderItems hS hw _ _ _
    · split
      · exact Render.agree_misuse _ _
      · exact agree_pure _

omit hS in
lemma agree_renderHole (t : Template) (n : Node) (scope : Scope) :
    Agree S (renderHole walk t n scope) (renderHole walk' t n scope) := by
  unfold renderHole
  split
  · exact agree_pure _
  · exact hw _ _ _

/-! ### Inclusion -/

variable {loader : Loader} {keep keep' debug : Bool}
  (hl : ∀ file source, loader.Holds source →
    Agree S (loadTemplate keep file source) (loadTemplate keep' file source))
include hl

omit hS in
lemma agree_renderInclusion (t : Template) (n : Node) (scope : Scope) :
    Agree S (renderInclusion ⟨loader, keep, debug⟩ walk t n scope)
      (renderInclusion ⟨loader, keep', debug⟩ walk' t n scope) := by
  refine (agree_demand _ _).bind fun file => (agree_fillsFrom _ _ _).bind fun fills =>
    (agree_includedPath _ _).bind fun path => ?_
  have hfills := agree_renderFills fun (p : Text × Node) (_ : p ∈ fills) => hw t p.2.children scope
  refine (Render.agree_both hfills (agree_readFile _ _)).bind_of_gives
    (Render.gives_both_snd (gives_readFile _ _)) fun ⟨filled, source⟩ hsource => ?_
  exact (hl _ _ hsource).bind fun u => hw _ _ _

lemma agree_renderDirective (t : Template) (n : Node) (scope : Scope) (taken : Bool)
    (d : Directive) :
    Agree S (renderDirective ⟨loader, keep, debug⟩ walk t n scope taken d)
      (renderDirective ⟨loader, keep', debug⟩ walk' t n scope taken d) := by
  have hinner := fun inner (_ : scope.Around inner) => hw t n.children inner
  cases d with
  | ifBranch | elifBranch | elseBranch => exact agree_renderBranch hinner rfl _
  | loop => exact agree_renderLoop hS.toBlind hinner
  | binding => exact agree_renderBinding hS.toBlind hinner
  | tree => exact agree_renderTree hS hw _ _ _
  | children => exact agree_renderChildren hS hw _ _
  | inclusion => exact agree_renderInclusion hw hl _ _ _
  | hole => exact agree_renderHole hw _ _ _
  | fill => exact Render.agree_misuse _ _
  | html => exact hw _ _ _

lemma agree_renderElement (t : Template) (n : Node) (scope : Scope) (taken : Bool) :
    Agree S (renderElement ⟨loader, keep, debug⟩ walk t n scope taken)
      (renderElement ⟨loader, keep', debug⟩ walk' t n scope taken) := by
  unfold renderElement
  split
  · exact (agree_renderDirective hS hw hl _ _ _ _ _).bind fun _ => agree_pure _
  · exact agree_renderPlain hS.toBlind fun _ _ => hw _ _ _

lemma agree_renderSiblings (t : Template) (ns : List Node) (scope : Scope) :
    Agree S (renderSiblings ⟨loader, keep, debug⟩ walk t ns scope)
      (renderSiblings ⟨loader, keep', debug⟩ walk' t ns scope) := by
  rw [renderSiblings_eq, renderSiblings_eq]
  exact agree_siblingsBy hS.toBlind (fun _ _ => agree_pure _)
    fun _ _ _ => agree_renderElement hS hw hl _ _ _ _

end Node

variable {loader : Loader} {keep keep' : Bool}
  (hl : ∀ file source, loader.Holds source →
    Agree S (loadTemplate keep file source) (loadTemplate keep' file source))
include hl

lemma agree_walk (debug : Bool) (depth : Nat) : ∀ t ns scope,
    Agree S (walk ⟨loader, keep, debug⟩ depth t ns scope)
      (walk ⟨loader, keep', debug⟩ depth t ns scope) := by
  induction depth with
  | zero => exact fun t ns scope => agree_throw _
  | succ depth ih => exact fun t ns scope => Node.agree_renderSiblings hS ih hl t ns scope

end Unseen

end

namespace Request

/-- The same rendering, with or without keeping the templates it parses. -/
def withCache (r : Request) (keep : Bool) : Request :=
  { r with options := { r.options with cache := keep } }

/-- The texts that a rendering may have parsed. -/
def Uses (r : Request) (loader : Loader) (source : Text) : Prop :=
  r.source = .text source ∨ loader.Holds source

variable (r : Request) (loader : Loader)

lemma agree_load {S : Store → Store → Prop} : Agree S (r.load loader) (r.load loader) := by
  unfold load
  split
  · exact agree_pure _
  · exact (agree_readFile _ _).bind fun _ => agree_pure _

lemma gives_load : Gives (r.load loader) fun found => r.Uses loader found.1 := by
  unfold load
  split
  · rename_i t ht
    exact gives_pure (p := fun found : Text × Option Text => r.Uses loader found.1) (.inl ht)
  · exact (gives_readFile _ _).bind fun t ht =>
      gives_pure (p := fun found : Text × Option Text => r.Uses loader found.1) (.inr ht)

/-- **Rendering does not depend on what the renderer does not see.** -/
theorem agree_body {S : Store → Store → Prop} (hS : Unseen S) (keep : Bool)
    (hl : ∀ file source, r.Uses loader source →
      Agree S (loadTemplate r.options.cache file source) (loadTemplate keep file source))
    (depth : Nat) : Agree S (r.body loader depth) ((r.withCache keep).body loader depth) := by
  unfold body
  dsimp only [withCache]
  split
  · exact Render.agree_misuse _ _
  · refine (agree_load r loader).bind_of_gives (gives_load r loader) fun ⟨source, file⟩ hs => ?_
    refine (hl _ _ hs).bind fun t => ?_
    exact agree_walk hS (fun file source h => hl file source (.inr h)) _ _ _ _ _

end Request

end HtmlTemplate
