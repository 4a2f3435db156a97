import HtmlTemplate.Proofs.Render.Lexical

/-!
Tree expansions under way.

An expansion gets a number that none under way has, and ends with the tree that began it, however
that ends. So the number in a scope always stands for the tree around, and rendering by numbers is
rendering by surroundings.
-/

namespace HtmlTemplate

namespace Expansions

/-- What can be under way after expansions began and ended in any order. -/
inductive Reachable : Expansions → Prop
  | empty : Reachable empty
  | start {r : Expansions} (x : Expansion) : Reachable r → Reachable (r.start x).2
  | finish {r : Expansions} (id : Nat) : Reachable r → Reachable (r.finish id)

/-- The numbers under way differ, and none of them is still to come. -/
structure Orderly (r : Expansions) : Prop where
  distinct : (r.active.map Prod.fst).Nodup
  lt_begun : ∀ x ∈ r.active, x.1 < r.begun

variable {r : Expansions} {id : Nat}

/-- The expansions with one more under way, whose number may have been passed over. -/
lemma Orderly.cons (hr : r.Orderly) (hid : r.begun ≤ id) (x : Expansion) :
    Orderly ⟨(id, x) :: r.active, id + 1⟩ where
  distinct := by
    refine List.nodup_cons.2 ⟨fun hmem => ?_, hr.distinct⟩
    obtain ⟨y, hy, heq⟩ := List.mem_map.1 hmem
    have hlt := hr.lt_begun y hy
    omega
  lt_begun y hy := by
    rcases List.mem_cons.1 hy with rfl | hy
    · exact Nat.lt_succ_self id
    · have hlt := hr.lt_begun y hy
      dsimp only
      omega

lemma Orderly.finish (hr : r.Orderly) (id : Nat) : (r.finish id).Orderly where
  distinct := hr.distinct.sublist (List.filter_sublist.map _)
  lt_begun x hx := hr.lt_begun x (List.mem_of_mem_filter hx)

lemma Reachable.orderly (h : r.Reachable) : r.Orderly := by
  induction h with
  | empty => exact ⟨List.nodup_nil, fun x hx => absurd hx List.not_mem_nil⟩
  | start x _ hr => exact hr.cons (Nat.le_refl _) x
  | finish id _ hr => exact hr.finish id

/-- An expansion that ends leaves those that were under way before it. -/
lemma Orderly.filter_cons (hr : r.Orderly) (hid : r.begun ≤ id) (x : Expansion) :
    ((id, x) :: r.active).filter (fun y => y.1 ≠ id) = r.active := by
  rw [List.filter_cons_of_neg (by simp), List.filter_eq_self]
  intro y hy
  have hlt := hr.lt_begun y hy
  have hne : y.1 ≠ id := by omega
  simpa using hne

lemma get?_cons_self (id begun : Nat) (x : Expansion) (active : List (Nat × Expansion)) :
    get? ⟨(id, x) :: active, begun⟩ id = some x := by
  simp [get?]

end Expansions

/-- The same store, in which the expansions of `r` are under way. -/
structure Holding (r : Expansions) (s s' : Store) : Prop where
  eq : s = s'
  active : s.trees.active = r.active
  begun_le : r.begun ≤ s.trees.begun

section Holding

variable {α β : Type} {r : Expansions} {x y : Render α}

lemma holding_self (s : Store) : Holding s.trees s s := ⟨rfl, rfl, Nat.le_refl _⟩

lemma Holding.get?_eq {s s' : Store} (h : Holding r s s') : s.trees.get? = r.get? :=
  funext fun id => by rw [Expansions.get?, Expansions.get?, h.active]

lemma exec_eq_of_holding {s : Store} (h : Agree (Holding s.trees) x y) :
    exec y s = exec x s ∧ (exec y s).2.trees.active = s.trees.active := by
  obtain ⟨result, t, t', hx, hy, ht⟩ := h s s (holding_self s)
  rw [hx, hy]
  exact ⟨by rw [ht.eq], ht.eq ▸ ht.active⟩

/-- What does not touch the expansions. -/
lemma agree_holding (h : ∀ s, (exec x s).2.trees = s.trees) : Agree (Holding r) x x := by
  rintro s s' ⟨rfl, hactive, hbegun⟩
  exact ⟨_, _, _, rfl, rfl, rfl, (h s).symm ▸ hactive, (h s).symm ▸ hbegun⟩

lemma blind_holding : Blind (Holding r) where
  evaluating c source := agree_holding fun s => by rw [Render.exec_evaluating]
  filling c raw t := agree_holding fun s => by rw [Render.exec_evaluating]

lemma agree_loadTemplate_holding (keep : Bool) (file : Option Text) (source : Text) :
    Agree (Holding r) (loadTemplate keep file source) (loadTemplate keep file source) := by
  have hparse : Agree (Holding r) (parseKept keep source) (parseKept keep source) :=
    agree_holding fun s => by cases keep <;> rfl
  refine hparse.bind fun read => ?_
  cases read with
  | error e => exact Render.agree_within _ (Render.agree_fail _)
  | ok nodes => exact (agree_checkHoles _).bind fun _ => agree_pure _

/-- A new expansion is under way until it ends, and then the others are. -/
lemma agree_insideTree_holding (hr : r.Orderly) (f : Expansion) {x y : Nat → Render α}
    (h : ∀ id, r.begun ≤ id → Agree (Holding ⟨(id, f) :: r.active, id + 1⟩) (x id) (y id)) :
    Agree (Holding r) (Render.insideTree f x) (Render.insideTree f y) := by
  rintro s s' ⟨rfl, hactive, hbegun⟩
  have hstart : Holding ⟨(s.trees.begun, f) :: r.active, s.trees.begun + 1⟩
      { s with trees := (s.trees.start f).2 } { s with trees := (s.trees.start f).2 } :=
    ⟨rfl, by rw [← hactive]; rfl, Nat.le_refl _⟩
  obtain ⟨result, t, t', hx, hy, ⟨rfl, htactive, htbegun⟩⟩ := h s.trees.begun hbegun _ _ hstart
  rw [exec_insideTree, exec_insideTree]
  refine ⟨result, { t with trees := t.trees.finish s.trees.begun },
    { t with trees := t.trees.finish s.trees.begun }, ?_, ?_, rfl, ?_, ?_⟩
  · exact congrArg (fun p : Except Stop α × Store =>
      (p.1, { p.2 with trees := p.2.trees.finish s.trees.begun })) hx
  · exact congrArg (fun p : Except Stop α × Store =>
      (p.1, { p.2 with trees := p.2.trees.finish s.trees.begun })) hy
  · change t.trees.active.filter _ = _
    rw [htactive]
    exact hr.filter_cons hbegun f
  · change r.begun ≤ t.trees.begun
    dsimp only at htbegun
    omega

/-- The number of an expansion under way is as good as the expansion. -/
lemma exec_expansionOf {s : Store} {id : Nat} {f : Expansion} (h : s.trees.get? id = some f) :
    exec (Node.expansionOf id) s = (.ok f, s) := by
  have hfind : exec (Render.onTrees fun trees => (trees.get? id, trees)) s = (.ok (some f), s) := by
    rw [← h]
    rfl
  rw [Node.expansionOf, exec_bind, hfind]
  rfl

lemma agree_expansionOf_bind {id : Nat} {f : Expansion} {g : Expansion → Render α}
    (hf : r.get? id = some f) (h : Agree (Holding r) x (g f)) :
    Agree (Holding r) x (Node.expansionOf id >>= g) := by
  intro s s' hs
  obtain rfl := hs.eq
  rw [exec_bind, exec_expansionOf (by rw [hs.get?_eq, hf])]
  exact h s s hs

end Holding

/-! ### Surroundings -/

/-- What a scope says of the surroundings is so: its number is that of the expansion around, and
it has no number if there is none. -/
structure Surroundings.Live (e : Surroundings) (scope : Scope) (r : Expansions) : Prop where
  tree : scope.tree.map r.get? = e.tree.map some
  fills : scope.fills = e.fills

/-- Nothing is done before a node as long as the scope says what is so, and the numbers under way
differ. -/
def Watch.Silent (watch : Watch) : Prop :=
  ∀ e t scope n s, e.Live scope s.trees → (s.trees.active.map Prod.fst).Nodup →
    exec (watch e t scope n) s = (.ok (), s)

lemma silent_unwatched : unwatched.Silent := fun _ _ _ _ _ _ _ => rfl

namespace Surroundings

variable {e : Surroundings} {scope inner : Scope} {r : Expansions}

lemma live_ofContext (c : Context) (r : Expansions) : outermost.Live (.ofContext c) r :=
  ⟨rfl, rfl⟩

lemma Live.around (h : e.Live scope r) (hinner : scope.Around inner) : e.Live inner r :=
  ⟨hinner.tree.symm ▸ h.tree, hinner.fills.symm ▸ h.fills⟩

lemma Live.cases (h : e.Live scope r) : scope.tree = none ∧ e.tree = none ∨
    ∃ id f, scope.tree = some id ∧ e.tree = some f ∧ r.get? id = some f := by
  have htree := h.tree
  cases hid : scope.tree with
  | none =>
    rw [hid] at htree
    exact .inl ⟨rfl, by simpa using htree.symm⟩
  | some id =>
    rw [hid] at htree
    obtain ⟨f, hf, hget⟩ := Option.map_eq_some_iff.1 htree.symm
    exact .inr ⟨id, f, rfl, hf, hget.symm⟩

lemma Live.inTree (h : e.Live scope r) (id : Nat) (f : Expansion) :
    (e.inTree f).Live { scope with tree := some id } ⟨(id, f) :: r.active, id + 1⟩ :=
  ⟨congrArg some (Expansions.get?_cons_self id _ f _), h.fills⟩

lemma live_included (scope : Scope) (fills : Record Text) (r : Expansions) :
    (included fills).Live (scope.included fills) r := ⟨rfl, rfl⟩

end Surroundings

namespace Lexical

variable {setup : Setup} {watch : Watch} {e : Surroundings} {t : Template} {n : Node}
  {scope : Scope} {r : Expansions}

/-- Rendering in surroundings is rendering in scopes that say what is so. -/
def Follows (lexical : Surroundings → Walk) (walk : Walk) : Prop :=
  ∀ e t ns scope r, r.Orderly → e.Live scope r →
    Agree (Holding r) (lexical e t ns scope) (walk t ns scope)

variable {lexical : Surroundings → Walk} {walk : Walk} (hw : Follows lexical walk)
  (hr : r.Orderly) (he : e.Live scope r)
include hw hr he

lemma agree_renderItems {id : Nat} {f : Expansion} (hf : r.get? id = some f)
    (items : List Json) :
    Agree (Holding r) (renderItems lexical e f items scope)
      (Node.renderItems walk id items scope) := by
  refine agree_expansionOf_bind hf (Node.agree_renderIn fun inner hinner => ?_)
  obtain ⟨v, -, rfl⟩ := List.mem_map.1 hinner
  exact hw _ _ _ _ _ hr (he.around (scope.around_extend _))

lemma agree_renderTree :
    Agree (Holding r) (renderTree lexical e t n scope) (Node.renderTree walk t n scope) := by
  refine (agree_demand _ _).bind fun on => (Node.agree_readBinding _).bind fun b =>
    (agree_evaluate blind_holding _ _).bind fun v => ?_
  cases v with
  | array items =>
    refine agree_insideTree_holding hr _ fun id hid => ?_
    have hlive := he.inTree id ⟨t, n.children, b.item⟩
    exact agree_renderItems hw (hr.cons hid _) hlive (Expansions.get?_cons_self _ _ _ _) _
  | _ => exact Render.agree_misuse _ _

lemma agree_renderChildren :
    Agree (Holding r) (renderChildren lexical e n scope) (Node.renderChildren walk n scope) := by
  unfold renderChildren Node.renderChildren
  rcases he.cases with ⟨hid, hf⟩ | ⟨id, f, hid, hf, hget⟩
  · rw [hid, hf]
    exact Render.agree_misuse _ _
  · rw [hid, hf]
    refine agree_expansionOf_bind hget ?_
    dsimp only
    cases Node.itemField scope.context f.item _ with
    | array items => exact agree_renderItems hw hr he hget _
    | _ =>
      dsimp only
      split
      · exact Render.agree_misuse _ _
      · exact agree_pure _

lemma agree_renderInclusion :
    Agree (Holding r) (renderInclusion setup lexical e t n scope)
      (Node.renderInclusion setup walk t n scope) := by
  refine (agree_demand _ _).bind fun file => (agree_fillsFrom _ _ _).bind fun fills =>
    (Node.agree_includedPath _ _).bind fun path => ?_
  have hfills : Agree (Holding r) (Node.renderFills (lexical e) t fills scope)
      (Node.renderFills walk t fills scope) :=
    Node.agree_renderFills fun p _ => hw _ _ _ _ _ hr he
  refine (Render.agree_both hfills (agree_readFile _ _)).bind fun ⟨filled, source⟩ => ?_
  refine (agree_loadTemplate_holding _ _ _).bind fun u => ?_
  exact hw _ _ _ _ _ hr (Surroundings.live_included scope filled r)

lemma agree_renderHole :
    Agree (Holding r) (renderHole lexical e t n scope) (Node.renderHole walk t n scope) := by
  unfold renderHole Node.renderHole
  rw [he.fills]
  cases e.fills.bind fun fills => fills.get? (slotName n) with
  | some content => exact agree_pure _
  | none => exact hw _ _ _ _ _ hr he

lemma agree_renderElement (taken : Bool) :
    Agree (Holding r) (renderElement setup lexical e t n scope taken)
      (Node.renderElement setup walk t n scope taken) := by
  have hinner : ∀ inner, scope.Around inner →
      Agree (Holding r) (lexical e t n.children inner) (walk t n.children inner) :=
    fun inner h => hw _ _ _ _ _ hr (he.around h)
  unfold renderElement Node.renderElement
  cases Directive.ofTag? n.tag with
  | none => exact Node.agree_renderPlain blind_holding hinner
  | some d =>
    dsimp only
    rw [bind_pure_comp]
    refine Agree.map ?_ _
    cases d with
    | ifBranch | elifBranch | elseBranch => exact Node.agree_renderBranch hinner rfl taken
    | loop => exact Node.agree_renderLoop blind_holding hinner
    | binding => exact Node.agree_renderBinding blind_holding hinner
    | tree => exact agree_renderTree hw hr he
    | children => exact agree_renderChildren hw hr he
    | inclusion => exact agree_renderInclusion hw hr he
    | hole => exact agree_renderHole hw hr he
    | fill => exact Render.agree_misuse _ _
    | html => exact hinner _ ⟨rfl, rfl⟩

omit hw hr he in
lemma agree_watch (hwatch : watch.Silent) (hr : r.Orderly) (he : e.Live scope r) :
    Agree (Holding r) (watch e t scope n) (pure ()) := by
  rintro s s' ⟨rfl, hactive, hbegun⟩
  have hs : Holding r s s := ⟨rfl, hactive, hbegun⟩
  refine ⟨.ok (), s, s, hwatch e t scope n s ?_ ?_, rfl, hs⟩
  · exact ⟨by rw [hs.get?_eq]; exact he.tree, he.fills⟩
  · rw [hactive]
    exact hr.distinct

omit hw hr he in
/-- One more list of nodes. -/
lemma Follows.step (hwatch : watch.Silent) (hw : Follows lexical walk) :
    Follows (renderSiblings setup watch lexical) (Node.renderSiblings setup walk) := by
  intro e t ns scope r hr he
  rw [Node.renderSiblings_eq]
  exact Node.agree_siblingsBy blind_holding (fun n _ => agree_watch hwatch hr he)
    fun n _ taken => agree_renderElement hw hr he taken

omit hw hr he in
/-- **Rendering by numbers is rendering by surroundings.** -/
lemma follows_walk (setup : Setup) (hwatch : watch.Silent) (depth : Nat) :
    Follows (Lexical.walk setup watch depth) (HtmlTemplate.walk setup depth) := by
  induction depth with
  | zero => exact fun _ _ _ _ _ _ _ => agree_throw _
  | succ depth ih => exact ih.step hwatch

end Lexical

/-- **A number in a scope stands for the tree around.** The scopes that a node is rendered in have
the number of the tree around it in its file, under which its expansion is under way, and the
numbers under way differ; so a t-children element finds its tree if and only if there is one around
it. Whatever comes of rendering, the same expansions are under way after it as before. -/
theorem walk_expansions_live (setup : Setup) (depth : Nat) (t : Template) (ns : List Node)
    (scope : Scope) (e : Surroundings) (s : Store) (hs : s.trees.Reachable)
    (he : e.Live scope s.trees) :
    (∀ watch : Watch, watch.Silent →
      exec (walk setup depth t ns scope) s =
        exec (Lexical.walk setup watch depth e t ns scope) s) ∧
    (∀ watch : Watch, watch.Silent → ∀ n,
      exec (Node.renderChildren (walk setup depth) n scope) s =
        exec (Lexical.renderChildren (Lexical.walk setup watch depth) e n scope) s) ∧
    (∀ id, scope.tree = some id → ∃ f, e.tree = some f ∧
      exec (Node.expansionOf id) s = (.ok f, s)) ∧
    (exec (walk setup depth t ns scope) s).2.trees.active = s.trees.active := by
  have hr := hs.orderly
  refine ⟨fun watch hwatch => ?_, fun watch hwatch n => ?_, fun id hid => ?_, ?_⟩
  · exact (exec_eq_of_holding (Lexical.follows_walk setup hwatch depth e t ns scope _ hr he)).1
  · have hfollows := Lexical.follows_walk setup hwatch depth
    exact (exec_eq_of_holding (Lexical.agree_renderChildren hfollows hr he)).1
  · rcases he.cases with ⟨hnone, -⟩ | ⟨id', f, hid', hf, hget⟩
    · rw [hnone] at hid
      cases hid
    · rw [hid'] at hid
      cases hid
      exact ⟨f, hf, exec_expansionOf hget⟩
  · have hfollows := Lexical.follows_walk setup silent_unwatched depth
    exact (exec_eq_of_holding (hfollows e t ns scope _ hr he)).2

/-- Stops unless the numbers differ and the one in the scope is that of a tree with the variable
of the one around. -/
def checkedItems : Watch := fun e _ scope _ => ExceptT.mk fun s =>
  if (s.trees.active.map Prod.fst).Nodup ∧
      (scope.tree.bind s.trees.get?).map (·.item) = e.tree.map (·.item) then pure (.ok (), s)
  else pure (.error .tooDeep, s)

lemma silent_checkedItems : checkedItems.Silent := by
  intro e t scope n s he hdistinct
  have hitem : (scope.tree.bind s.trees.get?).map (·.item) = e.tree.map (·.item) := by
    rcases he.cases with ⟨hid, hf⟩ | ⟨id, f, hid, hf, hget⟩
    · rw [hid, hf]
      rfl
    · rw [hid, hf, Option.bind_some, hget]
  change (if _ then _ else _ : Except Stop Unit × Store) = _
  rw [if_pos ⟨hdistinct, hitem⟩]
  rfl

/-- A tree inside another one, while the second of two expansions is under way. -/
theorem walk_expansions_live_nested :
    let element (tag : Text) (attributes : Attributes) (children : List Node) : Node :=
      .element ⟨tag, attributes, [], 1, false⟩ true children
    let ns := [element "t-tree" [("on", "a as x")]
      [.leaf .text "(" 1, element "t-tree" [("on", "x.b as y")] [.leaf .text "y" 1],
        element "t-children" [] [], .leaf .text ")" 1]]
    let t : Template := ⟨none, ns⟩
    let item (b children : List Json) : Json :=
      .object [("b", .array b), ("children", .array children)]
    let scope : Scope := .ofContext ⟨[[("a", .array [item [.null] [item [] []]])]]⟩
    let setup : Setup := ⟨Library.empty.loader, false, false⟩
    let other : Expansion := ⟨t, [], "z"⟩
    let trees := ((Expansions.empty.start other).2.start other).2.finish 0
    let s : Store := ⟨.empty 0, .empty, trees, []⟩
    exec (walk setup 9 t ns scope) s =
      exec (Lexical.walk setup checkedItems 9 .outermost t ns scope) s ∧
    (exec (walk setup 9 t ns scope) s).2.trees.active = s.trees.active ∧
    (exec (walk setup 9 t ns scope) s).1.toOption = some "(y())" := by
  intro element ns t item scope setup other trees s
  have hreachable : trees.Reachable :=
    ((Expansions.Reachable.empty.start other).start other).finish 0
  have hlive := Surroundings.live_ofContext ⟨[[("a", .array [item [.null] [item [] []]])]]⟩ trees
  obtain ⟨hwatch, -, -, hactive⟩ :=
    walk_expansions_live setup 9 t ns scope .outermost s hreachable hlive
  exact ⟨hwatch checkedItems silent_checkedItems, hactive, by decide +kernel⟩

end HtmlTemplate
