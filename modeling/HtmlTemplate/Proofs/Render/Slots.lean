import HtmlTemplate.Proofs.Render.Inside
import HtmlTemplate.Proofs.Render.Place

/-!
Holes and fills.

All nodes of an included file are rendered with the fills of its own inclusion. The fills are
rendered once, where the inclusion stands, and whatever is set up around a hole plays no part in
what it gives. The fills around an inclusion only matter for the holes written in its own fills.
-/

namespace HtmlTemplate

/-! ### Scopes that differ in fills

Surroundings have the fills for their holes themselves, so it does not matter what a scope says. -/

/-- A scope with other fills. -/
def Scope.withFills (scope : Scope) (fills : Option (Record Text)) : Scope :=
  { scope with fills := fills }

/-- The fills in a scope play no part. -/
def Walk.IgnoresFills (walk : Walk) : Prop :=
  ∀ t ns (scope : Scope) (fills : Option (Record Text)),
    walk t ns (scope.withFills fills) = walk t ns scope

lemma Node.renderFills_withFills (fills : Option (Record Text)) {walk : Walk}
    (hw : walk.IgnoresFills) (t : Template) (scope : Scope) (parts : List (Text × Node)) :
    renderFills walk t parts (scope.withFills fills) = renderFills walk t parts scope := by
  simp only [renderFills, hw t _ scope fills]

namespace Lexical

lemma renderInclusion_withFills (fills : Option (Record Text)) {setup : Setup}
    {lexical : Surroundings → Walk} (hw : ∀ e, (lexical e).IgnoresFills) (e : Surroundings)
    (t : Template) (n : Node) (scope : Scope) :
    renderInclusion setup lexical e t n (scope.withFills fills) =
      renderInclusion setup lexical e t n scope := by
  simp only [renderInclusion, Node.renderFills_withFills fills (hw e)]
  rfl

lemma ignoresFills_walk (setup : Setup) (depth : Nat) (e : Surroundings) :
    (Lexical.walk setup unwatched depth e).IgnoresFills :=
  fun t ns scope fills => ignoresPlace_walk setup depth e t ns scope scope.tree fills

end Lexical

/-! ### Fills that no hole has -/

namespace Node

/-- The names of the holes among nodes and below them. -/
def holeNames (ns : List Node) : List Text := ((nodesAll ns).filter isHole).map slotName

/-- Whether the tree around is repeated among nodes or below them. -/
def Repeats (ns : List Node) : Prop := ∃ m ∈ nodesAll ns, Directive.ofTag? m.tag = some .children

variable {n : Node} {ns : List Node}

lemma slotName_mem_holeNames (hn : n ∈ ns) (hhole : Directive.ofTag? n.tag = some .hole) :
    slotName n ∈ holeNames ns := by
  have htag : isHole n := by
    have hfound := List.find?_some hhole
    rw [decide_eq_true_eq] at hfound
    rw [isHole, hfound, beq_self_eq_true]
  exact List.mem_map_of_mem (List.mem_filter.2 ⟨mem_nodesAll hn, htag⟩)

end Node

/-- Surroundings that differ at most in fills for which there is no hole among some nodes; nor is
there one in the tree around, if they repeat it. -/
structure Surroundings.SameFor (e e' : Surroundings) (ns : List Node) : Prop where
  tree : e.tree = e'.tree
  holes : ∀ name ∈ Node.holeNames ns, e.fill? name = e'.fill? name
  body : Node.Repeats ns → ∀ f ∈ e.tree, ∀ name ∈ Node.holeNames f.body,
    e.fill? name = e'.fill? name

namespace Surroundings.SameFor

variable {e e' : Surroundings} {n : Node} {ns : List Node} {f : Expansion}

lemma children (h : e.SameFor e' ns) (hn : n ∈ ns) : e.SameFor e' n.children where
  tree := h.tree
  holes name hname := h.holes name (((Node.nodesAll_children hn).filter _).map _ |>.subset hname)
  body := fun ⟨m, hm, htag⟩ => h.body ⟨m, (Node.nodesAll_children hn).subset hm, htag⟩

lemma repeated (h : e.SameFor e' ns) (hn : n ∈ ns)
    (hchildren : Directive.ofTag? n.tag = some .children) (hf : e.tree = some f) :
    e.SameFor e' f.body :=
  have hbody := h.body ⟨n, Node.mem_nodesAll hn, hchildren⟩
  ⟨h.tree, hbody f hf, fun _ => hbody⟩

lemma inTree (h : e.SameFor e' f.body) : (e.inTree f).SameFor (e'.inTree f) f.body := by
  refine ⟨rfl, h.holes, fun _ g hg => ?_⟩
  obtain rfl : f = g := Option.some.inj hg
  exact h.holes

end Surroundings.SameFor

section SameFor

namespace Lexical

/-- Only the fills that holes have play a part. -/
def ReadsHoles (lexical : Surroundings → Walk) : Prop :=
  ∀ e e' t ns scope, e.SameFor e' ns → lexical e t ns scope = lexical e' t ns scope

variable {setup : Setup} {lexical : Surroundings → Walk} (hw : ReadsHoles lexical)
  {e e' : Surroundings} {t : Template} {n : Node} {scope : Scope}
include hw

lemma renderItems_sameFor {f : Expansion} (h : e.SameFor e' f.body) (items : List Json)
    (scope : Scope) :
    renderItems lexical e f items scope = renderItems lexical e' f items scope := by
  refine eq_of_agree (Node.agree_renderIn fun inner _ => ?_)
  rw [hw e e' _ _ _ h]
  exact agree_eq _

lemma renderTree_sameFor (h : e.SameFor e' n.children) :
    renderTree lexical e t n scope = renderTree lexical e' t n scope := by
  unfold renderTree
  refine bind_congr fun on => bind_congr fun b => bind_congr fun v => ?_
  cases v with
  | array items =>
    refine congrArg (Render.insideTree _) (funext fun id => ?_)
    exact renderItems_sameFor hw (Surroundings.SameFor.inTree h) items _
  | _ => rfl

lemma renderInclusion_sameFor (h : e.SameFor e' n.children) :
    renderInclusion setup lexical e t n scope = renderInclusion setup lexical e' t n scope :=
  renderInclusion_congr (fun m hm => hw e e' t m.children scope (h.children hm)) fun _ => rfl

variable {ns : List Node} (hn : n ∈ ns) (h : e.SameFor e' ns)
include hn h

lemma renderChildren_sameFor (hd : Directive.ofTag? n.tag = some .children) :
    renderChildren lexical e n scope = renderChildren lexical e' n scope := by
  unfold renderChildren
  rw [← h.tree]
  cases hf : e.tree with
  | none => rfl
  | some f =>
    dsimp only
    cases Node.itemField scope.context f.item _ with
    | array items => exact renderItems_sameFor hw (h.repeated hn hd hf) items scope
    | _ => rfl

lemma renderElement_sameFor (taken : Bool) :
    renderElement setup lexical e t n scope taken =
      renderElement setup lexical e' t n scope taken := by
  by_cases htree : Directive.ofTag? n.tag = some .tree
  · rw [renderElement_of_directive htree, renderElement_of_directive htree]
    exact congrArg (Node.mark setup .tree <$> ·) (renderTree_sameFor hw (h.children hn))
  by_cases hchildren : Directive.ofTag? n.tag = some .children
  · rw [renderElement_of_directive hchildren, renderElement_of_directive hchildren]
    exact congrArg (Node.mark setup .children <$> ·) (renderChildren_sameFor hw hn h hchildren)
  have hsame : SameInside lexical lexical [] e e' t n scope :=
    { children := fun inner _ => hw e e' _ _ _ (h.children hn)
      fills := fun m hm => hw e e' _ _ _ ((h.children hn).children hm)
      file := fun _ => rfl
      hole := fun hhole => h.holes _ (Node.slotName_mem_holeNames hn hhole) }
  exact hsame.renderElement_eq htree hchildren taken

omit hw hn h in
lemma readsHoles_walk (setup : Setup) (depth : Nat) :
    ReadsHoles (Lexical.walk setup unwatched depth) := by
  induction depth with
  | zero => exact fun _ _ _ _ _ _ => rfl
  | succ depth ih =>
    intro e e' t ns scope h
    refine eq_of_agree (Node.agree_siblingsBy unseen_eq.toBlind (fun _ _ => agree_eq _) ?_)
    intro n hn taken
    rw [renderElement_sameFor ih hn h]
    exact agree_eq _

end Lexical

end SameFor

/-! ### What waits, waits for some file -/

section Waits

lemma yields_readFile (loader : Loader) (path : Text) :
    Yields (· ≠ .awaits []) (readFile loader path) fun _ => True := by
  unfold readFile
  split
  · exact yields_throw nofun
  · exact yields_throw nofun
  · split
    · exact yields_pure trivial
    · exact yields_throw nofun

lemma yields_loadTemplate (keep : Bool) (file : Option Text) (source : Text) :
    Yields (· ≠ .awaits []) (loadTemplate keep file source) fun _ => True := by
  have hparse : Yields (· ≠ .awaits []) (parseKept keep source) fun _ => True := by
    intro s hs
    cases keep with
    | true => exact ⟨hs, trivial⟩
    | false => exact ⟨hs, trivial⟩
  refine hparse.bind fun read _ => ?_
  cases read with
  | error e => exact yields_within (yields_throw nofun) closed_ne_awaits _
  | ok nodes =>
    have hholes : Yields (· ≠ .awaits []) (checkHoles ⟨file, nodes⟩) fun _ => True := by
      unfold checkHoles
      split
      · exact yields_pure trivial
      · exact yields_within (yields_throw nofun) closed_ne_awaits _
    exact hholes.bind fun _ _ => yields_pure trivial

lemma yields_fillsFrom (t : Template) (ns : List Node) :
    ∀ seen, Yields (· ≠ .awaits []) (fillsFrom t seen ns) fun _ => True := by
  induction ns with
  | nil => exact fun _ => yields_pure trivial
  | cons n ns ih =>
    intro seen
    rw [fillsFrom_cons]
    split
    · exact ih seen
    · split
      · exact yields_within (yields_throw nofun) closed_ne_awaits _
      · split
        · exact yields_within (yields_throw nofun) closed_ne_awaits _
        · exact (ih _).map fun _ _ => trivial

namespace Lexical

variable {setup : Setup} {lexical : Surroundings → Walk}
  (hw : ∀ e t ns scope, Yields (· ≠ .awaits []) (lexical e t ns scope) fun _ => True)
include hw

lemma yields_renderInclusion (e : Surroundings) (t : Template) (n : Node) (scope : Scope) :
    Yields (· ≠ .awaits []) (renderInclusion setup lexical e t n scope) fun _ => True := by
  refine ((settled_demand _ _).yields closed_ne_awaits.toRaisable).bind fun file _ => ?_
  refine (yields_fillsFrom _ _ _).bind fun fills _ => ?_
  refine ((settled_includedPath _ _).yields closed_ne_awaits.toRaisable).bind fun path _ => ?_
  have hfills := Node.yields_renderFills closed_ne_awaits
    fun (p : Text × Node) (_ : p ∈ fills) => hw e t p.2.children scope
  have hread := yields_readFile setup.loader path
  refine (yields_both closed_ne_awaits.toAdditive hfills hread).bind fun read _ => ?_
  obtain ⟨filled, source⟩ := read
  exact (yields_loadTemplate _ _ _).bind fun u _ => hw _ _ _ _

lemma yields_renderElement (e : Surroundings) (t : Template) (n : Node) (scope : Scope)
    (taken : Bool) :
    Yields (· ≠ .awaits []) (renderElement setup lexical e t n scope taken) fun _ => True := by
  unfold renderElement
  split
  · rename_i d _
    refine Yields.map (p := fun _ => True) ?_ fun _ _ => trivial
    cases d with
    | ifBranch | elifBranch | elseBranch => exact Node.yields_renderBranch (hw _ _ _ _)
    | loop =>
      rcases n.loopsOver_or with ⟨l, step, h⟩ | ⟨failure, h⟩
      · exact Node.yields_renderLoop closed_ne_awaits.toRaisable h fun _ _ => hw _ _ _ _
      · exact Node.yields_renderLoop_of_throw closed_ne_awaits.toRaisable (h scope)
    | binding => exact Node.yields_renderBinding closed_ne_awaits.toRaisable fun _ _ => hw _ _ _ _
    | tree => exact yields_renderTree closed_ne_awaits.toRaisable fun _ _ _ _ _ _ _ => hw _ _ _ _
    | children =>
      exact yields_renderChildren closed_ne_awaits.toRaisable fun _ _ _ _ _ _ => hw _ _ _ _
    | inclusion => exact yields_renderInclusion hw e t n scope
    | hole => exact yields_renderHole (hw _ _ _ _)
    | fill => exact yields_throw nofun
    | html => exact hw _ _ _ _
  · exact Node.yields_renderPlain closed_ne_awaits.toRaisable (hw _ _ _ _)

omit hw in
lemma yields_walk (setup : Setup) (depth : Nat) : ∀ e t ns scope,
    Yields (· ≠ .awaits []) (Lexical.walk setup unwatched depth e t ns scope) fun _ => True := by
  induction depth with
  | zero => exact fun _ _ _ _ => yields_throw nofun
  | succ depth ih =>
    exact fun e t ns scope => Node.yields_siblingsBy closed_ne_awaits
      (fun _ _ => yields_pure trivial) fun n _ _ taken => yields_renderElement ih e t n scope taken

end Lexical

namespace Node

variable {setup : Setup} {walk : Walk}
  (hw : ∀ t ns scope, Yields (· ≠ .awaits []) (walk t ns scope) fun _ => True)

lemma yields_expansionOf (id : Nat) : Yields (· ≠ .awaits []) (expansionOf id) fun _ => True := by
  have hfind : Yields (· ≠ .awaits []) (Render.onTrees fun trees => (trees.get? id, trees))
      fun _ => True := fun s hs => ⟨hs, trivial⟩
  refine hfind.bind fun found _ => ?_
  cases found with
  | none => exact yields_throw nofun
  | some f => exact yields_pure trivial

include hw

lemma yields_renderItems (id : Nat) (items : List Json) (scope : Scope) :
    Yields (· ≠ .awaits []) (renderItems walk id items scope) fun _ => True :=
  (yields_expansionOf id).bind fun _ _ =>
    yields_renderIn closed_ne_awaits.toAdditive fun _ _ => hw _ _ _

lemma yields_renderTree (t : Template) (n : Node) (scope : Scope) :
    Yields (· ≠ .awaits []) (renderTree walk t n scope) fun _ => True := by
  refine ((settled_demand _ _).yields closed_ne_awaits.toRaisable).bind fun on _ => ?_
  have hread : Yields (· ≠ .awaits []) (readBinding on) fun _ => True := by
    unfold readBinding
    split
    · exact yields_pure trivial
    · exact yields_throw nofun
  refine hread.bind fun b _ => ?_
  refine (yields_evaluate closed_ne_awaits.toRaisable _ _).bind fun v _ => ?_
  cases v with
  | array items => exact yields_insideTree fun id => yields_renderItems hw id items _
  | _ => exact yields_throw nofun

lemma yields_renderChildren (n : Node) (scope : Scope) :
    Yields (· ≠ .awaits []) (renderChildren walk n scope) fun _ => True := by
  unfold renderChildren
  cases scope.tree with
  | none => exact yields_throw nofun
  | some id =>
    refine (yields_expansionOf id).bind fun f _ => ?_
    dsimp only
    split
    · exact yields_renderItems hw id _ scope
    · split
      · exact yields_throw nofun
      · exact yields_pure trivial

lemma yields_renderElement (t : Template) (n : Node) (scope : Scope) (taken : Bool) :
    Yields (· ≠ .awaits []) (renderElement setup walk t n scope taken) fun _ => True := by
  -- only trees are looked up in another way
  have hlexical : Yields (· ≠ .awaits []) (Lexical.renderElement setup (fun _ => walk)
      ⟨none, scope.fills⟩ t n scope taken) fun _ => True :=
    Lexical.yields_renderElement (fun _ => hw) _ _ _ _ _
  unfold Lexical.renderElement at hlexical
  unfold renderElement
  split
  · rename_i d hd
    rw [hd] at hlexical
    rw [bind_pure_comp]
    cases d with
    | tree => exact (yields_renderTree hw t n scope).map fun _ _ => trivial
    | children => exact (yields_renderChildren hw n scope).map fun _ _ => trivial
    | _ => exact hlexical
  · rename_i hd
    rw [hd] at hlexical
    exact hlexical

omit hw in
lemma yields_walk (setup : Setup) (depth : Nat) : ∀ t ns scope,
    Yields (· ≠ .awaits []) (HtmlTemplate.walk setup depth t ns scope) fun _ => True := by
  induction depth with
  | zero => exact fun _ _ _ => yields_throw nofun
  | succ depth ih =>
    intro t ns scope
    rw [HtmlTemplate.walk, renderSiblings_eq]
    exact yields_siblingsBy closed_ne_awaits (fun _ _ => yields_pure trivial)
      fun n _ _ taken => yields_renderElement ih t n scope taken

end Node

end Waits

/-! ### Inclusions -/

/-- Fills that have a text were rendered in turn, each of them once. -/
lemma inTurn_of_renderFills {walk : Walk} {t : Template} {scope : Scope}
    {fills : List (Text × Node)} {filled : Record Text} {s s' : Store} (hs : s.memo.Sound)
    (hw : ∀ p ∈ fills, Yields (· ≠ .awaits []) (walk t p.2.children scope) fun _ => True)
    (h : exec (Node.renderFills walk t fills scope) s = (.ok filled, s')) :
    InTurn (fun p : Text × Node => Render.within (t.place p.2) (walk t p.2.children scope))
        fills (filled.map Prod.snd) s s' ∧
      filled.names = fills.map Prod.fst := by
  rw [Node.renderFills, bind_pure_comp, exec_map] at h
  rcases hparts : exec (Render.fanOut (fun x : Text × Node => Render.within (t.place x.2)
    (walk t x.2.children scope)) fills) s with ⟨_ | parts, u⟩
  · rw [hparts] at h
    cases h
  · rw [hparts] at h
    cases h
    have hturn := inTurn_of_fanOut hs
      (fun p hp => yields_within (hw p hp) closed_ne_awaits _) hparts
    have hlength := hturn.length_eq
    refine ⟨?_, ?_⟩
    · rw [List.map_snd_zip (by simp [hlength])]
      exact hturn
    · exact List.map_fst_zip (by simp [hlength])

/-- What is done in turn is done in the same way by what gives the same. -/
lemma InTurn.of_agree {α β : Type} {f g : β → Render α} {r : Expansions} {bs : List β}
    {as : List α} {s t : Store} (h : InTurn f bs as s t)
    (hfg : ∀ b ∈ bs, Agree (Holding r) (f b) (g b)) (hs : Holding r s s) : InTurn g bs as s t := by
  induction h with
  | nil s => exact .nil s
  | @cons b bs a as s u v hfirst _ ih =>
    obtain ⟨result, w, w', hf, hg, hw⟩ := hfg b List.mem_cons_self s s hs
    obtain rfl := hw.eq
    rw [hfirst] at hf
    cases hf
    exact .cons hg (ih (fun c hc => hfg c (List.mem_cons_of_mem b hc)) hw)

namespace Node

variable {walk : Walk} {t : Template} {n : Node} {inner : Scope} {filled : Record Text}

lemma renderHole_of_mem (hinner : inner.fills = some filled) (hdistinct : filled.names.Nodup)
    {text : Text} (h : (slotName n, text) ∈ filled) : renderHole walk t n inner = pure text := by
  rw [renderHole, hinner, Option.bind_some, Record.get?_of_mem hdistinct h]

lemma renderHole_of_not_mem (hinner : inner.fills = some filled)
    (h : slotName n ∉ filled.names) : renderHole walk t n inner = walk t n.children inner := by
  rw [renderHole, hinner, Option.bind_some, Record.get?_eq_none_iff.2 h]

end Node

/-- **Slots are hygienic.** All nodes of an included file are rendered with the fills of its own
inclusion, and these are rendered once, in the scope of the inclusion. A hole gives the text of its
fill, or its own children if there is none, in whatever scope it is. Fills around the inclusion only
matter for holes in its own fills. -/
theorem renderInclusion_hygienic (setup : Setup) (depth : Nat) (t : Template) (n : Node)
    (scope : Scope) (e : Surroundings) (s : Store) (hs : s.trees.Reachable)
    (hmemo : s.memo.Sound) (he : e.Live scope s.trees) :
    (∀ watch : Watch, watch.Silent →
      exec (Node.renderInclusion setup (walk setup depth) t n scope) s =
        exec (Lexical.renderInclusion setup (Lexical.walk setup watch depth) e t n scope) s) ∧
    (∀ fills filled s', fillsOf t n = pure fills →
      exec (Node.renderFills (walk setup depth) t fills scope) s = (.ok filled, s') →
      fills = (n.children.filter Node.isElement).map (fun m => (slotName m, m)) ∧
      filled.names = fills.map Prod.fst ∧
      InTurn (fun p : Text × Node => Render.within (t.place p.2)
        (walk setup depth t p.2.children scope)) fills (filled.map Prod.snd) s s' ∧
      ∀ walk' u m inner, inner.fills = some filled →
        (∀ text, (slotName m, text) ∈ filled → Node.renderHole walk' u m inner = pure text) ∧
        (slotName m ∉ filled.names →
          Node.renderHole walk' u m inner = walk' u m.children inner)) ∧
    ∀ outer, e.SameFor { e with fills := outer } n.children →
      exec (Node.renderInclusion setup (walk setup depth) t n (scope.withFills outer)) s =
        exec (Node.renderInclusion setup (walk setup depth) t n scope) s := by
  have hr := hs.orderly
  have hfollows := Lexical.follows_walk setup silent_unwatched depth
  refine ⟨fun watch hwatch => ?_, fun fills filled s' hfills hfilled => ?_, fun outer houter => ?_⟩
  · exact (exec_eq_of_holding
      (Lexical.agree_renderInclusion (Lexical.follows_walk setup hwatch depth) hr he)).1
  · have hown : FillsOf [] n.children fills := by
      refine gives_fillsFrom t n.children [] s fills s ?_
      change exec (fillsOf t n) s = _
      rw [hfills]
      rfl
    have hparts : ∀ p ∈ fills, Agree (Holding s.trees)
        (Render.within (t.place p.2) (Lexical.walk setup unwatched depth e t p.2.children scope))
        (Render.within (t.place p.2) (walk setup depth t p.2.children scope)) :=
      fun p _ => Render.agree_within _ (hfollows _ _ _ _ _ hr he)
    have hrun : exec (Node.renderFills (walk setup depth) t fills scope) s =
        exec (Node.renderFills (Lexical.walk setup unwatched depth e) t fills scope) s :=
      (exec_eq_of_holding (Node.agree_renderFills fun p _ => hfollows _ _ _ _ _ hr he)).1
    rw [hrun] at hfilled
    obtain ⟨hturn, hnames⟩ := inTurn_of_renderFills hmemo
      (fun p _ => Lexical.yields_walk setup depth e t p.2.children scope) hfilled
    refine ⟨hown.eq, hnames, hturn.of_agree hparts (holding_self s), ?_⟩
    refine fun walk' u m inner hinner => ⟨fun text htext => ?_, fun hm => ?_⟩
    · exact Node.renderHole_of_mem hinner (hnames ▸ hown.distinct) htext
    · exact Node.renderHole_of_not_mem hinner hm
  · -- other fills in the scope and around are looked at only where a hole has the name of one
    have houterLive : { e with fills := outer }.Live (scope.withFills outer) s.trees :=
      ⟨he.tree, rfl⟩
    rw [(exec_eq_of_holding (Lexical.agree_renderInclusion hfollows hr houterLive)).1,
      (exec_eq_of_holding (Lexical.agree_renderInclusion hfollows hr he)).1,
      Lexical.renderInclusion_sameFor (Lexical.readsHoles_walk setup depth) houter,
      Lexical.renderInclusion_withFills outer (Lexical.ignoresFills_walk setup depth)]

/-- A fill with a hole of the file around in it, and a hole of the included file that has the name
of a fill around. -/
theorem renderInclusion_hygienic_forwarding :
    let element (tag : Text) (attributes : Attributes) (children : List Node) : Node :=
      .element ⟨tag, attributes, [], 1, false⟩ true children
    let fill := element "t-fill" [("name", "x")] [element "t-hole" [("name", "a")] []]
    let n := element "t-include" [("file", "b")] [fill]
    let t : Template := ⟨some "m", [n]⟩
    let source : Text := "[<t-hole name='x'></t-hole>,<t-hole name='a'>none</t-hole>]"
    let setup : Setup := ⟨(Library.empty.put "b" (Utf8.encode source)).loader, false, false⟩
    let scope : Scope := ⟨.empty, none, false, some [("a", "A"), ("b", "B")]⟩
    let e : Surroundings := ⟨none, scope.fills⟩
    let outer : Option (Record Text) := some [("a", "A")]
    let filled : Record Text := [("x", "A")]
    let s : Store := ⟨.empty 0, .empty, .empty, []⟩
    let run (scope : Scope) := exec (Node.renderInclusion setup (walk setup 9) t n scope) s
    run scope =
      exec (Lexical.renderInclusion setup (Lexical.walk setup checkedItems 9) e t n scope) s ∧
    (∀ walk' u m (inner : Scope), inner.fills = some filled → slotName m = "x" →
      Node.renderHole walk' u m inner = pure "A") ∧
    run (scope.withFills outer) = run scope ∧
    (run scope).1.toOption = some "[A,none]" := by
  intro element fill n t source setup scope e outer filled s run
  have hlive : e.Live scope s.trees := ⟨rfl, rfl⟩
  obtain ⟨hwatch, hfills, houter⟩ := renderInclusion_hygienic setup 9 t n scope e s .empty
    (Memo.sound_empty 0) hlive
  have hown : fillsOf t n = pure [(("x" : Text), fill)] := by with_unfolding_all rfl
  have hfilled : exec (Node.renderFills (walk setup 9) t [("x", fill)] scope) s =
      (.ok filled, s) := by with_unfolding_all rfl
  obtain ⟨-, -, -, hhole⟩ := hfills _ _ _ hown hfilled
  have hsame : e.SameFor { e with fills := outer } n.children := by
    refine ⟨rfl, fun name hname => ?_, fun _ f hf => nomatch hf⟩
    have hnames : Node.holeNames n.children = [("a" : Text)] := by decide
    rw [hnames, List.mem_singleton] at hname
    rw [hname]
    rfl
  refine ⟨hwatch checkedItems silent_checkedItems, fun walk' u m inner hinner hm => ?_,
    houter outer hsame, by decide +kernel⟩
  refine (hhole walk' u m inner hinner).1 "A" ?_
  rw [hm]
  exact List.mem_singleton_self _

end HtmlTemplate
