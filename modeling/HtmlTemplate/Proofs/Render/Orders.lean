import Mathlib.Data.List.Basic
import HtmlTemplate.Proofs.Expr.Memo
import HtmlTemplate.Proofs.Markup.TemplateCache
import HtmlTemplate.Proofs.Render.Expansions
import HtmlTemplate.Proofs.Render.Place
import HtmlTemplate.Proofs.Render.Schedule

/-!
The order in which parts are done does not show.

A part leaves numbers of expansions used up, and expressions and templates remembered. None of that
changes what another part gives: rendering as scheduled, on any store that remembers nothing wrong,
is rendering in surroundings on any other such store.
-/

namespace HtmlTemplate

/-- Stores that have nothing to do with each other. -/
structure Apart (P Q : Store → Prop) (s s' : Store) : Prop where
  left : P s
  right : Q s'

/-! ### Parts that give the same on many stores -/

section Apart

variable {α β : Type} {P Q : Store → Prop} {x y z : Render α} {s s' : Store}

/-- On stores with a property, which it keeps, `x` gives what `z` gives on any store. -/
def Render.Matches (P : Store → Prop) (x z : Render α) : Prop := Agree (fun s _ => P s) x z

/-- What matches the same agrees, whatever the stores. -/
lemma Render.Matches.agree (hx : x.Matches P z) (hy : y.Matches Q z) : Agree (Apart P Q) x y := by
  rintro s s' ⟨hs, hs'⟩
  obtain ⟨r, t, u, hx, hz, ht⟩ := hx s s hs
  obtain ⟨r', t', u', hy, hz', ht'⟩ := hy s' s hs'
  rw [hz] at hz'
  cases hz'
  exact ⟨r, t, t', hx, hy, ht, ht'⟩

lemma Agree.matches_left (h : Agree (Apart P Q) x y) (hs' : Q s') :
    x.Matches P (Render.done (exec y s').1) := by
  intro s u hs
  obtain ⟨r, t, t', hx, hy, ht⟩ := h s s' ⟨hs, hs'⟩
  rw [hy]
  exact ⟨r, t, u, hx, rfl, ht.left⟩

lemma Agree.matches_right (h : Agree (Apart P Q) x y) (hs : P s) (hs' : Q s') :
    y.Matches Q (Render.done (exec y s').1) := by
  intro s'' u hs''
  obtain ⟨r, t, t', hx, hy, -⟩ := h s s' ⟨hs, hs'⟩
  obtain ⟨r', v, v', hx', hy', hv⟩ := h s s'' ⟨hs, hs''⟩
  rw [hx] at hx'
  cases hx'
  rw [hy]
  exact ⟨r, v', u, hy', rfl, hv.right⟩

/-- Where results do not depend on the store, they do not depend on the order either. -/
lemma exec_outcomes {f : α → Render β} {o : α → Except Stop β} (order : List α)
    (h : ∀ a ∈ order, (f a).Matches P (Render.done (o a))) :
    ∀ s, P s → ∃ t, Render.outcomes f order s = (order.map fun a => (a, o a), t) ∧ P t := by
  induction order with
  | nil => exact fun s hs => ⟨s, rfl, hs⟩
  | cons a order ih =>
    intro s hs
    obtain ⟨r, t, t', hf, hdone, ht⟩ := h a List.mem_cons_self s s hs
    obtain ⟨u, hrest, hu⟩ := ih (fun b hb => h b (List.mem_cons_of_mem a hb)) t ht
    cases hdone
    refine ⟨u, ?_, hu⟩
    rw [Render.outcomes_cons, hf]
    dsimp only
    rw [hrest, List.map_cons]

lemma matches_joined (results : List (Except Stop β)) :
    (Render.joined results).Matches P (Render.joined results) :=
  Render.agree_fanOut fun r _ s s' hs => ⟨r, s, s', rfl, rfl, hs⟩

lemma matches_fanOut {f : α → Render β} {o : α → Except Stop β} {as : List α}
    (h : ∀ a ∈ as, (f a).Matches P (Render.done (o a))) :
    (Render.fanOut f as).Matches P (Render.joined (as.map o)) := by
  rw [Render.joined, Render.fanOut_map]
  exact Render.agree_fanOut h

/-- What all parts have come to is put together by their positions, on whatever course. -/
lemma matches_fanOut_scheduled (σ : Schedule) {f : Schedule → α → Render β}
    {o : α → Except Stop β} {as : List α}
    (h : ∀ σ, ∀ a ∈ as, (f σ a).Matches P (Render.done (o a))) :
    (σ.fanOut f as).Matches P (Render.joined (as.map o)) := by
  unfold Schedule.fanOut
  cases σ [] as.length with
  | straight =>
    have hzip : as.map o = as.zipIdx.map (o ∘ Prod.fst) := by
      rw [← List.map_map, List.zipIdx_map_fst]
    rw [hzip]
    exact matches_fanOut fun p hp => h _ _ (List.fst_mem_of_mem_zipIdx hp)
  | reordered order each =>
    intro s s' hs
    obtain ⟨t, hrun, ht⟩ := exec_outcomes (o := fun i : Fin as.length => o as[i]) order
      (fun i _ => h (σ.inPart i) as[i] (List.getElem_mem i.isLt)) s hs
    have hresults : (List.finRange as.length).filterMap
        ((order.map fun i => (i, o as[i])).lookup ·) = as.map o := by
      have hlookup : ∀ i : Fin as.length,
          (order.map fun i : Fin as.length => (i, o as[i])).lookup i = some (o as[i]) :=
        fun i => List.lookup_graph _ (each.mem_iff.2 (List.mem_finRange i))
      simp only [hlookup, List.filterMap_eq_map']
      exact List.ext_getElem (by simp) (by simp)
    obtain ⟨r, u, u', hjoined, hjoined', hu⟩ := matches_joined (as.map o) t s' ht
    refine ⟨r, u, u', ?_, hjoined', hu⟩
    change exec (Render.joined ((List.finRange as.length).filterMap
      ((Render.outcomes _ order s).1.lookup ·))) (Render.outcomes _ order s).2 = _
    rw [hrun, hresults, hjoined]

lemma agree_fanOut_scheduled (σ : Schedule) {f : Schedule → α → Render β} {g : α → Render β}
    {as : List α} (h : ∀ σ, ∀ a ∈ as, Agree (Apart P Q) (f σ a) (g a)) :
    Agree (Apart P Q) (σ.fanOut f as) (Render.fanOut g as) := by
  intro s s' hs
  have hleft := matches_fanOut_scheduled σ fun σ a ha => (h σ a ha).matches_left hs.right
  have hright := matches_fanOut fun a ha => (h σ a ha).matches_right hs.left hs.right
  exact hleft.agree hright s s' hs

end Apart

/-! ### Stores on which parts run -/

/-- All files hold texts of `U`, of which no two have one digest if templates are cached. -/
structure Setup.Knows (setup : Setup) (U : Set Text) : Prop where
  files : ∀ source, setup.loader.Holds source → source ∈ U
  digests : setup.cache = true → Set.InjOn Digest.ofText U

/-- What a store remembers is right: its memo is sound, and its cache, if it is used, holds the
templates of some texts of `U`. -/
structure Store.Truthful (keep : Bool) (U : Set Text) (s : Store) : Prop where
  memo : s.memo.Sound
  cache : keep = true → ∃ ts, s.cache.Holds ts ∧ ∀ t ∈ ts, t ∈ U

/-- Besides, the expansions of `r` are under way, and others may have come and gone. -/
structure Store.Amid (keep : Bool) (U : Set Text) (r : Expansions) (s : Store) : Prop
    extends s.Truthful keep U where
  active : s.trees.active = r.active
  begun_le : r.begun ≤ s.trees.begun

/-- On the left the expansions of `r` are under way. On the right any are. -/
abbrev Running (keep : Bool) (U : Set Text) (r : Expansions) : Store → Store → Prop :=
  Apart (Store.Amid keep U r) (Store.Truthful keep U)

section Running

variable {α : Type} {keep : Bool} {U : Set Text} {r : Expansions}

lemma agree_evaluating_running {x : Evaluation α} (h : Agree BothSound x x) :
    Agree (Running keep U r) (Render.evaluating x) (Render.evaluating x) := by
  rintro s s' ⟨hs, hs'⟩
  obtain ⟨result, m, m', hx, hx', hm, hm'⟩ := h s.memo s'.memo ⟨hs.memo, hs'.memo⟩
  rw [Render.exec_evaluating, Render.exec_evaluating, hx, hx']
  exact ⟨_, _, _, rfl, rfl, ⟨⟨hm, hs.cache⟩, hs.active, hs.begun_le⟩, ⟨hm', hs'.cache⟩⟩

lemma blind_running : Blind (Running keep U r) where
  evaluating c source := agree_evaluating_running (agree_evaluate_memo c source)
  filling c raw t := agree_evaluating_running (agree_fillIn_memo c raw t)

/-- Parsing through the cache is parsing. -/
lemma Store.Truthful.exec_parseKept {s : Store} (hs : s.Truthful keep U)
    (hU : keep = true → Set.InjOn Digest.ofText U) {source : Text} (hsource : source ∈ U) :
    ∃ t, exec (parseKept keep source) s = (.ok (parseTemplate source), t) ∧
      t.Truthful keep U ∧ t.trees = s.trees := by
  cases keep with
  | false => exact ⟨_, rfl, ⟨hs.memo, hs.cache⟩, rfl⟩
  | true =>
    obtain ⟨ts, hholds, hts⟩ := hs.cache rfl
    obtain ⟨hfetch, hholds'⟩ := hholds.fetch (hU rfl) hts hsource
    rw [← hfetch]
    refine ⟨_, rfl, ⟨hs.memo, fun _ => ⟨source :: ts, hholds', fun t ht => ?_⟩⟩, rfl⟩
    rcases List.mem_cons.1 ht with rfl | ht
    · exact hsource
    · exact hts t ht

lemma agree_loadTemplate_running (hU : keep = true → Set.InjOn Digest.ofText U)
    (file : Option Text) {source : Text} (hsource : source ∈ U) :
    Agree (Running keep U r) (loadTemplate keep file source) (loadTemplate keep file source) := by
  have hparse : Agree (Running keep U r) (parseKept keep source) (parseKept keep source) := by
    rintro s s' ⟨hs, hs'⟩
    obtain ⟨t, hrun, ht, htrees⟩ := hs.exec_parseKept hU hsource
    obtain ⟨t', hrun', ht', -⟩ := hs'.exec_parseKept hU hsource
    exact ⟨_, t, t', hrun, hrun', ⟨ht, htrees ▸ hs.active, htrees ▸ hs.begun_le⟩, ht'⟩
  refine hparse.bind fun read => ?_
  cases read with
  | error e => exact Render.agree_within _ (Render.agree_fail _)
  | ok nodes => exact (agree_checkHoles _).bind fun _ => agree_pure _

/-- A new expansion gets another number on each side. -/
lemma agree_insideTree_running (hr : r.Orderly) (f : Expansion) {x y : Nat → Render α}
    (h : ∀ id id', r.begun ≤ id →
      Agree (Running keep U ⟨(id, f) :: r.active, id + 1⟩) (x id) (y id')) :
    Agree (Running keep U r) (Render.insideTree f x) (Render.insideTree f y) := by
  rintro s s' ⟨hs, hs'⟩
  have hstart : Running keep U ⟨(s.trees.begun, f) :: r.active, s.trees.begun + 1⟩
      { s with trees := (s.trees.start f).2 } { s' with trees := (s'.trees.start f).2 } :=
    ⟨⟨⟨hs.memo, hs.cache⟩, by rw [← hs.active]; rfl, Nat.le_refl _⟩, ⟨hs'.memo, hs'.cache⟩⟩
  obtain ⟨result, t, t', hx, hy, ht, ht'⟩ :=
    h s.trees.begun s'.trees.begun hs.begun_le _ _ hstart
  have htbegun := ht.begun_le
  refine ⟨result, { t with trees := t.trees.finish s.trees.begun },
    { t' with trees := t'.trees.finish s'.trees.begun }, ?_, ?_,
    ⟨⟨ht.memo, ht.cache⟩, ?_, ?_⟩, ⟨ht'.memo, ht'.cache⟩⟩
  · exact congrArg (fun p : Except Stop α × Store =>
      (p.1, { p.2 with trees := p.2.trees.finish s.trees.begun })) hx
  · exact congrArg (fun p : Except Stop α × Store =>
      (p.1, { p.2 with trees := p.2.trees.finish s'.trees.begun })) hy
  · change t.trees.active.filter _ = _
    rw [ht.active]
    exact hr.filter_cons hs.begun_le f
  · change r.begun ≤ t.trees.begun
    have hbegun := hs.begun_le
    dsimp only at htbegun
    omega

lemma Store.Amid.get?_eq {s : Store} (hs : s.Amid keep U r) : s.trees.get? = r.get? :=
  funext fun id => by rw [Expansions.get?, Expansions.get?, hs.active]

/-- A number on the left is as good as the expansion it stands for, if there is one. -/
lemma agree_expansionOf_running {id : Nat} {g : Expansion → Render α} {y : Render α}
    (hsome : ∀ f, r.get? id = some f → Agree (Running keep U r) (g f) y)
    (hnone : r.get? id = none → Agree (Running keep U r) Node.strayChildren y) :
    Agree (Running keep U r) (Node.expansionOf id >>= g) y := by
  intro s s' hs
  have hget := congrFun hs.left.get?_eq id
  rw [exec_bind]
  cases hid : r.get? id with
  | some f =>
    rw [exec_expansionOf (hget.trans hid)]
    exact hsome f hid s s' hs
  | none =>
    have hstray : exec (Node.expansionOf id) s = exec Node.strayChildren s := by
      have hfind : exec (Render.onTrees fun trees => (trees.get? id, trees)) s =
          (.ok none, s) := by
        rw [← hid, ← hget]
        rfl
      rw [Node.expansionOf, exec_bind, hfind]
    rw [hstray]
    exact hnone hid s s' hs

end Running

/-! ### Rendering as scheduled -/

/-- The surroundings that a scope speaks of, while the expansions of `r` are under way. -/
def Scope.surroundings (scope : Scope) (r : Expansions) : Surroundings :=
  ⟨scope.tree.bind r.get?, scope.fills⟩

lemma Scope.Around.surroundings_eq {scope inner : Scope} (h : scope.Around inner)
    (r : Expansions) : inner.surroundings r = scope.surroundings r := by
  rw [Scope.surroundings, h.tree, h.fills, Scope.surroundings]

lemma Scope.surroundings_inTree (scope : Scope) (r : Expansions) (id : Nat) (f : Expansion) :
    { scope with tree := some id }.surroundings ⟨(id, f) :: r.active, id + 1⟩ =
      (scope.surroundings r).inTree f := by
  rw [surroundings, Option.bind_some, Expansions.get?_cons_self]
  rfl

namespace Scheduled

variable {setup : Setup} {U : Set Text} {scheduled : Schedule → Walk}
  {lexical : Surroundings → Walk} {t : Template} {n : Node} {scope : Scope} {r : Expansions}

/-- Rendering as scheduled is rendering in the surroundings that the scope speaks of. -/
def Follows (keep : Bool) (U : Set Text) (scheduled : Schedule → Walk)
    (lexical : Surroundings → Walk) : Prop :=
  ∀ σ t ns scope r, r.Orderly →
    Agree (Running keep U r) (scheduled σ t ns scope) (lexical (scope.surroundings r) t ns scope)

variable (hw : Follows setup.cache U scheduled lexical) (hr : r.Orderly)
include hw hr

lemma agree_inside (σ : Schedule) {inner : Scope} (hinner : scope.Around inner)
    (t : Template) (ns : List Node) :
    Agree (Running setup.cache U r) (scheduled σ t ns inner)
      (lexical (scope.surroundings r) t ns inner) := by
  have hwalk := hw σ t ns inner r hr
  rwa [hinner.surroundings_eq] at hwalk

lemma agree_renderIn (σ : Schedule) (t : Template) (body : List Node) {scopes : List Scope}
    (hscopes : ∀ inner ∈ scopes, scope.Around inner) :
    Agree (Running setup.cache U r) (renderIn scheduled σ t body scopes)
      (Node.renderIn (lexical (scope.surroundings r)) t body scopes) :=
  (agree_fanOut_scheduled σ fun σ inner hinner =>
    agree_inside hw hr σ (hscopes inner hinner) t body).bind fun _ => agree_pure _

lemma agree_renderItems (σ : Schedule) (f : Expansion) (items : List Json) (scope : Scope) :
    Agree (Running setup.cache U r)
      (renderIn scheduled σ f.template f.body (items.map fun v => scope.extend [(f.item, v)]))
      (Lexical.renderItems lexical (scope.surroundings r) f items scope) := by
  refine agree_renderIn hw hr σ _ _ fun inner hinner => ?_
  obtain ⟨v, -, rfl⟩ := List.mem_map.1 hinner
  exact scope.around_extend _

lemma agree_renderTree (hplace : ∀ e, (lexical e).IgnoresPlace) (σ : Schedule) :
    Agree (Running setup.cache U r) (renderTree scheduled σ t n scope)
      (Lexical.renderTree lexical (scope.surroundings r) t n scope) := by
  refine (agree_demand _ _).bind fun on => (Node.agree_readBinding _).bind fun b =>
    (agree_evaluate blind_running _ _).bind fun v => ?_
  cases v with
  | array items =>
    refine agree_insideTree_running hr _ fun id id' hid => ?_
    refine agree_expansionOf_running (fun f hf => ?_) fun hnone => ?_
    · rw [Expansions.get?_cons_self] at hf
      obtain rfl := Option.some.inj hf
      have hitems := agree_renderItems hw (hr.cons hid ⟨t, n.children, b.item⟩) σ
        ⟨t, n.children, b.item⟩ items { scope with tree := some id }
      rw [Scope.surroundings_inTree] at hitems
      have hnumber := Lexical.renderItems_inPlace (some id) scope.fills hplace
        ((scope.surroundings r).inTree ⟨t, n.children, b.item⟩) { scope with tree := some id' }
        ⟨t, n.children, b.item⟩ items
      rw [← hnumber]
      exact hitems
    · rw [Expansions.get?_cons_self] at hnone
      cases hnone
  | _ => exact Render.agree_misuse _ _

lemma agree_renderChildren (σ : Schedule) :
    Agree (Running setup.cache U r) (renderChildren scheduled σ n scope)
      (Lexical.renderChildren lexical (scope.surroundings r) n scope) := by
  unfold renderChildren Lexical.renderChildren
  cases hid : scope.tree with
  | none =>
    have htree : (scope.surroundings r).tree = none := by rw [Scope.surroundings, hid]; rfl
    rw [htree]
    exact Render.agree_misuse _ _
  | some id =>
    have htree : (scope.surroundings r).tree = r.get? id := by rw [Scope.surroundings, hid]; rfl
    rw [htree]
    refine agree_expansionOf_running (fun f hf => ?_) fun hnone => ?_
    · rw [hf]
      dsimp only
      cases Node.itemField scope.context f.item _ with
      | array items =>
        refine agree_expansionOf_running (fun g hg => ?_) fun hnone => ?_
        · obtain rfl := Option.some.inj (hf.symm.trans hg)
          exact agree_renderItems hw hr σ f items scope
        · rw [hf] at hnone
          cases hnone
      | _ =>
        dsimp only
        split
        · exact Render.agree_misuse _ _
        · exact agree_pure _
    · rw [hnone]
      exact Render.agree_misuse _ _

lemma agree_renderFills (σ : Schedule) (fills : List (Text × Node)) (scope : Scope) :
    Agree (Running setup.cache U r) (renderFills scheduled σ t fills scope)
      (Node.renderFills (lexical (scope.surroundings r)) t fills scope) := by
  refine Agree.bind (agree_fanOut_scheduled σ ?_) fun _ => agree_pure _
  exact fun σ p _ => Render.agree_within _ (hw σ t p.2.children scope r hr)

lemma agree_renderInclusion (hU : setup.Knows U) (σ : Schedule) :
    Agree (Running setup.cache U r) (renderInclusion setup scheduled σ t n scope)
      (Lexical.renderInclusion setup lexical (scope.surroundings r) t n scope) := by
  refine (agree_demand _ _).bind fun file => (agree_fillsFrom _ _ _).bind fun fills =>
    (Node.agree_includedPath _ _).bind fun path => ?_
  have hfills := agree_renderFills hw hr (t := t) (σ.inPart 0) fills scope
  refine (Render.agree_both hfills (agree_readFile _ _)).bind_of_gives
    (Render.gives_both_snd (gives_readFile _ _)) fun ⟨filled, source⟩ hsource => ?_
  refine (agree_loadTemplate_running hU.digests _ (hU.files source hsource)).bind fun u => ?_
  exact hw (σ.inPart 1) u u.nodes (scope.included filled) r hr

lemma agree_renderHole (σ : Schedule) :
    Agree (Running setup.cache U r) (Node.renderHole (scheduled σ) t n scope)
      (Lexical.renderHole lexical (scope.surroundings r) t n scope) := by
  have hfills : (scope.surroundings r).fills = scope.fills := rfl
  unfold Lexical.renderHole Node.renderHole
  rw [hfills]
  cases scope.fills.bind fun fills => fills.get? (slotName n) with
  | some content => exact agree_pure _
  | none => exact agree_inside hw hr σ scope.around_refl t n.children

lemma agree_renderElement (hU : setup.Knows U) (hplace : ∀ e, (lexical e).IgnoresPlace)
    (σ : Schedule) (taken : Bool) :
    Agree (Running setup.cache U r) (renderElement setup scheduled σ t n scope taken)
      (Lexical.renderElement setup lexical (scope.surroundings r) t n scope taken) := by
  have hinner : ∀ inner, scope.Around inner → Agree (Running setup.cache U r)
      (scheduled σ t n.children inner) (lexical (scope.surroundings r) t n.children inner) :=
    fun inner hinner => agree_inside hw hr σ hinner t n.children
  unfold renderElement Lexical.renderElement
  cases Directive.ofTag? n.tag with
  | none => exact Node.agree_renderPlain blind_running hinner
  | some d =>
    refine Agree.map ?_ _
    cases d with
    | ifBranch | elifBranch | elseBranch => exact Node.agree_renderBranch hinner rfl taken
    | loop =>
      exact (agree_loopScopes blind_running _ _).bind_of_gives (gives_loopScopes _ _)
        fun _ hscopes => agree_renderIn hw hr σ t n.children hscopes
    | binding => exact Node.agree_renderBinding blind_running hinner
    | tree => exact agree_renderTree hw hr hplace σ
    | children => exact agree_renderChildren hw hr σ
    | inclusion => exact agree_renderInclusion hw hr hU σ
    | hole => exact agree_renderHole hw hr σ
    | fill => exact Render.agree_misuse _ _
    | html => exact hinner _ ⟨rfl, rfl⟩

lemma agree_renderNode (hU : setup.Knows U) (hplace : ∀ e, (lexical e).IgnoresPlace)
    (σ : Schedule) (taken : Option Bool) :
    Agree (Running setup.cache U r) (renderNode setup scheduled σ t scope n taken)
      (Node.siblingsBy.nodeBy t scope
        (fun n => Lexical.renderElement setup lexical (scope.surroundings r) t n scope)
        n taken) := by
  unfold renderNode Node.siblingsBy.nodeBy
  split
  · exact agree_pure _
  · exact agree_pure _
  · exact Render.agree_within _ (Node.agree_renderText blind_running _ _)
  · exact Render.agree_within _ (agree_renderElement hw hr hU hplace σ _)

omit hr in
/-- One more list of nodes. -/
lemma Follows.step (hU : setup.Knows U) (hplace : ∀ e, (lexical e).IgnoresPlace) :
    Follows setup.cache U (renderSiblings setup scheduled)
      (Lexical.renderSiblings setup unwatched lexical) := by
  intro σ t ns scope r hr
  refine (agree_decideFrom blind_running _ _ _ _).bind fun taken =>
    Agree.bind (agree_fanOut_scheduled σ fun σ x _ => ?_) fun _ => agree_pure _
  exact agree_renderNode hw hr hU hplace σ x.2

omit hw hr in
lemma follows_walk (hU : setup.Knows U) (depth : Nat) :
    Follows setup.cache U (Scheduled.walk setup depth) (Lexical.walk setup unwatched depth) := by
  induction depth with
  | zero => exact fun _ _ _ _ _ _ => agree_throw _
  | succ depth ih => exact ih.step hU (Lexical.ignoresPlace_walk setup depth)

omit hw hr in
/-- A part comes to one result on all stores and on every schedule. -/
lemma exists_agree_part (hU : setup.Knows U) (hr : r.Orderly) (depth : Nat) (x : Part) :
    ∃ y, ∀ σ, Agree (Running setup.cache U r)
      (x.renderAs setup (Scheduled.walk setup depth) σ) y := by
  have hfollows := follows_walk hU depth
  have hplace := Lexical.ignoresPlace_walk setup depth
  cases x with
  | node t scope n taken => exact ⟨_, fun σ => agree_renderNode hfollows hr hU hplace σ taken⟩
  | item t body scope => exact ⟨_, fun σ => hfollows σ t body scope r hr⟩
  | fill t n scope =>
    exact ⟨_, fun σ => Render.agree_within _ (hfollows σ t n.children scope r hr)⟩

end Scheduled

/-- A store that remembers nothing wrong. -/
lemma Store.exists_knows {setup : Setup} {s : Store} (hmemo : s.memo.Sound)
    (hcache : setup.cache = true → ∃ ts, s.cache.Holds ts ∧
      Set.InjOn Digest.ofText {x | x ∈ ts ∨ setup.loader.Holds x}) :
    ∃ U, setup.Knows U ∧ s.Amid setup.cache U s.trees := by
  cases hkeep : setup.cache with
  | false =>
    refine ⟨Set.univ, ⟨fun _ _ => trivial, fun h => ?_⟩, ⟨hmemo, fun h => ?_⟩, rfl, Nat.le_refl _⟩
    · rw [hkeep] at h
      cases h
    · cases h
  | true =>
    obtain ⟨ts, hholds, hinj⟩ := hcache hkeep
    exact ⟨_, ⟨fun _ h => .inr h, fun _ => hinj⟩,
      ⟨hmemo, fun _ => ⟨ts, hholds, fun _ h => .inl h⟩⟩, rfl, Nat.le_refl _⟩

/-- **The order of the parts does not show.** Siblings, the items of a loop or a tree, and the fills
of an inclusion may be done in any order on one store, and the parts inside them as well: each comes
to what it comes to by itself, and the whole is what the renderer gives. If templates are cached, no
two of their texts may have one digest. -/
theorem walk_any_order (setup : Setup) (depth : Nat) (s : Store) (hs : s.trees.Reachable)
    (hmemo : s.memo.Sound)
    (hcache : setup.cache = true → ∃ ts, s.cache.Holds ts ∧
      Set.InjOn Digest.ofText {x | x ∈ ts ∨ setup.loader.Holds x}) :
    (∀ (xs : List Part) (order : List (Fin xs.length)) (σ : Schedule),
      (Render.outcomes (fun i => xs[i].renderAs setup (Scheduled.walk setup depth) (σ.inPart i))
        order s).1 =
      order.map fun i => (i, (exec (xs[i].render setup (walk setup depth)) s).1)) ∧
    ∀ (σ : Schedule) t ns scope,
      (exec (Scheduled.walk setup depth σ t ns scope) s).1 =
        (exec (walk setup depth t ns scope) s).1 := by
  obtain ⟨U, hU, hamid⟩ := Store.exists_knows hmemo hcache
  have hself : Running setup.cache U s.trees s s := ⟨hamid, hamid.toTruthful⟩
  -- what a part comes to as scheduled, on any store like `s`, and alone on `s`
  have hpart : ∀ (x : Part) σ, (x.renderAs setup (Scheduled.walk setup depth) σ).Matches
      (Store.Amid setup.cache U s.trees)
      (Render.done (exec (x.render setup (walk setup depth)) s).1) := by
    intro x σ
    obtain ⟨y, hy⟩ := Scheduled.exists_agree_part hU hs.orderly depth x
    have hstraight := hy .straight
    rw [Part.renderAs_straight, Scheduled.walk_straight] at hstraight
    obtain ⟨result, t, t', hx, hy', -⟩ := hstraight s s hself
    have hmatches := (hy σ).matches_left hself.right
    rw [hy'] at hmatches
    rw [hx]
    exact hmatches
  refine ⟨fun xs order σ => ?_, fun σ t ns scope => ?_⟩
  · obtain ⟨t, hrun, -⟩ := exec_outcomes order
      (fun i _ => hpart xs[i] (σ.inPart i)) s hamid
    rw [hrun]
  · obtain ⟨result, u, u', hx, hdone, -⟩ := hpart (.item t ns scope) σ s s hamid
    cases hdone
    have hresult := congrArg Prod.fst hx
    exact hresult

/-- A tree beside an inclusion of a cached file, all done from the last part to the first. -/
theorem walk_any_order_backwards :
    let element (tag : Text) (attributes : Attributes) (children : List Node) : Node :=
      .element ⟨tag, attributes, [], 1, false⟩ true children
    let tree := element "t-tree" [("on", "a as x")]
      [.leaf .text "(" 1, element "t-children" [] [], .leaf .text ")" 1]
    let fill := element "t-fill" [] [.leaf .text (openBraces ++ "y" ++ closeBraces) 1, tree]
    let ns := [tree, element "t-include" [("file", "b")] [fill], tree]
    let t : Template := ⟨some "m", ns⟩
    let scope : Scope :=
      .ofContext ⟨[[("a", .array [.object [("children", .array [.null])]]), ("y", .bool true)]]⟩
    let source : Text := "[<t-hole></t-hole>]"
    let setup : Setup := ⟨(Library.empty.put "b" (Utf8.encode source)).loader, true, false⟩
    let s : Store := ⟨.empty 1, .empty, .empty, []⟩
    let backwards : Schedule :=
      fun _ n => .reordered (List.finRange n).reverse (List.reverse_perm _)
    let parts : List Part := ns.map fun n => .node t scope n none
    let order : List (Fin 3) := [2, 0, 1]
    let result : Text := "(())[true(())](())"
    (Render.outcomes (fun i => parts[i].renderAs setup (Scheduled.walk setup 9)
        (backwards.inPart i)) order s).1 =
      order.map (fun i => (i, (exec (parts[i].render setup (walk setup 9)) s).1)) ∧
    (exec (Scheduled.walk setup 9 backwards t ns scope) s).1 =
      (exec (walk setup 9 t ns scope) s).1 ∧
    (exec (walk setup 9 t ns scope) s).1.toOption = some result := by
  intro element tree fill ns t scope source setup s backwards parts order result
  have hfile : ∀ x, setup.loader.Holds x → x = source := by
    intro x h
    rcases Library.holds_put h with h | h
    · obtain ⟨path, bytes, hget, -⟩ := Library.holds_iff.1 h
      cases hget
    · have hread : textOfBytes (Utf8.encode source) = .ok source := by decide +kernel
      rw [hread] at h
      cases h
      rfl
  have hdigests : Set.InjOn Digest.ofText {x | x ∈ ([] : List Text) ∨ setup.loader.Holds x} := by
    rintro x (hx | hx) y (hy | hy) -
    · cases hx
    · cases hx
    · cases hy
    · rw [hfile x hx, hfile y hy]
  obtain ⟨hparts, hwalk⟩ := walk_any_order setup 9 s .empty (Memo.sound_empty 1)
    fun _ => ⟨[], TemplateCache.holds_empty, hdigests⟩
  exact ⟨hparts parts order backwards, hwalk backwards t ns scope, by decide +kernel⟩

end HtmlTemplate
