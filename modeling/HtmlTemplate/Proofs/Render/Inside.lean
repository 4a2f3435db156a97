import HtmlTemplate.Proofs.Render.Ending

/-!
What an element depends on.

An element that is no tree depends on what it renders inside itself, in scopes that have all
variables from around it but those that it binds, and on the fills for its holes. So two ways to
render elements are the same if they are the same inside.
-/

namespace HtmlTemplate

/-! ### What elements bind -/

lemma LoopHead.get?_scope (l : LoopHead) (scope : Scope) (item : LoopItem) (x : Text) :
    (scope.extend (item.bindings l)).context.get? x =
      if l.key = some x then some item.key
      else if l.value = x then some (item.bound l) else scope.context.get? x := by
  rw [Scope.extend, Context.get?_extend, LoopItem.get?_bindings]
  split
  · rfl
  · split <;> rfl

namespace Node

/-- Whether an element binds a variable for what is inside it. -/
def binds (n : Node) (x : Text) : Bool :=
  match Directive.ofTag? n.tag with
  | some .loop =>
    ((n.attributes.get? "on").bind LoopHead.parse?).any fun l => l.value == x || l.key == some x
  | some .binding => n.attributes.any fun a => a.1 == x
  | some .tree => ((n.attributes.get? "on").bind TreeHead.parse?).any fun b => b.item == x
  | _ => false

/-- A scope inside an element has a variable from around it, unless the element binds it. -/
def Hands (n : Node) (x : Text) (scope inner : Scope) : Prop :=
  n.binds x = false → inner.context.get? x = scope.context.get? x

/-- No element among nodes and below them binds a variable. -/
def Keeps (x : Text) (ns : List Node) : Prop := ∀ m ∈ nodesAll ns, m.binds x = false

variable {n : Node} {ns : List Node} {x : Text} {scope : Scope}

lemma Keeps.of_mem (h : Keeps x ns) (hn : n ∈ ns) : n.binds x = false := h n (mem_nodesAll hn)

lemma Keeps.children (h : Keeps x ns) (hn : n ∈ ns) : Keeps x n.children :=
  fun m hm => h m ((nodesAll_children hn).subset hm)

lemma gives_loopScopes_hands (hn : Directive.ofTag? n.tag = some .loop) :
    Gives (loopScopes n scope) fun scopes => ∀ inner ∈ scopes, n.Hands x scope inner := by
  rcases n.loopsOver_or with ⟨l, step, hl⟩ | ⟨f, hf⟩
  · rw [hl.loopScopes_eq]
    refine gives_bind fun items => (gives_chooseFrom _ _ _ _).mono ?_
    intro scopes hsub inner hinner
    rw [List.nil_append] at hsub
    obtain ⟨item, -, rfl⟩ := List.mem_map.1 (hsub hinner)
    intro hbinds
    have hvar : l.value ≠ x ∧ l.key ≠ some x := by
      rw [binds, hn] at hbinds
      dsimp only at hbinds
      rw [hl.head] at hbinds
      simpa using hbinds
    rw [l.get?_scope, if_neg hvar.2, if_neg hvar.1]
  · rw [hf]
    exact gives_throw _ _

lemma gives_evaluateAll (attributes : List (Text × Text)) :
    Gives (evaluateAll scope attributes) fun vars => vars.names = attributes.map Prod.fst := by
  induction attributes with
  | nil => exact gives_pure rfl
  | cons a attributes ih =>
    refine gives_bind fun v => ih.bind fun vars hvars => gives_pure ?_
    rw [Record.names, List.map_cons, List.map_cons, ← hvars]
    rfl

lemma gives_evaluateAll_hands (hn : Directive.ofTag? n.tag = some .binding) :
    Gives (evaluateAll scope n.attributes) fun vars => n.Hands x scope (scope.extend vars) := by
  refine (gives_evaluateAll _).mono fun vars hvars hbinds => ?_
  have hnone : vars.get? x = none := by
    rw [Record.get?_eq_none_iff, hvars]
    rw [binds, hn] at hbinds
    rintro hmem
    obtain ⟨a, ha, rfl⟩ := List.mem_map.1 hmem
    exact List.any_eq_false.1 hbinds a ha (beq_self_eq_true _)
  rw [Scope.extend, Context.get?_extend, hnone, Option.none_or]

end Node

/-! ### The fills of an inclusion -/

/-- The fills of an inclusion are all elements in it, under different names. -/
structure FillsOf (seen : List Text) (ns : List Node) (fills : List (Text × Node)) : Prop where
  eq : fills = (ns.filter Node.isElement).map fun m => (slotName m, m)
  distinct : (fills.map Prod.fst).Nodup
  unseen : ∀ p ∈ fills, p.1 ∉ seen

lemma gives_fillsFrom (t : Template) (ns : List Node) :
    ∀ seen, Gives (fillsFrom t seen ns) (FillsOf seen ns) := by
  induction ns with
  | nil => exact fun seen => gives_pure ⟨rfl, List.nodup_nil, by simp⟩
  | cons n ns ih =>
    intro seen
    rw [fillsFrom_cons]
    by_cases hn : n.isElement
    · rw [if_neg (by simp [hn])]
      split
      · exact Render.gives_within (Render.gives_misuse _ _ _) _
      · split
        · exact Render.gives_within (Render.gives_misuse _ _ _) _
        · rename_i hnew
          rw [← bind_pure_comp]
          refine (ih _).bind fun fills hfills => gives_pure ⟨?_, ?_, ?_⟩
          · rw [List.filter_cons_of_pos hn, List.map_cons, hfills.eq]
          · rw [List.map_cons, List.nodup_cons]
            refine ⟨fun hmem => ?_, hfills.distinct⟩
            obtain ⟨p, hp, hname⟩ := List.mem_map.1 hmem
            exact hfills.unseen p hp (hname ▸ List.mem_cons_self)
          · intro p hp
            rcases List.mem_cons.1 hp with rfl | hp
            · exact hnew
            · exact fun hseen => hfills.unseen p hp (List.mem_cons_of_mem _ hseen)
    · rw [if_pos (by simp [hn])]
      exact (ih seen).mono fun fills hfills =>
        ⟨by rw [List.filter_cons_of_neg hn]; exact hfills.eq, hfills.distinct, hfills.unseen⟩

/-- The text for the holes of a name. -/
def Surroundings.fill? (e : Surroundings) (name : Text) : Option Text :=
  e.fills.bind fun fills => fills.get? name

/-! ### Elements that render alike -/

section

variable {α : Type}

lemma agree_eq (x : Render α) : Agree Eq x x := fun _ _ hs => hs ▸ ⟨_, _, _, rfl, rfl, rfl⟩

lemma eq_of_agree {x y : Render α} (h : Agree Eq x y) : x = y := by
  refine exec_ext fun s => ?_
  obtain ⟨r, t, t', hx, hy, rfl⟩ := h s s rfl
  rw [hx, hy]

lemma unseen_eq : Unseen Eq where
  evaluating _ _ := agree_eq _
  filling _ _ _ := agree_eq _
  trees hs := hs ▸ rfl
  setTrees _ hs := hs ▸ rfl

end

namespace Lexical

variable {setup : Setup} {lexical lexical' : Surroundings → Walk} {e e' : Surroundings}
  {t : Template} {n : Node} {scope : Scope} {x : Text}

lemma renderElement_of_directive {d : Directive} (hd : Directive.ofTag? n.tag = some d)
    (taken : Bool) :
    renderElement setup lexical e t n scope taken =
      Node.mark setup d <$> renderDirective setup lexical e t n scope taken d := by
  rw [renderElement, hd]

/-- An inclusion depends on what its fills and its file render. -/
lemma renderInclusion_congr
    (hfills : ∀ m ∈ n.children, lexical e t m.children scope = lexical' e' t m.children scope)
    (hfile : ∀ filled, lexical (.included filled) = lexical' (.included filled)) :
    renderInclusion setup lexical e t n scope = renderInclusion setup lexical' e' t n scope := by
  refine eq_of_agree ((agree_demand _ _).bind fun file => ?_)
  refine (agree_fillsFrom _ _ _).bind_of_gives (gives_fillsFrom t n.children []) ?_
  intro fills hown
  refine (Node.agree_includedPath _ _).bind fun path => ?_
  refine (Render.agree_both (Node.agree_renderFills fun p hp => ?_) (agree_readFile _ _)).bind
    fun ⟨filled, source⟩ => ?_
  · rw [hown.eq] at hp
    obtain ⟨m, hm, rfl⟩ := List.mem_map.1 hp
    rw [hfills m (List.mem_of_mem_filter hm)]
    exact agree_eq _
  · dsimp only
    rw [hfile]
    exact agree_eq _

/-- Two ways to render what is inside an element, each in its surroundings, give the same in the
scopes that it makes and for an included file, and a hole has the same fill in both. -/
structure SameInside (lexical lexical' : Surroundings → Walk) (x : Text) (e e' : Surroundings)
    (t : Template) (n : Node) (scope : Scope) : Prop where
  children : ∀ inner, n.Hands x scope inner →
    lexical e t n.children inner = lexical' e' t n.children inner
  fills : ∀ m ∈ n.children, lexical e t m.children scope = lexical' e' t m.children scope
  file : ∀ filled, lexical (.included filled) = lexical' (.included filled)
  hole : Directive.ofTag? n.tag = some .hole → e.fill? (slotName n) = e'.fill? (slotName n)

/-- Other elements than trees and their t-children depend on what is inside them. -/
lemma SameInside.renderElement_eq (h : SameInside lexical lexical' x e e' t n scope)
    (htree : Directive.ofTag? n.tag ≠ some .tree)
    (hchildren : Directive.ofTag? n.tag ≠ some .children) (taken : Bool) :
    renderElement setup lexical e t n scope taken =
      renderElement setup lexical' e' t n scope taken := by
  have hsame : lexical e t n.children scope = lexical' e' t n.children scope :=
    h.children scope fun _ => rfl
  unfold renderElement
  cases hd : Directive.ofTag? n.tag with
  | none => simp only [Node.renderPlain, hsame]
  | some d =>
    refine congrArg (Node.mark setup d <$> ·) ?_
    cases d with
    | ifBranch | elifBranch | elseBranch =>
      change (if taken = true then _ else _) = (if taken = true then _ else _)
      rw [hsame]
    | loop =>
      refine eq_of_agree ((agree_eq _).bind_of_gives (Node.gives_loopScopes_hands (x := x) hd) ?_)
      intro scopes hscopes
      refine Node.agree_renderIn fun inner hinner => ?_
      rw [h.children inner (hscopes inner hinner)]
      exact agree_eq _
    | binding =>
      change Node.renderBinding _ _ _ _ = Node.renderBinding _ _ _ _
      unfold Node.renderBinding
      split
      · rfl
      · refine eq_of_agree ((agree_eq _).bind_of_gives
          (Node.gives_evaluateAll_hands (x := x) hd) fun vars hvars => ?_)
        rw [h.children _ hvars]
        exact agree_eq _
    | tree => exact absurd hd htree
    | children => exact absurd hd hchildren
    | inclusion => exact renderInclusion_congr h.fills h.file
    | hole =>
      have hfill : (e.fills.bind fun fills => fills.get? (slotName n)) =
          e'.fills.bind fun fills => fills.get? (slotName n) := h.hole hd
      change renderHole _ _ _ _ _ = renderHole _ _ _ _ _
      rw [renderHole, renderHole, hfill, hsame]
    | fill => rfl
    | html => exact h.children _ fun _ => rfl

end Lexical

end HtmlTemplate
