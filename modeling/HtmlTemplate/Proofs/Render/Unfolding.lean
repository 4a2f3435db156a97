import Mathlib.Logic.Function.Iterate
import HtmlTemplate.Proofs.Render.Loops

/-!
Trees as recursion over their data.

The renderer finds the body that a t-children element repeats by the number of the tree around, and
its items by the variable of that tree. Here a t-children element stands for something that is given
from outside, which differs from item to item, and a tree is a recursion: an item is rendered with
its children standing for what the same tree gives for one of the item's fields. Nothing is looked
up, so as long as no binder in a tree takes its variable, a tree goes as deep as its data only.
-/

namespace HtmlTemplate

/-! ### Fields of items -/

namespace Json

/-- A field of an item; `null` if there is none, and for all that is no object. -/
def field (v : Json) (name : Text) : Json :=
  match v with
  | object members => (Record.get? members name).getD null
  | _ => null

/-- A value is a part of another one, at whatever depth. -/
inductive Inside : Json → Json → Prop
  | item {v : Json} {items : List Json} : v ∈ items → Inside v (array items)
  | member {name : Text} {v : Json} {members : List (Text × Json)} :
    (name, v) ∈ members → Inside v (object members)
  | trans {u v w : Json} : Inside u v → Inside v w → Inside u w

variable {v w : Json} {name : Text} {items : List Json}

lemma Inside.height_lt (h : w.Inside v) : w.height < v.height := by
  induction h with
  | item h => exact height_lt_array h
  | member h => exact height_lt_object h
  | trans _ _ ih ih' => exact Nat.lt_trans ih ih'

lemma inside_of_field (h : v.field name = array items) : (array items).Inside v := by
  cases v with
  | object members =>
    cases hfound : Record.get? members name with
    | none => simp [field, hfound] at h
    | some found =>
      rw [field, hfound, Option.getD_some] at h
      exact h ▸ .member (Record.mem_of_get? hfound)
  | _ => cases h

end Json

lemma Node.itemField_eq {c : Context} {x : Text} {v : Json} (h : c.get? x = some v) (name : Text) :
    itemField c x name = v.field name := by
  rw [itemField, h]
  cases v <;> rfl

/-! ### Rendering with children that are given -/

/-- What the t-children elements for an item stand for, by their field and the scope they are in. -/
abbrev Standing := (depth : Nat) → (field : Text) → Scope → Render Text

/-- What a tree gives for items, in the scope where they are asked for. -/
abbrev Unfolding := (depth : Nat) → List Json → Scope → Render Text

namespace Unfolded

variable (setup : Setup)

/-- An element, of which only the t-children elements of the tree around are known already. Inside
another tree they are that tree's, and in an included file there is no tree around. -/
def renderElement (walk : Option Standing → Surroundings → Walk) (depth : Nat)
    (standing : Option Standing) (e : Surroundings) (t : Template) (n : Node) (scope : Scope)
    (taken : Bool) : Render Text :=
  match Directive.ofTag? n.tag, e.tree, standing with
  | some .children, some _, some stands =>
    stands depth ((n.attributes.get? "field").getD "children") scope
  | some .tree, _, _ => Lexical.renderElement setup (walk none) e t n scope taken
  | _, _, _ => Lexical.renderElement setup (walk standing) e t n scope taken

/-- Renders siblings in their surroundings, with what the children of an item stand for. -/
def walk : (depth : Nat) → Option Standing → Surroundings → Walk
  | 0, _, _, _, _, _ => throw .tooDeep
  | depth + 1, standing, e, t, ns, scope =>
    Node.siblingsBy t scope (fun _ => pure ())
      (fun n => renderElement setup (walk depth) depth standing e t n scope) ns

/-- What the children of an item stand for, if `deeper` is the tree one level further: the tree
for the items of one field. -/
def standsFor (deeper : Unfolding) (v : Json) : Standing := fun depth field scope =>
  match v.field field with
  | .array items => deeper depth items scope
  | w =>
    if w.countsAsTrue then
      Render.misuse .typeMismatch ("t-children field \"" ++ field ++ "\" must be an Array, got " ++
        w.kindName)
    else pure []

/-- One level of a tree: its body for each item, with the variable bound to the item and the
children standing for what is one level further. -/
def level (e : Surroundings) (f : Expansion) (deeper : Unfolding) : Unfolding :=
  fun depth items scope => do
    let parts ← Render.fanOut (fun v => walk setup depth (some (standsFor deeper v)) e f.template
      f.body (scope.extend [(f.item, v)])) items
    return parts.flatten

end Unfolded

/-! ### The recursion over the data -/

namespace Unfolded

variable {setup : Setup} {e around : Surroundings} {t : Template} {n : Node} {ns : List Node}
  {scope : Scope} {f : Expansion} {out : Unfolding} {depth : Nat} {standing : Option Standing}

/-- What stands for t-children elements is what they render: nothing stands for any of them, or
there is no tree around, or they stand for the children of the item that the variable of the tree
has as its value. -/
inductive Fits (around : Surroundings) (x : Text) (out : Unfolding) (standing : Option Standing)
    (e : Surroundings) (ns : List Node) (scope : Scope) : Prop
  | unknown : standing = none → Fits around x out standing e ns scope
  | outside : e.tree = none → Fits around x out standing e ns scope
  | inside {v : Json} : standing = some (standsFor out v) → e = around → Node.Keeps x ns →
    scope.context.get? x = some v → Fits around x out standing e ns scope

/-- So it is inside an element, too. -/
lemma Fits.children {x : Text} (h : Fits around x out standing e ns scope) (hn : n ∈ ns)
    {inner : Scope} (hinner : n.Hands x scope inner) :
    Fits around x out standing e n.children inner := by
  cases h with
  | unknown h => exact .unknown h
  | outside h => exact .outside h
  | inside hstanding he hkeeps hitem =>
    exact .inside hstanding he (hkeeps.children hn) ((hinner (hkeeps.of_mem hn)).trans hitem)

/-- A tree in which nothing binds its variable, and what it gives for items: one level of it, and
then the same again. -/
structure Unfolds (setup : Setup) (around : Surroundings) (f : Expansion) (out : Unfolding) :
    Prop where
  again : level setup around f out = out
  keeps : Node.Keeps f.item f.body
  tree : around.tree = some f

/-- Where it is so, nothing is rendered in another way. -/
def Faithful (setup : Setup) (around : Surroundings) (x : Text) (out : Unfolding) (depth : Nat) :
    Prop :=
  ∀ standing e t ns scope, Fits around x out standing e ns scope →
    walk setup depth standing e t ns scope = Lexical.walk setup unwatched depth e t ns scope

lemma Faithful.walk_none {x : Text} (h : Faithful setup around x out depth) :
    walk setup depth none = Lexical.walk setup unwatched depth :=
  funext fun _ => funext fun _ => funext fun _ => funext fun _ => h _ _ _ _ _ (.unknown rfl)

/-- A tree is what it unfolds to. -/
lemma Faithful.renderItems_eq (h : Faithful setup around f.item out depth)
    (hf : Unfolds setup around f out) (items : List Json) (scope : Scope) :
    Lexical.renderItems (Lexical.walk setup unwatched depth) around f items scope =
      out depth items scope := by
  have hitem : (fun v => walk setup depth (some (standsFor out v)) around f.template f.body
      (scope.extend [(f.item, v)])) = fun v => Lexical.walk setup unwatched depth around f.template
        f.body (scope.extend [(f.item, v)]) :=
    funext fun v => h _ _ _ _ _ (.inside rfl rfl hf.keeps (Context.get?_extend_self _ _ _))
  rw [← hf.again, level, hitem, Lexical.renderItems, Node.renderIn, Render.fanOut_map]
  rfl

lemma Faithful.renderChildren_eq (h : Faithful setup around f.item out depth)
    (hf : Unfolds setup around f out) {v : Json} (hitem : scope.context.get? f.item = some v) :
    Lexical.renderChildren (Lexical.walk setup unwatched depth) around n scope =
      standsFor out v depth ((n.attributes.get? "field").getD "children") scope := by
  rw [Lexical.renderChildren, hf.tree]
  dsimp only
  rw [Node.itemField_eq hitem, standsFor]
  cases v.field ((n.attributes.get? "field").getD "children") with
  | array items => exact h.renderItems_eq hf items scope
  | _ => rfl

/-- Without anything that stands for t-children elements, nothing is known of them. -/
lemma renderElement_none (lexical : Option Standing → Surroundings → Walk) (taken : Bool) :
    renderElement setup lexical depth none e t n scope taken =
      Lexical.renderElement setup (lexical none) e t n scope taken := by
  unfold renderElement
  split <;> simp_all

lemma renderElement_tree (hn : Directive.ofTag? n.tag = some .tree)
    (lexical : Option Standing → Surroundings → Walk) (taken : Bool) :
    renderElement setup lexical depth standing e t n scope taken =
      Lexical.renderElement setup (lexical none) e t n scope taken := by
  unfold renderElement
  rw [hn]

lemma renderElement_other (htree : Directive.ofTag? n.tag ≠ some .tree)
    (hchildren : Directive.ofTag? n.tag ≠ some .children)
    (lexical : Option Standing → Surroundings → Walk) (taken : Bool) :
    renderElement setup lexical depth standing e t n scope taken =
      Lexical.renderElement setup (lexical standing) e t n scope taken := by
  unfold renderElement
  split <;> simp_all

lemma lexical_renderElement_children (hn : Directive.ofTag? n.tag = some .children)
    (lexical : Surroundings → Walk) (taken : Bool) :
    Lexical.renderElement setup lexical e t n scope taken =
      Lexical.renderChildren lexical e n scope := by
  have hmark : Node.mark setup .children = id := by
    funext body
    simp [Node.mark, Directive.isMarked]
  rw [Lexical.renderElement_of_directive hn, hmark, id_map]
  rfl

/-- A t-children element, if what is inside its tree is faithful. -/
lemma Faithful.renderElement_children (h : Faithful setup around f.item out depth)
    (hf : Unfolds setup around f out) (hfits : Fits around f.item out standing e ns scope)
    (hn : Directive.ofTag? n.tag = some .children) (taken : Bool) :
    renderElement setup (walk setup depth) depth standing e t n scope taken =
      Lexical.renderElement setup (Lexical.walk setup unwatched depth) e t n scope taken := by
  rw [lexical_renderElement_children hn]
  cases hfits with
  | unknown hnone =>
    rw [hnone, renderElement_none, h.walk_none, lexical_renderElement_children hn]
  | outside he =>
    unfold renderElement
    rw [hn, he]
    dsimp only
    rw [lexical_renderElement_children hn, Lexical.renderChildren, Lexical.renderChildren, he]
  | inside hstanding he _ hitem =>
    rw [he, h.renderChildren_eq hf hitem]
    unfold renderElement
    rw [hn, hf.tree, hstanding]

/-- Any element, if what is inside it is faithful. -/
lemma Faithful.renderElement_eq (h : Faithful setup around f.item out depth)
    (hf : Unfolds setup around f out) (hfits : Fits around f.item out standing e ns scope)
    (hn : n ∈ ns) (taken : Bool) :
    renderElement setup (walk setup depth) depth standing e t n scope taken =
      Lexical.renderElement setup (Lexical.walk setup unwatched depth) e t n scope taken := by
  by_cases hchildren : Directive.ofTag? n.tag = some .children
  · exact h.renderElement_children hf hfits hchildren taken
  by_cases htree : Directive.ofTag? n.tag = some .tree
  · rw [renderElement_tree htree, h.walk_none]
  rw [renderElement_other htree hchildren]
  have hsame : Lexical.SameInside (walk setup depth standing) (Lexical.walk setup unwatched depth)
      f.item e e t n scope :=
    { children := fun inner hinner => h _ _ _ _ _ (hfits.children hn hinner)
      fills := fun m hm => h _ _ _ _ _ ((hfits.children hn fun _ => rfl).children hm fun _ => rfl)
      file := fun filled => funext fun _ => funext fun _ => funext fun _ =>
        h _ _ _ _ _ (.outside rfl)
      hole := fun _ => rfl }
  exact hsame.renderElement_eq htree hchildren taken

/-- What stands for t-children elements is what they render. The data plays no part here: it is an
induction on the lists of nodes inside each other, as each level is rendered by the one below. -/
lemma Unfolds.faithful (hf : Unfolds setup around f out) (depth : Nat) :
    Faithful setup around f.item out depth := by
  induction depth with
  | zero => exact fun _ _ _ _ _ _ => rfl
  | succ depth ih =>
    intro standing e t ns scope hfits
    refine eq_of_agree (Node.agree_siblingsBy unseen_eq.toBlind (fun _ _ => agree_eq _) ?_)
    intro n hn taken
    rw [ih.renderElement_eq hf hfits hn]
    exact agree_eq _

/-! ### Levels -/

variable {deeper deeper' : Unfolding} {k : Nat}

/-- What the children of an item stand for depends on what is given for its parts only. -/
lemma standsFor_congr {v : Json} (h : ∀ depth parts scope, (Json.array parts).Inside v →
    deeper depth parts scope = deeper' depth parts scope) :
    standsFor deeper v = standsFor deeper' v := by
  funext depth name scope
  unfold standsFor
  cases hfield : v.field name with
  | array parts => exact h depth parts scope (Json.inside_of_field hfield)
  | _ => rfl

/-- Unfoldings that give the same for items that do not go deeper than `k`. -/
def SameUpTo (k : Nat) (deeper deeper' : Unfolding) : Prop :=
  ∀ depth items scope, (Json.array items).height ≤ k →
    deeper depth items scope = deeper' depth items scope

lemma SameUpTo.level (h : SameUpTo k deeper deeper') (setup : Setup) (around : Surroundings)
    (f : Expansion) :
    SameUpTo (k + 1) (level setup around f deeper) (level setup around f deeper') := by
  intro depth items scope hle
  refine eq_of_agree ((Render.agree_fanOut fun v hv => ?_).bind fun _ => agree_eq _)
  have hlt := Json.height_lt_array hv
  have hstands : standsFor deeper v = standsFor deeper' v :=
    standsFor_congr fun depth parts scope hinside => by
      have hheight := hinside.height_lt
      exact h depth parts scope (by omega)
  rw [hstands]
  exact agree_eq _

/-- So many levels are enough, whatever is below them. -/
lemma sameUpTo_iterate (levels : Nat) : ∀ bottom bottom',
    SameUpTo levels ((level setup around f)^[levels] bottom)
      ((level setup around f)^[levels] bottom') := by
  induction levels with
  | zero =>
    intro bottom bottom' depth items scope hle
    rw [Json.height_array] at hle
    omega
  | succ levels ih =>
    intro bottom bottom'
    rw [Function.iterate_succ_apply', Function.iterate_succ_apply']
    exact (ih bottom bottom').level setup around f

/-- A tree as a recursion over its data: as many levels as there are values inside each other. -/
def tree (setup : Setup) (around : Surroundings) (f : Expansion) : Unfolding :=
  fun depth items scope =>
    (level setup around f)^[(Json.array items).height] (fun _ _ _ => throw .tooDeep) depth items
      scope

lemma iterate_eq_tree {levels : Nat} {items : List Json} (h : (Json.array items).height ≤ levels)
    (bottom : Unfolding) (depth : Nat) (scope : Scope) :
    (level setup around f)^[levels] bottom depth items scope =
      tree setup around f depth items scope := by
  obtain ⟨more, rfl⟩ := Nat.exists_eq_add_of_le h
  rw [Function.iterate_add_apply]
  exact sameUpTo_iterate _ _ _ depth items scope (Nat.le_refl _)

/-- A tree is one level of itself. -/
lemma level_tree (setup : Setup) (around : Surroundings) (f : Expansion) :
    level setup around f (tree setup around f) = tree setup around f := by
  funext depth items scope
  have hsame : SameUpTo (Json.heightItems items) (tree setup around f)
      ((level setup around f)^[Json.heightItems items] fun _ _ _ => throw .tooDeep) :=
    fun depth items scope hle => (iterate_eq_tree hle _ depth scope).symm
  rw [hsame.level setup around f depth items scope (Nat.le_of_eq Json.height_array),
    ← Function.iterate_succ_apply' (level setup around f)]
  exact iterate_eq_tree (Nat.le_of_eq Json.height_array) _ depth scope

end Unfolded

/-- A tree is a new expansion of what it unfolds to; the number it gets is not looked at. -/
lemma Lexical.renderTree_eq {setup : Setup} {depth : Nat} {t : Template} {n : Node} {scope : Scope}
    {b : TreeHead} {f : Expansion} {around : Surroundings} {out : Unfolding}
    (hb : (n.attributes.get? "on").bind TreeHead.parse? = some b)
    (htree : f = ⟨t, n.children, b.item⟩)
    (haround : around = ⟨some f, scope.fills⟩) (hf : Unfolded.Unfolds setup around f out) :
    renderTree (Lexical.walk setup unwatched depth) ⟨none, scope.fills⟩ t n
        (scope.inPlace none scope.fills) =
      scope.evaluate b.data >>= fun
        | .array items => Render.insideTree f fun _ => out depth items scope
        | _ => Render.misuse .typeMismatch ("Data must be an Array for t-tree: " ++ b.data) := by
  subst htree haround
  obtain ⟨on, hon, hparse⟩ := Option.bind_eq_some_iff.1 hb
  have hdemand : demand "on" n = pure on := by rw [demand, hon]
  have hread : Node.readBinding on = pure b := by rw [Node.readBinding, hparse]
  rw [renderTree, hdemand, pure_bind, hread, pure_bind]
  refine bind_congr fun v => ?_
  cases v with
  | array items =>
    refine congrArg (Render.insideTree _) (funext fun id => ?_)
    exact (renderItems_inPlace (some id) scope.fills (ignoresPlace_walk setup depth) _ scope _
      items).trans ((hf.faithful depth).renderItems_eq hf items scope)
  | _ => rfl

/-- **A tree unfolds along its data.** If nothing in it binds its variable, then what a tree gives
for an array is the recursion in which its body is rendered for each item, in the scope where the
items are asked for, and a t-children element stands for what the tree gives for a field of the
item. This goes on with parts of the item only, and to no more levels than the data has. -/
theorem renderTree_unfolds (setup : Setup) (depth : Nat) (t : Template) (n : Node) (b : TreeHead)
    (scope : Scope) (items : List Json) (s : Store) (hs : s.trees.Reachable)
    (hmemo : s.memo.Sound) (hb : (n.attributes.get? "on").bind TreeHead.parse? = some b)
    (hkeeps : ∀ m ∈ Node.nodesAll n.children, m.binds b.item = false)
    (hitems : valueOf? scope.context b.data = some (.array items)) :
    let f : Expansion := ⟨t, n.children, b.item⟩
    let around : Surroundings := ⟨some f, scope.fills⟩
    let out := Unfolded.tree setup around f
    (∃ s', exec (scope.evaluate b.data) s = (.ok (.array items), s') ∧
      (exec (Node.renderTree (walk setup depth) t n scope) s).1 =
        (exec (out depth items scope) { s' with trees := (s'.trees.start f).2 }).1) ∧
    Unfolded.level setup around f out = out ∧
    (∀ deeper deeper' v, (∀ depth parts scope,
        (∀ w ∈ parts, Json.Inside w v ∧ w.height < v.height) →
          deeper depth parts scope = deeper' depth parts scope) →
      Unfolded.standsFor deeper v = Unfolded.standsFor deeper' v) ∧
    ∀ bottom levels depth items scope, (Json.array items).height ≤ levels →
      (Unfolded.level setup around f)^[levels] bottom depth items scope =
        out depth items scope := by
  intro f around out
  have hf : Unfolded.Unfolds setup around f out :=
    ⟨Unfolded.level_tree setup around f, hkeeps, rfl⟩
  refine ⟨?_, hf.again, fun deeper deeper' v h => ?_, fun bottom levels depth items scope hle =>
    Unfolded.iterate_eq_tree hle bottom depth scope⟩
  · have hlive : (⟨none, scope.fills⟩ : Surroundings).Live (scope.inPlace none scope.fills)
        s.trees := ⟨rfl, rfl⟩
    have hrun : exec (Node.renderTree (walk setup depth) t n scope) s = _ :=
      (exec_eq_of_holding (Lexical.agree_renderTree (Lexical.follows_walk setup silent_unwatched
        depth) hs.orderly hlive)).1
    obtain ⟨hok, -⟩ := gets_evaluate hitems s hmemo
    rcases heval : exec (scope.evaluate b.data) s with ⟨r, s'⟩
    rw [heval] at hok
    obtain rfl : r = .ok (.array items) := hok
    refine ⟨s', rfl, ?_⟩
    rw [hrun, Lexical.renderTree_eq hb rfl rfl hf, exec_bind, heval]
    rfl
  · refine Unfolded.standsFor_congr fun depth parts scope hparts => h depth parts scope ?_
    intro w hw
    have hinside : w.Inside v := .trans (.item hw) hparts
    exact ⟨hinside, hinside.height_lt⟩

/-- Children in a loop, beside another tree. -/
theorem renderTree_unfolds_nested :
    let element (tag : Text) (attributes : Attributes) (children : List Node) : Node :=
      .element ⟨tag, attributes, [], 1, false⟩ true children
    let n := element "t-tree" [("on", "a as x")]
      [.leaf .text "(" 1, element "t-for" [("on", "i of 1")] [element "t-children" [] []],
        element "t-tree" [("on", "x.tags as y")] [.leaf .text "y" 1], .leaf .text ")" 1]
    let t : Template := ⟨none, [n]⟩
    let item (members : List (Text × Json)) (tags : List Json) : Json :=
      .object (("tags", .array tags) :: members)
    let items := [item [("children", .array [item [] []])] [.null]]
    let scope : Scope := .ofContext ⟨[[("a", .array items)]]⟩
    let setup : Setup := ⟨Library.empty.loader, false, false⟩
    let s : Store := ⟨.empty 0, .empty, .empty, []⟩
    let f : Expansion := ⟨t, n.children, "x"⟩
    s.trees.Reachable ∧ s.memo.Sound ∧
    (n.attributes.get? "on").bind TreeHead.parse? = some ⟨"a", "x"⟩ ∧
    (∀ m ∈ Node.nodesAll n.children, m.binds "x" = false) ∧
    valueOf? scope.context "a" = some (.array items) ∧
    ∃ s' : Store, (exec (Unfolded.tree setup ⟨some f, none⟩ f 9 items scope) s').1.toOption =
      some "(()()y)" := by
  intro element n t item items scope setup s f
  have hb : (n.attributes.get? "on").bind TreeHead.parse? = some ⟨"a", "x"⟩ := by decide +kernel
  have hkeeps : ∀ m ∈ Node.nodesAll n.children, m.binds "x" = false := by decide +kernel
  have hitems : valueOf? scope.context "a" = some (.array items) := by with_unfolding_all rfl
  obtain ⟨⟨s', -, hrun⟩, -⟩ := renderTree_unfolds setup 9 t n ⟨"a", "x"⟩ scope items s .empty
    (Memo.sound_empty 0) hb hkeeps hitems
  have hout : (exec (Node.renderTree (walk setup 9) t n scope) s).1.toOption = some "(()()y)" := by
    decide +kernel
  rw [hrun] at hout
  exact ⟨.empty, Memo.sound_empty 0, hb, hkeeps, hitems, _, hout⟩

end HtmlTemplate
