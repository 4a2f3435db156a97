import Mathlib.Data.Option.Basic
import HtmlTemplate.Proofs.Expr.Context
import HtmlTemplate.Proofs.Expr.Parts
import HtmlTemplate.Proofs.Markup.Forest
import HtmlTemplate.Proofs.Render.Expansions
import HtmlTemplate.Proofs.Render.Outcome

/-!
Rendering ends.

Without inclusions, only t-children goes back to nodes that stand around it, and what gets smaller
then is the item of the tree. So rendering ends if the variable of the item still has it, or a part
of it, wherever t-children looks at it. If it has something else there, rendering may go on forever.
-/

namespace HtmlTemplate

/-- Variables that are known to have the item of the tree around, a part of it, or a value without
parts. -/
abbrev Known := Text → Bool

namespace Known

def none : Known := fun _ => false

/-- All that is known when the body of a tree begins. -/
def item (x : Text) : Known := fun y => y == x

/-- Whether an expression is known to have such a value. -/
def partOf (known : Known) (source : Text) : Bool :=
  match Expr.parse (Text.trim source) with
  | .ok e => e.isPart known
  | .error _ => true

/-- What is known inside a binding. -/
def inBinding (known : Known) (attributes : Attributes) : Known := fun x =>
  match attributes.get? x with
  | some source => known.partOf source
  | Option.none => known x

/-- Whether the values that a loop binds are parts of what is known. -/
def loopsOverPart (known : Known) (l : LoopHead) : Bool :=
  match l.data with
  | .range .. => l.kind = .values
  | .expression source => known.partOf source

/-- What is known inside a loop. Keys have no parts. -/
def inLoop (known : Known) (l : LoopHead) : Known := fun x =>
  if l.key = some x then true else if l.value = x then known.loopsOverPart l else known x

end Known

namespace Node

mutual

/-- Whether each t-children finds the item of its tree, or a part of it, in the variable for the
items. The variable of the tree around is `item`, if there is one. -/
def descends (item : Option Text) (known : Known) : Node → Bool
  | .leaf .. => true
  | .element head _ children =>
    match Directive.ofTag? head.tag with
    | some .children => item.all known
    | some .tree =>
      match (head.attributes.get? "on").bind TreeHead.parse? with
      | some b => descendsAll (some b.item) (.item b.item) children
      | none => true
    | some .loop =>
      match (head.attributes.get? "on").bind LoopHead.parse? with
      | some l => descendsAll item (known.inLoop l) children
      | none => true
    | some .binding => descendsAll item (known.inBinding head.attributes) children
    | _ => descendsAll item known children

def descendsAll (item : Option Text) (known : Known) : List Node → Bool
  | [] => true
  | n :: ns => descends item known n && descendsAll item known ns

end

end Node

/-- No known variable has a value deeper than `k`. -/
def Context.Bounds (c : Context) (known : Known) (k : Nat) : Prop :=
  ∀ x v, known x = true → c.get? x = some v → v.height ≤ k

/-! ### What binders bind -/

section Bounds

variable {c : Context} {known : Known} {k : Nat}

lemma Context.get?_extend_self (c : Context) (x : Text) (v : Json) :
    (c.extend [(x, v)]).get? x = some v := by
  rw [Context.get?_extend, Record.get?_cons, if_pos rfl, Option.some_or]

lemma Context.get?_extend_of_ne (c : Context) {x y : Text} (hne : y ≠ x) (v : Json) :
    (c.extend [(x, v)]).get? y = c.get? y := by
  rw [Context.get?_extend, Record.get?_cons, if_neg hne]
  rfl

lemma height_valueOf?_le (hc : c.Bounds known k) {source : Text} {v : Json}
    (hsource : known.partOf source = true) (hv : valueOf? c source = some v) : v.height ≤ k := by
  unfold valueOf? at hv
  unfold Known.partOf at hsource
  cases he : Expr.parse (Text.trim source) with
  | error e =>
    rw [he] at hv
    cases hv
  | ok e =>
    rw [he] at hv hsource
    dsimp only at hv hsource
    rw [Expr.eval] at hv
    cases hr : Expr.reach c e with
    | error e =>
      rw [hr] at hv
      cases hv
    | ok r =>
      rw [hr] at hv
      cases hv
      exact Expr.height_reach_le hc e r hsource hr

lemma get?_valuesOf? {attributes : Attributes} {vars : Record Json}
    (h : valuesOf? c attributes = some vars) (x : Text) :
    (attributes.get? x).map (valueOf? c) = (vars.get? x).map some := by
  induction attributes generalizing vars with
  | nil =>
    cases h
    rfl
  | cons a attributes ih =>
    obtain ⟨name, source⟩ := a
    rw [valuesOf?, Option.bind_eq_bind, Option.bind_eq_some_iff] at h
    obtain ⟨v, hv, h⟩ := h
    obtain ⟨rest, hrest, h⟩ := Option.bind_eq_some_iff.1 h
    cases h
    rw [Record.get?_cons, Record.get?_cons]
    dsimp only
    split
    · exact congrArg some hv
    · exact ih hrest

lemma Context.Bounds.inBinding (hc : c.Bounds known k) {attributes : Attributes}
    {vars : Record Json} (h : valuesOf? c attributes = some vars) :
    (c.extend vars).Bounds (known.inBinding attributes) k := by
  intro x v hx hv
  have hvars := get?_valuesOf? h x
  rw [Context.get?_extend] at hv
  unfold Known.inBinding at hx
  cases hsource : Record.get? attributes x with
  | none =>
    rw [hsource] at hx hvars
    rw [Option.map_eq_none_iff.1 hvars.symm, Option.none_or] at hv
    exact hc x v hx hv
  | some source =>
    rw [hsource] at hx hvars
    obtain ⟨w, hw, hvalue⟩ := Option.map_eq_some_iff.1 hvars.symm
    rw [hw, Option.some_or] at hv
    cases hv
    exact height_valueOf?_le hc hx hvalue.symm

/-- Items of a container lie below it, and their keys have no parts. -/
structure LoopItem.Below (item : LoopItem) (k : Nat) : Prop where
  key : item.key.height = 0
  value : item.value.height < k

lemma below_itemsOf? {kind : LoopOver} {step : Nat} {v : Json} {items : List LoopItem}
    (h : itemsOf? kind step v = some items) {item : LoopItem} (hitem : item ∈ items) :
    item.Below v.height := by
  cases v with
  | array vs =>
    cases kind with
    | values =>
      cases h
      obtain ⟨p, hp, rfl⟩ := List.mem_map.1 hitem
      have hmem := List.mem_of_mem_filter hp
      exact ⟨rfl, Json.height_lt_array (List.fst_mem_of_mem_zipIdx hmem)⟩
    | keys =>
      cases h
      obtain ⟨p, hp, rfl⟩ := List.mem_map.1 hitem
      exact ⟨rfl, Json.height_lt_array (List.fst_mem_of_mem_zipIdx hp)⟩
  | object ms =>
    cases kind with
    | values => cases h
    | keys =>
      cases h
      obtain ⟨m, hm, rfl⟩ := List.mem_map.1 hitem
      exact ⟨rfl, Json.height_lt_object hm⟩
  | _ => cases h

/-- Items are numbers, or they lie below the value that the loop runs over. -/
lemma below_loopItems {l : LoopHead} {step : Nat} {item : LoopItem}
    (hitem : item ∈ loopItems c l step) :
    (∃ first last, l.data = .range first last ∧ item.key.height = 0 ∧ item.value.height = 0) ∨
    ∃ source v, l.data = .expression source ∧ valueOf? c source = some v ∧ item.Below v.height := by
  unfold loopItems at hitem
  split at hitem
  · rename_i first last hdata
    obtain ⟨i, -, rfl⟩ := List.mem_map.1 hitem
    exact .inl ⟨first, last, hdata, rfl, rfl⟩
  · rename_i source hdata
    cases hfound : (valueOf? c source).bind (itemsOf? l.kind step) with
    | none =>
      rw [hfound] at hitem
      cases hitem
    | some items =>
      rw [hfound] at hitem
      obtain ⟨v, hv, hitems⟩ := Option.bind_eq_some_iff.1 hfound
      exact .inr ⟨source, v, hdata, hv, below_itemsOf? hitems hitem⟩

lemma height_key_loopItems {l : LoopHead} {step : Nat} {item : LoopItem}
    (hitem : item ∈ loopItems c l step) : item.key.height = 0 := by
  rcases below_loopItems hitem with ⟨_, _, -, hkey, -⟩ | ⟨_, _, -, -, hbelow⟩
  · exact hkey
  · exact hbelow.key

/-- What a loop over a part binds to its variable lies no deeper; an object around it, neither. -/
lemma height_value_loopItems (hc : c.Bounds known k) {l : LoopHead} {step : Nat} {item : LoopItem}
    (hitem : item ∈ loopItems c l step) (hpart : known.loopsOverPart l = true) :
    item.value.height ≤ k ∧ (l.kind = .keys → item.value.height < k) := by
  unfold Known.loopsOverPart at hpart
  rcases below_loopItems hitem with ⟨_, _, hdata, -, hvalue⟩ | ⟨source, v, hdata, hv, hbelow⟩
  · rw [hdata, decide_eq_true_eq] at hpart
    refine ⟨by omega, fun hkeys => ?_⟩
    rw [hpart] at hkeys
    cases hkeys
  · rw [hdata] at hpart
    have hlt := hbelow.value
    have hle := height_valueOf?_le hc hpart hv
    exact ⟨by omega, fun _ => by omega⟩

/-- What a loop binds to its variable. -/
def LoopItem.bound (l : LoopHead) (item : LoopItem) : Json :=
  if l.kind = .keys ∧ l.key = none then .object [("key", item.key), ("value", item.value)]
  else item.value

lemma LoopItem.get?_bindings (l : LoopHead) (item : LoopItem) (x : Text) :
    Record.get? (item.bindings l) x =
      if l.key = some x then some item.key
      else if l.value = x then some (item.bound l) else none := by
  obtain ⟨value, key, kind, data⟩ := l
  cases key with
  | none =>
    have hsingle : ∀ v : Json, Record.get? [(value, v)] x = if value = x then some v else none := by
      intro v
      rw [Record.get?_cons]
      simp only [eq_comm]
      rfl
    cases kind with
    | keys => exact hsingle _
    | values => exact hsingle _
  | some key =>
    have hset : Record.get? (Record.set [(value, item.value)] key item.key) x =
        if some key = some x then some item.key
        else if value = x then some item.value else none := by
      rw [Record.get?_set, Record.get?_cons]
      simp only [Option.some.injEq, eq_comm]
      rfl
    cases kind with
    | keys => exact hset
    | values => exact hset

lemma Context.Bounds.inLoop (hc : c.Bounds known k) {l : LoopHead} {step : Nat} {item : LoopItem}
    (hitem : item ∈ loopItems c l step) :
    (c.extend (item.bindings l)).Bounds (known.inLoop l) k := by
  intro x v hx hv
  rw [Context.get?_extend, LoopItem.get?_bindings] at hv
  unfold Known.inLoop at hx
  by_cases hxkey : l.key = some x
  · rw [if_pos hxkey] at hv
    cases hv
    rw [height_key_loopItems hitem]
    exact Nat.zero_le k
  · rw [if_neg hxkey] at hx hv
    by_cases hxvalue : l.value = x
    · rw [if_pos hxvalue] at hx hv
      obtain ⟨hle, hlt⟩ := height_value_loopItems hc hitem hx
      cases hv
      unfold LoopItem.bound
      split
      · rename_i hkeys
        have hkey := height_key_loopItems hitem
        have hvalue := hlt hkeys.1
        rw [Json.height_object, Json.heightMembers, Json.heightMembers, Json.heightMembers]
        omega
      · exact hle
    · rw [if_neg hxvalue] at hx hv
      exact hc x v hx hv

end Bounds

/-! ### Depths that are enough -/

/-- A rendering that is over only stops by failing. -/
def Stop.IsFailure : Stop → Prop
  | .failed _ => True
  | _ => False

lemma closed_isFailure : Stop.Closed Stop.IsFailure :=
  ⟨⟨⟨fun h => h.elim⟩, fun _ => trivial⟩, fun _ _ => trivial⟩

/-- Some depth is enough for what takes a depth, and so are all greater ones. -/
def Enough (p : Nat → Prop) : Prop := ∃ least, ∀ depth, least ≤ depth → p depth

lemma enough_of_forall {p : Nat → Prop} (h : ∀ depth, p depth) : Enough p := ⟨0, fun _ _ => h _⟩

lemma Enough.mono {p q : Nat → Prop} (h : Enough p) (hpq : ∀ depth, p depth → q depth) :
    Enough q := by
  obtain ⟨least, hleast⟩ := h
  exact ⟨least, fun depth hdepth => hpq depth (hleast depth hdepth)⟩

/-- One depth is enough for finitely many things. -/
lemma enough_forall_mem {α : Type} {p : α → Nat → Prop} {as : List α}
    (h : ∀ a ∈ as, Enough (p a)) : Enough fun depth => ∀ a ∈ as, p a depth := by
  induction as with
  | nil => exact enough_of_forall fun _ _ ha => absurd ha List.not_mem_nil
  | cons a as ih =>
    obtain ⟨m, hm⟩ := h a List.mem_cons_self
    obtain ⟨n, hn⟩ := ih fun b hb => h b (List.mem_cons_of_mem a hb)
    refine ⟨max m n, fun depth hdepth b hb => ?_⟩
    rcases List.mem_cons.1 hb with rfl | hb
    · exact hm depth (Nat.le_trans (Nat.le_max_left m n) hdepth)
    · exact hn depth (Nat.le_trans (Nat.le_max_right m n) hdepth) b hb

/-- One depth is enough for what a value is made of. -/
lemma enough_forall_eq {α β : Type} {f : α → β} (hf : Function.Injective f) {b : β}
    {p : α → Nat → Prop} (h : ∀ a, b = f a → Enough (p a)) :
    Enough fun depth => ∀ a, b = f a → p a depth := by
  by_cases hex : ∃ a, b = f a
  · obtain ⟨a, rfl⟩ := hex
    refine (h a rfl).mono fun depth hdepth a' ha => ?_
    rw [← hf ha]
    exact hdepth
  · exact enough_of_forall fun _ a ha => absurd ⟨a, ha⟩ hex

lemma injective_array : Function.Injective Json.array := fun _ _ => Json.array.inj

/-- Rendering nodes in a context ends: some depth is enough, whatever else is set up. -/
def Ends (e : Surroundings) (t : Template) (ns : List Node) (c : Context) : Prop :=
  Enough fun depth => ∀ setup scope, scope.context = c →
    Yields Stop.IsFailure (Lexical.walk setup unwatched depth e t ns scope) fun _ => True

/-- Rendering an element ends. -/
def EndsAt (e : Surroundings) (t : Template) (n : Node) (c : Context) : Prop :=
  Enough fun depth => ∀ setup scope taken, scope.context = c →
    Yields Stop.IsFailure
      (Lexical.renderElement setup (Lexical.walk setup unwatched depth) e t n scope taken)
      fun _ => True

section Ends

variable {e : Surroundings} {t : Template} {ns : List Node} {n : Node} {c : Context}

lemma ends_of_elements (h : ∀ n ∈ ns, n.isElement → EndsAt e t n c) : Ends e t ns c := by
  have hall : Enough fun depth => ∀ n ∈ ns, n.isElement → ∀ setup scope taken, scope.context = c →
      Yields Stop.IsFailure
        (Lexical.renderElement setup (Lexical.walk setup unwatched depth) e t n scope taken)
        fun _ => True := by
    refine enough_forall_mem fun n hn => ?_
    by_cases helement : n.isElement
    · exact (h n hn helement).mono fun _ hdepth _ => hdepth
    · exact enough_of_forall fun _ hn => absurd hn helement
  obtain ⟨least, hleast⟩ := hall
  -- the list itself takes one level of the depth
  refine ⟨least + 1, fun depth hdepth setup scope hscope => ?_⟩
  obtain ⟨depth, rfl⟩ : ∃ d, depth = d + 1 := ⟨depth - 1, by omega⟩
  refine Node.yields_siblingsBy closed_isFailure (fun _ _ => yields_pure trivial) ?_
  exact fun n hn helement taken => hleast depth (by omega) n hn helement setup scope taken hscope

/-- Where the element is a directive, and is rendered by the rule for it. -/
lemma endsAt_directive {d : Directive} (hd : Directive.ofTag? n.tag = some d)
    (h : Enough fun depth => ∀ setup scope taken, scope.context = c →
      Yields Stop.IsFailure
        (Lexical.renderDirective setup (Lexical.walk setup unwatched depth) e t n scope taken d)
        fun _ => True) : EndsAt e t n c := by
  refine h.mono fun depth hdepth setup scope taken hscope => ?_
  rw [Lexical.renderElement, hd]
  exact (hdepth setup scope taken hscope).map fun _ _ => trivial

lemma endsAt_plain (hd : Directive.ofTag? n.tag = none) (h : Ends e t n.children c) :
    EndsAt e t n c := by
  refine h.mono fun depth hdepth setup scope taken hscope => ?_
  rw [Lexical.renderElement, hd]
  exact Node.yields_renderPlain closed_isFailure.toRaisable (hdepth setup scope hscope)

lemma endsAt_loop (hd : Directive.ofTag? n.tag = some .loop)
    (h : ∀ l step, n.LoopsOver l step → ∀ item ∈ loopItems c l step,
      Ends e t n.children (c.extend (item.bindings l))) : EndsAt e t n c := by
  apply endsAt_directive hd
  rcases n.loopsOver_or with ⟨l, step, hloop⟩ | ⟨failure, hfails⟩
  · refine (enough_forall_mem (h l step hloop)).mono fun depth hdepth setup scope _ hscope => ?_
    subst hscope
    exact Node.yields_renderLoop closed_isFailure.toRaisable hloop fun item hitem =>
      hdepth item hitem setup _ rfl
  · exact enough_of_forall fun depth setup scope _ _ =>
      Node.yields_renderLoop_of_throw closed_isFailure.toRaisable (hfails scope)

lemma endsAt_binding (hd : Directive.ofTag? n.tag = some .binding)
    (h : ∀ vars, valuesOf? c n.attributes = some vars → Ends e t n.children (c.extend vars)) :
    EndsAt e t n c := by
  apply endsAt_directive hd
  have hall := enough_forall_eq (Option.some_injective _) h
  refine hall.mono fun depth hdepth setup scope _ hscope => ?_
  subst hscope
  exact Node.yields_renderBinding closed_isFailure.toRaisable fun vars hvars =>
    hdepth vars hvars setup _ rfl

lemma endsAt_tree (hd : Directive.ofTag? n.tag = some .tree)
    (h : ∀ b, (n.attributes.get? "on").bind TreeHead.parse? = some b → ∀ items,
      valueOf? c b.data = some (.array items) → ∀ v ∈ items,
      Ends (e.inTree ⟨t, n.children, b.item⟩) t n.children (c.extend [(b.item, v)])) :
    EndsAt e t n c := by
  apply endsAt_directive hd
  have hitems := fun b hb => enough_forall_eq
    ((Option.some_injective _).comp injective_array)
    fun items hitems => enough_forall_mem (h b hb items hitems)
  have hall := enough_forall_eq (Option.some_injective _) hitems
  refine hall.mono fun depth hdepth setup scope _ hscope => ?_
  subst hscope
  exact Lexical.yields_renderTree closed_isFailure.toRaisable fun b items hb hitems id v hv =>
    hdepth b hb items hitems v hv setup _ rfl

lemma endsAt_children (hd : Directive.ofTag? n.tag = some .children)
    (h : ∀ f, e.tree = some f → ∀ items,
      Node.itemField c f.item ((n.attributes.get? "field").getD "children") = .array items →
      ∀ v ∈ items, Ends e f.template f.body (c.extend [(f.item, v)])) : EndsAt e t n c := by
  apply endsAt_directive hd
  have hitems := fun f hf => enough_forall_eq injective_array
    fun items hitems => enough_forall_mem (h f hf items hitems)
  have hall := enough_forall_eq (Option.some_injective _) hitems
  refine hall.mono fun depth hdepth setup scope _ hscope => ?_
  subst hscope
  exact Lexical.yields_renderChildren closed_isFailure.toRaisable fun f items hf hitems v hv =>
    hdepth f hf items hitems v hv setup _ rfl

end Ends

/-! ### Descending -/

/-- No known variable has a value deeper than `k`, and rendering the body of the tree around once
more ends if the item lies less deep. -/
structure Descent (e : Surroundings) (item : Option Text) (known : Known) (c : Context) (k : Nat) :
    Prop where
  bounds : c.Bounds known k
  tree : e.tree.map (·.item) = item
  body : ∀ f, e.tree = some f → ∀ c' v, c'.get? f.item = some v → v.height < k →
    Ends e f.template f.body c'

namespace Descent

variable {e : Surroundings} {item : Option Text} {known : Known} {c : Context} {k : Nat}

lemma inBinding (h : Descent e item known c k) {attributes : Attributes} {vars : Record Json}
    (hvars : valuesOf? c attributes = some vars) :
    Descent e item (known.inBinding attributes) (c.extend vars) k :=
  ⟨h.bounds.inBinding hvars, h.tree, h.body⟩

lemma inLoop (h : Descent e item known c k) {l : LoopHead} {step : Nat} {x : LoopItem}
    (hx : x ∈ loopItems c l step) :
    Descent e item (known.inLoop l) (c.extend (x.bindings l)) k :=
  ⟨h.bounds.inLoop hx, h.tree, h.body⟩

lemma exists_of_itemField {x field : Text} {items : List Json}
    (h : Node.itemField c x field = .array items) :
    ∃ members, c.get? x = some (.object members) ∧
      Record.get? members field = some (.array items) := by
  unfold Node.itemField at h
  split at h
  · rename_i members hmembers
    refine ⟨members, hmembers, ?_⟩
    cases hfield : Record.get? members field with
    | none =>
      rw [hfield] at h
      cases h
    | some v =>
      rw [hfield] at h
      exact congrArg some h
  · cases h

/-- One level more of the tree around. -/
lemma children (h : Descent e item known c k) (hknown : item.all known = true) {f : Expansion}
    (hf : e.tree = some f) {field : Text} {items : List Json}
    (hitems : Node.itemField c f.item field = .array items) {v : Json} (hv : v ∈ items) :
    Ends e f.template f.body (c.extend [(f.item, v)]) := by
  have hitem : known f.item = true := by
    rw [← h.tree, hf] at hknown
    exact hknown
  obtain ⟨members, hmembers, hfield⟩ := exists_of_itemField hitems
  have hlt : v.height < k := calc
    v.height < (Json.array items).height := Json.height_lt_array hv
    _ < (Json.object members).height := Json.height_lt_object_of_get? hfield
    _ ≤ k := h.bounds f.item _ hitem hmembers
  exact h.body f hf _ v (c.get?_extend_self f.item v) hlt

end Descent

/-- The item gets smaller with each level, so rendering the body of a tree ends if it descends. -/
lemma ends_inTree {e : Surroundings} {t : Template} {body : List Node} {item : Text}
    (h : ∀ c k, Descent (e.inTree ⟨t, body, item⟩) (some item) (.item item) c k →
      Ends (e.inTree ⟨t, body, item⟩) t body c) (k : Nat) :
    ∀ c v, c.get? item = some v → v.height < k → Ends (e.inTree ⟨t, body, item⟩) t body c := by
  induction k with
  | zero => exact fun c v _ hv => absurd hv (Nat.not_lt_zero _)
  | succ k ih =>
    intro c v hget hv
    -- the item may be as deep as `k` now, and wherever the body comes again it is less deep
    refine h c k ⟨fun x w hx hw => ?_, rfl, fun f hf c' w hw hlt => ?_⟩
    · obtain rfl : x = item := by simpa [Known.item] using hx
      rw [hget] at hw
      cases hw
      exact Nat.le_of_lt_succ hv
    · obtain rfl := Option.some.inj hf
      exact ih c' w hw hlt

/-- An element that descends, if its children do wherever they stand. -/
lemma endsAt_of_descends {head : Opening} {closed : Bool} {children : List Node}
    (ih : ∀ e t item known c k, Node.descendsAll item known children = true →
      Descent e item known c k → Ends e t children c)
    (hinclusion : Directive.ofTag? head.tag ≠ some .inclusion) {e : Surroundings} {t : Template}
    {item : Option Text} {known : Known} {c : Context} {k : Nat}
    (hdescends : Node.descends item known (.element head closed children) = true)
    (h : Descent e item known c k) : EndsAt e t (.element head closed children) c := by
  rw [Node.descends] at hdescends
  cases hd : Directive.ofTag? head.tag with
  | none =>
    rw [hd] at hdescends
    exact endsAt_plain hd (ih _ _ _ _ _ _ hdescends h)
  | some d =>
    rw [hd] at hdescends
    cases d with
    | ifBranch | elifBranch | elseBranch =>
      refine endsAt_directive hd ((ih _ t _ _ _ _ hdescends h).mono ?_)
      exact fun depth hdepth setup scope _ hscope =>
        Node.yields_renderBranch (hdepth setup scope hscope)
    | loop =>
      refine endsAt_loop hd fun l step hloop x hx => ?_
      have hhead : (head.attributes.get? "on").bind LoopHead.parse? = some l := hloop.head
      rw [hhead] at hdescends
      exact ih _ _ _ _ _ _ hdescends (h.inLoop hx)
    | binding =>
      refine endsAt_binding hd fun vars hvars => ?_
      exact ih _ _ _ _ _ _ hdescends (h.inBinding hvars)
    | tree =>
      refine endsAt_tree hd fun b hb items _ v hv => ?_
      have hhead : (head.attributes.get? "on").bind TreeHead.parse? = some b := hb
      rw [hhead] at hdescends
      -- only here something is known of the item, so any bound for this one will do
      have hbody := fun c k => ih (e.inTree ⟨t, children, b.item⟩) t _ _ c k hdescends
      exact ends_inTree hbody (v.height + 1) _ v (c.get?_extend_self b.item v)
        (Nat.lt_succ_self v.height)
    | children =>
      exact endsAt_children hd fun f hf items hitems v hv => h.children hdescends hf hitems hv
    | inclusion => exact absurd hd hinclusion
    | hole =>
      refine endsAt_directive hd ((ih _ t _ _ _ _ hdescends h).mono ?_)
      exact fun depth hdepth setup scope _ hscope =>
        Lexical.yields_renderHole (hdepth setup scope hscope)
    | fill =>
      refine endsAt_directive hd (enough_of_forall fun _ _ _ _ _ => ?_)
      exact yields_misuse closed_isFailure.toRaisable _ _
    | html =>
      refine endsAt_directive hd ((ih _ t _ _ _ _ hdescends h).mono ?_)
      exact fun depth hdepth setup scope _ hscope => hdepth setup { scope with raw := true } hscope

/-- **Descending ends.** -/
lemma ends_of_descends {ns : List Node}
    (hinclusion : ∀ m ∈ Node.nodesAll ns, Directive.ofTag? m.tag ≠ some .inclusion) :
    ∀ e t item known c k, Node.descendsAll item known ns = true → Descent e item known c k →
      Ends e t ns c := by
  suffices helements : ∀ e t item known c k, Node.descendsAll item known ns = true →
      Descent e item known c k → ∀ n ∈ ns, n.isElement → EndsAt e t n c from
    fun e t item known c k hdescends h =>
      ends_of_elements (helements e t item known c k hdescends h)
  induction ns using Node.forest_induction with
  | nil => exact fun _ _ _ _ _ _ _ _ n hn => absurd hn List.not_mem_nil
  | leaf kind raw line ns ih =>
    intro e t item known c k hdescends h n hn helement
    rw [Node.descendsAll, Bool.and_eq_true] at hdescends
    rw [Node.nodesAll_leaf, List.forall_mem_cons] at hinclusion
    rcases List.mem_cons.1 hn with rfl | hn
    · cases helement
    · exact ih hinclusion.2 e t item known c k hdescends.2 h n hn helement
  | element head closed children ns ihchildren ih =>
    intro e t item known c k hdescends h n hn helement
    rw [Node.descendsAll, Bool.and_eq_true] at hdescends
    rw [Node.nodesAll_element, List.forall_mem_cons, List.forall_mem_append] at hinclusion
    rcases List.mem_cons.1 hn with rfl | hn
    · refine endsAt_of_descends ?_ hinclusion.1 hdescends.1 h
      exact fun e t item known c k hdescends h =>
        ends_of_elements (ihchildren hinclusion.2.1 e t item known c k hdescends h)
    · exact ih hinclusion.2.2 e t item known c k hdescends.2 h n hn helement

/-- Rendering a template in a context ends: at some depth and any greater one there is an output or
an error, however rendering is set up and whatever is remembered. -/
def Template.RenderingEnds (t : Template) (c : Context) : Prop :=
  ∃ least, ∀ depth, least ≤ depth → ∀ setup s, s.trees.Reachable → s.memo.Sound →
    (∃ out, (exec (walk setup depth t t.nodes (.ofContext c)) s).1 = .ok out) ∨
    ∃ e, (exec (walk setup depth t t.nodes (.ofContext c)) s).1 = .error (.failed e)

/-- **Rendering ends.** Without inclusions, rendering ends if each t-children finds the item of its
tree, or a part of it, in the variable of the tree. -/
theorem walk_ends (t : Template) (c : Context)
    (hinclusion : ∀ m ∈ Node.nodesAll t.nodes, Directive.ofTag? m.tag ≠ some .inclusion)
    (hdescends : Node.descendsAll none .none t.nodes = true) : t.RenderingEnds c := by
  have hdescent : Descent .outermost none .none c 0 :=
    ⟨fun _ _ hx => absurd hx Bool.false_ne_true, rfl, fun _ hf => nomatch hf⟩
  obtain ⟨least, hleast⟩ := ends_of_descends hinclusion _ t _ _ _ _ hdescends hdescent
  refine ⟨least, fun depth hdepth setup s hs hmemo => ?_⟩
  have hlexical := Lexical.follows_walk setup silent_unwatched depth .outermost t t.nodes
    (.ofContext c) s.trees hs.orderly (Surroundings.live_ofContext c s.trees)
  rw [(exec_eq_of_holding hlexical).1]
  obtain ⟨-, hresult⟩ := hleast depth hdepth setup (.ofContext c) rfl s hmemo
  rcases hr : exec (Lexical.walk setup unwatched depth .outermost t t.nodes (.ofContext c)) s
    with ⟨r, u⟩
  rw [hr] at hresult
  cases r with
  | ok out => exact .inl ⟨out, rfl⟩
  | error stop =>
    cases stop with
    | failed e => exact .inr ⟨e, rfl⟩
    | awaits | tooDeep => exact hresult.elim

/-- A tree whose variable is bound to a part of its item, and goes down a field from there. -/
theorem walk_ends_part :
    let element (tag : Text) (attributes : Attributes) (children : List Node) : Node :=
      .element ⟨tag, attributes, [], 1, false⟩ true children
    let body := [element "t-with" [("y", "x.left")]
      [element "t-for" [("on", "x, i in y.parts")] [element "t-children" [("field", "inner")] []]]]
    let tree := element "t-tree" [("on", "x as x")] body
    let t : Template := ⟨none, [element "t-with" [("x", "a")] [tree]]⟩
    let item (inner : List Json) : Json :=
      .object [("left", .object [("parts", .array [.object [("inner", .array inner)]])])]
    let c : Context := ⟨[[("a", .array [item [item []]])]]⟩
    (∀ m ∈ Node.nodesAll t.nodes, Directive.ofTag? m.tag ≠ some .inclusion) ∧
    Node.descendsAll none .none t.nodes = true ∧ t.RenderingEnds c := by
  intro element body tree t item c
  have hinclusion : ∀ m ∈ Node.nodesAll t.nodes, Directive.ofTag? m.tag ≠ some .inclusion := by
    decide
  have hdescends : Node.descendsAll none .none t.nodes = true := by decide +kernel
  exact ⟨hinclusion, hdescends, walk_ends t c hinclusion hdescends⟩

/-! ### A tree that does not descend -/

section Endless

variable {α β : Type} {x : Render α}

/-- With a sound memo, a computation goes too deep. -/
def Sinks (x : Render α) : Prop := ∀ s, s.memo.Sound → (exec x s).1 = .error .tooDeep

/-- With a sound memo, a computation gives something, and leaves the memo sound. -/
def Gets (x : Render α) (a : α) : Prop :=
  ∀ s, s.memo.Sound → (exec x s).1 = .ok a ∧ (exec x s).2.memo.Sound

lemma gets_evaluate {scope : Scope} {source : Text} {v : Json}
    (h : valueOf? scope.context source = some v) : Gets (scope.evaluate source) v := by
  intro s hs
  obtain ⟨r, m, m', hm, -, hsound, -⟩ := agree_evaluate_memo scope.context source _ _ ⟨hs, hs⟩
  have hvalue := exec_evaluate_fst hs scope.context source
  rw [hm, h] at hvalue
  rw [Scope.evaluate, Render.exec_evaluating, hm]
  cases r with
  | ok w =>
    cases hvalue
    exact ⟨rfl, hsound⟩
  | error e => cases hvalue

lemma Gets.exists_exec_bind {a : α} (hx : Gets x a) {s : Store} (hs : s.memo.Sound)
    (f : α → Render β) : ∃ t, t.memo.Sound ∧ exec (x >>= f) s = exec (f a) t := by
  obtain ⟨hresult, hmemo⟩ := hx s hs
  rcases hrun : exec x s with ⟨r, t⟩
  rw [hrun] at hresult hmemo
  cases hresult
  exact ⟨t, hmemo, by rw [exec_bind, hrun]⟩

lemma Gets.bind {f : α → Render β} {a : α} {b : β} (hx : Gets x a) (hf : Gets (f a) b) :
    Gets (x >>= f) b := by
  intro s hs
  obtain ⟨t, ht, hrun⟩ := hx.exists_exec_bind hs f
  rw [hrun]
  exact hf t ht

lemma Gets.sinks {f : α → Render β} {a : α} (hx : Gets x a) (hf : Sinks (f a)) :
    Sinks (x >>= f) := by
  intro s hs
  obtain ⟨t, ht, hrun⟩ := hx.exists_exec_bind hs f
  rw [hrun]
  exact hf t ht

lemma Sinks.bind (hx : Sinks x) (f : α → Render β) : Sinks (x >>= f) := by
  intro s hs
  have hresult := hx s hs
  rw [exec_bind]
  rcases hrun : exec x s with ⟨r, t⟩
  rw [hrun] at hresult
  cases hresult
  rfl

lemma Sinks.map (hx : Sinks x) (f : α → β) : Sinks (f <$> x) := by
  rw [← bind_pure_comp]
  exact hx.bind _

lemma Sinks.within (hx : Sinks x) (place : Place) : Sinks (Render.within place x) := by
  intro s hs
  rw [Render.exec_within, hx s hs]
  rfl

lemma Sinks.fanOut {f : β → Render α} {b : β} (h : Sinks (f b)) : Sinks (Render.fanOut f [b]) := by
  intro s hs
  have hresult := h s hs
  rw [Render.fanOut, Render.exec_fanOutFrom_cons]
  rcases hrun : exec (f b) s with ⟨r, t⟩
  rw [hrun] at hresult
  cases hresult
  rfl

lemma Sinks.insideTree {f : Expansion} {x : Nat → Render α} (h : ∀ id, Sinks (x id)) :
    Sinks (Render.insideTree f x) := by
  intro s hs
  rw [exec_insideTree]
  exact h _ { s with trees := (s.trees.start f).2 } hs

/-- An element by itself that is no branch. -/
lemma sinks_walk {setup : Setup} {depth : Nat} {e : Surroundings} {t : Template} {head : Opening}
    {closed : Bool} {children : List Node} {scope : Scope}
    (hbranch : decideBranches t scope [.element head closed children] = pure [none])
    (h : Sinks (Lexical.renderElement setup (Lexical.walk setup unwatched depth) e t
      (.element head closed children) scope false)) :
    Sinks (Lexical.walk setup unwatched (depth + 1) e t [.element head closed children] scope) := by
  rw [Lexical.walk, Lexical.renderSiblings, Node.siblingsBy, hbranch, pure_bind]
  exact (Sinks.fanOut (h.within _)).bind _

lemma valueOf?_identifier {c : Context} {source name : Text} {v : Json} {x : Extent}
    (hsource : Expr.parse (Text.trim source) = .ok (.identifier x name))
    (hname : c.get? name = some v) : valueOf? c source = some v := by
  rw [valueOf?, hsource]
  dsimp only
  rw [Expr.eval, Expr.reach, hname]
  rfl

/-- The variable of a tree is bound to something else before the next level. -/
def endlessBody : List Node :=
  [.element ⟨"t-with", [("x", "o")], [], 1, false⟩ true
    [.element ⟨"t-children", [], [], 1, false⟩ true []]]

def endless : Template :=
  ⟨none, [.element ⟨"t-tree", [("on", "a as x")], [], 1, false⟩ true endlessBody]⟩

def endlessItems : List Json := [.number (.integer 0)]

def endlessObject : Json := .object [("children", .array endlessItems)]

def endlessContext : Context := ⟨[[("a", .array endlessItems), ("o", endlessObject)]]⟩

lemma sinks_endlessBody {setup : Setup} {e : Surroundings}
    (he : e.tree = some ⟨endless, endlessBody, "x"⟩) : ∀ (depth : Nat) (scope : Scope),
      scope.context.get? "o" = some endlessObject →
      Sinks (Lexical.walk setup unwatched depth e endless endlessBody scope)
  | 0, scope, _ => fun _ _ => rfl
  | depth + 1, scope, ho => by
    have hvalue : valueOf? scope.context "o" = some endlessObject :=
      valueOf?_identifier (x := ⟨0, 1⟩) (by with_unfolding_all rfl) ho
    have hvars : Gets (Node.evaluateAll scope [("x", "o")]) [("x", endlessObject)] :=
      (gets_evaluate hvalue).bind fun s hs => ⟨rfl, hs⟩
    refine sinks_walk rfl (Sinks.map (hvars.sinks ?_) _)
    match depth with
    | 0 => exact fun _ _ => rfl
    | depth + 1 =>
      have hchildren : ∀ lexical, Lexical.renderDirective setup lexical e endless
          (.element ⟨"t-children", [], [], 1, false⟩ true []) (scope.extend [("x", endlessObject)])
            false .children =
          Lexical.renderItems lexical e ⟨endless, endlessBody, "x"⟩ endlessItems
            (scope.extend [("x", endlessObject)]) := by
        intro lexical
        change Lexical.renderChildren lexical e _ _ = _
        have hitem : (scope.extend [("x", endlessObject)]).context.get? "x" = some endlessObject :=
          scope.context.get?_extend_self "x" endlessObject
        rw [Lexical.renderChildren, he]
        dsimp only
        rw [Node.itemField, hitem]
        rfl
      refine sinks_walk rfl (Sinks.map ?_ _)
      rw [hchildren]
      refine (Sinks.fanOut (sinks_endlessBody he depth _ ?_)).bind _
      have hne : ("o" : Text) ≠ "x" := by decide
      exact (Context.get?_extend_of_ne _ hne _).trans
        ((Context.get?_extend_of_ne _ hne _).trans ho)

lemma sinks_endless {setup : Setup} (depth : Nat) :
    Sinks (Lexical.walk setup unwatched depth .outermost endless endless.nodes
      (.ofContext endlessContext)) := by
  cases depth with
  | zero => exact fun _ _ => rfl
  | succ depth =>
    have hvalue : valueOf? endlessContext "a" = some (.array endlessItems) :=
      valueOf?_identifier (x := ⟨0, 1⟩) (by with_unfolding_all rfl) rfl
    have hread : Node.readBinding "a as x" = pure ⟨"a", "x"⟩ := by with_unfolding_all rfl
    refine sinks_walk rfl (Sinks.map ?_ _)
    change Sinks (pure "a as x" >>= fun on => Node.readBinding on >>= _)
    rw [pure_bind, hread, pure_bind]
    have hitems : Gets (Scope.evaluate (.ofContext endlessContext) "a") (.array endlessItems) :=
      gets_evaluate hvalue
    refine hitems.sinks (Sinks.insideTree fun id => ?_)
    exact (Sinks.fanOut (sinks_endlessBody rfl depth _ rfl)).bind _

end Endless

/-- **Rendering may go on forever.** If something else is in the variable of a tree, no depth is
enough, though nothing is included. -/
theorem walk_endless :
    Context.ofJson? (.object [("a", .array endlessItems), ("o", endlessObject)]) =
      some endlessContext ∧
    (∀ m ∈ Node.nodesAll endless.nodes, Directive.ofTag? m.tag ≠ some .inclusion) ∧
    (∀ depth setup s, s.trees.Reachable → s.memo.Sound →
      (exec (walk setup depth endless endless.nodes (.ofContext endlessContext)) s).1 =
        .error .tooDeep) ∧
    ¬endless.RenderingEnds endlessContext := by
  have hdeep (depth : Nat) (setup : Setup) (s : Store) (hs : s.trees.Reachable)
      (hmemo : s.memo.Sound) :
      (exec (walk setup depth endless endless.nodes (.ofContext endlessContext)) s).1 =
        .error .tooDeep := by
    have hlexical := Lexical.follows_walk setup silent_unwatched depth .outermost endless
      endless.nodes (.ofContext endlessContext) s.trees hs.orderly
      (Surroundings.live_ofContext _ s.trees)
    rw [(exec_eq_of_holding hlexical).1]
    exact sinks_endless depth s hmemo
  refine ⟨rfl, by decide, hdeep, fun ⟨least, hleast⟩ => ?_⟩
  let s : Store := ⟨.empty 0, .empty, .empty, []⟩
  have hmemo : s.memo.Sound := Memo.sound_empty 0
  let setup : Setup := ⟨Library.empty.loader, false, false⟩
  have hresult := hleast least (Nat.le_refl least) setup s .empty hmemo
  rw [hdeep least setup s .empty hmemo] at hresult
  rcases hresult with ⟨_, hout⟩ | ⟨_, he⟩
  · cases hout
  · cases he

end HtmlTemplate
