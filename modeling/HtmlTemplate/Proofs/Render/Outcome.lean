import HtmlTemplate.Proofs.Expr.Memo
import HtmlTemplate.Proofs.Render.Lexical

/-!
What comes of rendering.

A computation gives something of some kind, or stops in one of some ways, and the memo stays sound.
Which ways these are is left open, but failing must be one of them; and the value of an expression
is the one that it has by itself.
-/

namespace HtmlTemplate

/-- The value of an expression in a context, if it has one. -/
def valueOf? (c : Context) (source : Text) : Option Json :=
  match Expr.parse (Text.trim source) with
  | .ok e => (e.eval c).toOption
  | .error _ => none

/-- The variables that the attributes of a binding define, if all expressions have values. -/
def valuesOf? (c : Context) : List (Text × Text) → Option (Record Json)
  | [] => some []
  | (name, source) :: rest => do return (name, ← valueOf? c source) :: (← valuesOf? c rest)

/-- The items that a loop runs over; none if it cannot run. -/
def loopItems (c : Context) (l : LoopHead) (step : Nat) : List LoopItem :=
  match l.data with
  | .range first last => LoopItem.range step first last
  | .expression source => ((valueOf? c source).bind (itemsOf? l.kind step)).getD []

/-- Ways to stop; what waits for several files waits in one of them if it does for each. -/
structure Stop.Additive (stops : Stop → Prop) : Prop where
  append : ∀ {ps qs : List Text}, stops (.awaits ps) → stops (.awaits qs) →
    stops (.awaits (ps ++ qs))

/-- To fail with a fault is among them. -/
structure Stop.Raisable (stops : Stop → Prop) : Prop extends Stop.Additive stops where
  fault : ∀ f, stops (.failed (.ofFault f))

/-- So it is wherever a failure goes. -/
structure Stop.Closed (stops : Stop → Prop) : Prop extends Stop.Raisable stops where
  through : ∀ {e : Failure} (place : Place), stops (.failed e) → stops (.failed (e.through place))

/-- What waits, waits for some file. -/
lemma closed_ne_awaits : Stop.Closed (· ≠ .awaits []) where
  fault _ := nofun
  append {ps qs} hps _ h := by
    obtain ⟨rfl, -⟩ := List.append_eq_nil_iff.1 (Stop.awaits.inj h)
    exact hps rfl
  through _ _ := nofun

section

variable {α β : Type} {stops : Stop → Prop}

/-- A result that is as it should be. -/
def Permits (stops : Stop → Prop) (p : α → Prop) : Except Stop α → Prop
  | .ok a => p a
  | .error stop => stops stop

/-- With a sound memo, a computation gives something with a property, or stops in one of some
ways. The memo stays sound. -/
def Yields (stops : Stop → Prop) (x : Render α) (p : α → Prop) : Prop :=
  ∀ s, s.memo.Sound → (exec x s).2.memo.Sound ∧ Permits stops p (exec x s).1

variable {x : Render α} {p q : α → Prop}

lemma Permits.imp {stops' : Stop → Prop} {r : Except Stop α} (h : Permits stops p r)
    (hstops : ∀ stop, stops stop → stops' stop) (hp : ∀ a, r = .ok a → p a → q a) :
    Permits stops' q r := by
  cases r with
  | ok a => exact hp a rfl h
  | error stop => exact hstops stop h

lemma Yields.mono (h : Yields stops x p) (hpq : ∀ a, p a → q a) : Yields stops x q := by
  intro s hs
  obtain ⟨hmemo, hresult⟩ := h s hs
  exact ⟨hmemo, hresult.imp (fun _ => id) fun a _ => hpq a⟩

lemma Yields.mono_stops {stops' : Stop → Prop} (h : Yields stops x p)
    (hstops : ∀ stop, stops stop → stops' stop) : Yields stops' x p := by
  intro s hs
  obtain ⟨hmemo, hresult⟩ := h s hs
  exact ⟨hmemo, hresult.imp hstops fun _ _ => id⟩

lemma Yields.and_gives (h : Yields stops x p) (hq : Gives x q) :
    Yields stops x fun a => p a ∧ q a := by
  intro s hs
  obtain ⟨hmemo, hresult⟩ := h s hs
  refine ⟨hmemo, hresult.imp (fun _ => id) fun a ha hpa => ⟨hpa, hq s a (exec x s).2 ?_⟩⟩
  rw [← ha]

lemma yields_pure {a : α} (h : p a) : Yields stops (pure a) p := fun _ hs => ⟨hs, h⟩

lemma yields_throw {stop : Stop} (h : stops stop) : Yields stops (throw stop : Render α) p :=
  fun _ hs => ⟨hs, h⟩

lemma Yields.bind {f : α → Render β} {r : β → Prop} (h : Yields stops x p)
    (hf : ∀ a, p a → Yields stops (f a) r) : Yields stops (x >>= f) r := by
  intro s hs
  obtain ⟨hmemo, hresult⟩ := h s hs
  rw [exec_bind]
  rcases hx : exec x s with ⟨_ | a, t⟩
  · rw [hx] at hmemo hresult
    exact ⟨hmemo, hresult⟩
  · rw [hx] at hmemo hresult
    exact hf a hresult t hmemo

lemma Yields.map {r : β → Prop} {f : α → β} (h : Yields stops x p) (hf : ∀ a, p a → r (f a)) :
    Yields stops (f <$> x) r := by
  rw [← bind_pure_comp]
  exact h.bind fun a ha => yields_pure (hf a ha)

lemma Yields.mapM {f : β → Render α} {p : β → α → Prop} {bs : List β}
    (h : ∀ b ∈ bs, Yields stops (f b) (p b)) : Yields stops (bs.mapM f) (List.Forall₂ p bs) := by
  induction bs with
  | nil => exact yields_pure .nil
  | cons b bs ih =>
    rw [List.mapM_cons]
    refine (h b List.mem_cons_self).bind fun a ha => ?_
    refine (ih fun c hc => h c (List.mem_cons_of_mem b hc)).bind fun as has => ?_
    exact yields_pure (.cons ha has)

lemma yields_within (h : Yields stops x p) (hstops : Stop.Closed stops) (place : Place) :
    Yields stops (Render.within place x) p := by
  intro s hs
  obtain ⟨hmemo, hresult⟩ := h s hs
  rw [Render.exec_within]
  refine ⟨hmemo, ?_⟩
  cases hr : (exec x s).1 with
  | ok a =>
    rw [hr] at hresult
    exact hresult
  | error stop =>
    rw [hr] at hresult
    cases stop with
    | failed e => exact hstops.through place hresult
    | awaits | tooDeep => exact hresult

lemma yields_insideTree {f : Expansion} {x : Nat → Render α} (h : ∀ id, Yields stops (x id) p) :
    Yields stops (Render.insideTree f x) p := by
  intro s hs
  rw [exec_insideTree]
  exact h _ { s with trees := (s.trees.start f).2 } hs

/-! ### Parts -/

section Parts

variable (hstops : Stop.Additive stops) {f : β → Render α} {bs : List β}
include hstops

lemma yields_fanOutFrom (hf : ∀ b ∈ bs, Yields stops (f b) fun _ => True) (hasty : Bool) :
    ∀ done waiting, waiting = [] ∨ stops (.awaits waiting) →
      Yields stops (Render.fanOutFrom f hasty done waiting bs) fun _ => True := by
  induction bs with
  | nil =>
    intro done waiting hwaiting
    rw [Render.fanOutFrom]
    split
    · exact yields_pure trivial
    · rename_i hne
      exact yields_throw (hwaiting.resolve_left hne)
  | cons b bs ih =>
    intro done waiting hwaiting s hs
    have ih := ih fun c hc => hf c (List.mem_cons_of_mem b hc)
    have hfirst := hf b List.mem_cons_self s hs
    rw [Render.exec_fanOutFrom_cons]
    rcases hx : exec (f b) s with ⟨r, t⟩
    rw [hx] at hfirst
    cases r with
    | ok a => exact ih (a :: done) waiting hwaiting t hfirst.1
    | error stop =>
      cases stop with
      | awaits paths =>
        -- the parts behind it go on, and wait for these files too in the end
        have hpaths : stops (.awaits paths) := hfirst.2
        refine ih done (waiting ++ paths) (.inr ?_) t hfirst.1
        rcases hwaiting with rfl | hwaiting
        · exact hpaths
        · exact hstops.append hwaiting hpaths
      | failed | tooDeep =>
        refine ⟨hfirst.1, ?_⟩
        dsimp only [Permits]
        split
        · exact hfirst.2
        · rename_i hwaits
          refine hwaiting.resolve_left fun hnil => hwaits ?_
          simp [hnil]

lemma yields_fanOut (hf : ∀ b ∈ bs, Yields stops (f b) fun _ => True) :
    Yields stops (Render.fanOut f bs) fun _ => True :=
  yields_fanOutFrom hstops hf _ _ _ (.inl rfl)

/-- Parts that are done one after the other, each of them once, and what they give. -/
inductive InTurn (f : β → Render α) : List β → List α → Store → Store → Prop
  | nil (s : Store) : InTurn f [] [] s s
  | cons {b : β} {bs : List β} {a : α} {as : List α} {s t u : Store} :
    exec (f b) s = (.ok a, t) → InTurn f bs as t u → InTurn f (b :: bs) (a :: as) s u

omit hstops in
lemma InTurn.length_eq {as : List α} {s t : Store} (h : InTurn f bs as s t) :
    as.length = bs.length := by
  induction h with
  | nil s => rfl
  | cons _ _ ih => rw [List.length_cons, List.length_cons, ih]

omit hstops in
/-- If all parts give something they were done in turn, as none of them waits for nothing. -/
lemma inTurn_of_fanOutFrom (hf : ∀ b ∈ bs, Yields (· ≠ .awaits []) (f b) fun _ => True)
    (hasty : Bool) : ∀ done waiting s as t, s.memo.Sound →
      exec (Render.fanOutFrom f hasty done waiting bs) s = (.ok as, t) →
      waiting = [] ∧ ∃ rest, as = done.reverse ++ rest ∧ InTurn f bs rest s t := by
  induction bs with
  | nil =>
    intro done waiting s as t hs h
    rw [Render.fanOutFrom] at h
    split at h
    · rename_i hwaiting
      cases h
      exact ⟨hwaiting, [], by simp, .nil s⟩
    · cases h
  | cons b bs ih =>
    intro done waiting s as t hs h
    have ih := ih fun c hc => hf c (List.mem_cons_of_mem b hc)
    have hfirst := hf b List.mem_cons_self s hs
    rw [Render.exec_fanOutFrom_cons] at h
    rcases hx : exec (f b) s with ⟨r, u⟩
    rw [hx] at h hfirst
    cases r with
    | ok a =>
      obtain ⟨hwaiting, rest, rfl, hrest⟩ := ih (a :: done) waiting u as t hfirst.1 h
      exact ⟨hwaiting, a :: rest, by simp, .cons hx hrest⟩
    | error stop =>
      cases stop with
      | awaits paths =>
        -- nothing would come of all parts if one waited for some file
        have hnil := (ih done (waiting ++ paths) u as t hfirst.1 h).1
        obtain ⟨-, rfl⟩ := List.append_eq_nil_iff.1 hnil
        exact absurd rfl hfirst.2
      | failed | tooDeep => cases h

omit hstops in
lemma inTurn_of_fanOut {s t : Store} {as : List α} (hs : s.memo.Sound)
    (hf : ∀ b ∈ bs, Yields (· ≠ .awaits []) (f b) fun _ => True)
    (h : exec (Render.fanOut f bs) s = (.ok as, t)) : InTurn f bs as s t := by
  obtain ⟨-, rest, rfl, hturn⟩ := inTurn_of_fanOutFrom hf _ [] [] s as t hs h
  exact hturn

omit hstops in
/-- Parts that can be done in turn are all done. -/
lemma InTurn.exec_fanOut {s t : Store} {as : List α} (h : InTurn f bs as s t) :
    exec (Render.fanOut f bs) s = (.ok as, t) := by
  have hfrom : ∀ hasty done,
      exec (Render.fanOutFrom f hasty done [] bs) s = (.ok (done.reverse ++ as), t) := by
    induction h with
    | nil s =>
      intro _ done
      rw [Render.fanOutFrom, if_pos rfl, List.append_nil]
      rfl
    | cons hfirst _ ih =>
      intro hasty done
      rw [Render.exec_fanOutFrom_cons, hfirst]
      dsimp only
      rw [ih hasty, List.reverse_cons, List.append_assoc, List.singleton_append]
  exact hfrom _ []

omit hstops in
lemma InTurn.forall₂ {p : β → α → Prop} {as : List α} {s t : Store} (h : InTurn f bs as s t)
    (hs : s.memo.Sound) (hf : ∀ b ∈ bs, Yields stops (f b) (p b)) : List.Forall₂ p bs as := by
  induction h with
  | nil s => exact .nil
  | cons hrun _ ih =>
    have hfirst := hf _ List.mem_cons_self _ hs
    rw [hrun] at hfirst
    exact .cons hfirst.2 (ih hfirst.1 fun b hb => hf b (List.mem_cons_of_mem _ hb))

omit hstops in
/-- What all parts give, if none of them waits for nothing. -/
lemma yields_fanOut_forall₂ {p : β → α → Prop}
    (hf : ∀ b ∈ bs, Yields (· ≠ .awaits []) (f b) (p b)) :
    Yields (· ≠ .awaits []) (Render.fanOut f bs) (List.Forall₂ p bs) := by
  have hplain : ∀ b ∈ bs, Yields (· ≠ .awaits []) (f b) fun _ => True :=
    fun b hb => (hf b hb).mono fun _ _ => trivial
  intro s hs
  obtain ⟨hmemo, hresult⟩ := yields_fanOut closed_ne_awaits.toAdditive hplain s hs
  refine ⟨hmemo, ?_⟩
  rcases hx : exec (Render.fanOut f bs) s with ⟨_ | as, t⟩
  · rw [hx] at hresult
    exact hresult
  · exact (inTurn_of_fanOut hs hplain hx).forall₂ hs hf

lemma yields_both {y : Render β} (hx : Yields stops x fun _ => True)
    (hy : Yields stops y fun _ => True) : Yields stops (Render.both x y) fun _ => True := by
  intro s hs
  have hfirst := hx s hs
  rw [Render.exec_both]
  rcases hr : exec x s with ⟨r, t⟩
  rw [hr] at hfirst
  cases r with
  | ok a => exact (hy.map (r := fun _ => True) (f := Prod.mk a) fun _ _ => trivial) t hfirst.1
  | error stop =>
    cases stop with
    | failed | tooDeep => exact hfirst
    | awaits paths =>
      have hsecond := hy t hfirst.1
      dsimp only
      rcases hr' : exec y t with ⟨r', u⟩
      rw [hr'] at hsecond
      cases r' with
      | ok b => exact ⟨hsecond.1, hfirst.2⟩
      | error stop' =>
        cases stop' with
        | awaits more => exact ⟨hsecond.1, hstops.append hfirst.2 hsecond.2⟩
        | failed | tooDeep => exact hsecond

end Parts

/-! ### Steps that no store plays a part in -/

/-- A computation that only gives something or fails, whatever the store. -/
def Settled (x : Render α) : Prop := (∃ a, x = pure a) ∨ ∃ f, x = throw (.failed (.ofFault f))

lemma settled_pure (a : α) : Settled (pure a : Render α) := .inl ⟨a, rfl⟩

lemma settled_misuse (kind : Misuse) (message : Text) :
    Settled (Render.misuse kind message : Render α) := .inr ⟨_, rfl⟩

lemma settled_demand (name : Text) (n : Node) : Settled (demand name n) := by
  unfold demand
  split
  · exact settled_pure _
  · exact settled_misuse _ _

lemma settled_loopStep (kind : LoopOver) (step : Option Text) : Settled (loopStep kind step) := by
  unfold loopStep
  split
  · split
    · exact settled_pure _
    · exact settled_misuse _ _
  · exact settled_pure _

lemma settled_includedPath (t : Template) (file : Text) : Settled (Node.includedPath t file) := by
  unfold Node.includedPath
  split
  · exact settled_pure _
  · exact .inr ⟨_, rfl⟩

/-! ### Evaluating -/

lemma exec_evaluate_fst {m : Memo} (hm : m.Sound) (c : Context) (source : Text) :
    (exec (evaluate c source) m).1.toOption = valueOf? c source := by
  rw [evaluate, exec_bind, exec_readExpression hm, valueOf?]
  cases Expr.parse (Text.trim source) with
  | error e => rfl
  | ok e => rfl

variable (hstops : Stop.Raisable stops)
include hstops

lemma Settled.yields (hx : Settled x) : Yields stops x fun a => x = pure a := by
  rcases hx with ⟨a, rfl⟩ | ⟨e, rfl⟩
  · exact yields_pure rfl
  · exact yields_throw (hstops.fault e)

lemma yields_misuse (kind : Misuse) (message : Text) :
    Yields stops (Render.misuse kind message) p := yields_throw (hstops.fault _)

lemma yields_evaluating {x : Evaluation α} (hx : Agree BothSound x x) :
    Yields stops (Render.evaluating x) fun a => ∃ m : Memo, m.Sound ∧ (exec x m).1 = .ok a := by
  intro s hs
  obtain ⟨r, m, m', hm, hm', hsound, -⟩ := hx s.memo s.memo ⟨hs, hs⟩
  rw [Render.exec_evaluating, hm]
  refine ⟨hsound, ?_⟩
  cases r with
  | ok a => exact ⟨s.memo, hs, by rw [hm]⟩
  | error e => exact hstops.fault _

lemma yields_evaluate (scope : Scope) (source : Text) :
    Yields stops (scope.evaluate source) fun v => valueOf? scope.context source = some v := by
  refine (yields_evaluating hstops (agree_evaluate_memo _ _)).mono fun v hv => ?_
  obtain ⟨m, hm, hrun⟩ := hv
  rw [← exec_evaluate_fst hm, hrun]
  rfl

lemma yields_fillIn (scope : Scope) (t : Text) :
    Yields stops (scope.fillIn t) fun _ => True :=
  (yields_evaluating hstops (agree_fillIn_memo _ _ _)).mono fun _ _ => trivial

lemma yields_renderText (raw : Text) (scope : Scope) :
    Yields stops (Node.renderText raw scope) fun _ => True := by
  unfold Node.renderText
  split
  · exact yields_pure trivial
  · exact yields_fillIn hstops _ _

lemma yields_evaluateAll (scope : Scope) (attributes : List (Text × Text)) :
    Yields stops (Node.evaluateAll scope attributes)
      fun vars => valuesOf? scope.context attributes = some vars := by
  induction attributes with
  | nil => exact yields_pure rfl
  | cons a attributes ih =>
    refine (yields_evaluate hstops scope a.2).bind fun v hv => ih.bind fun vars hvars => ?_
    refine yields_pure ?_
    simp [valuesOf?, hv, hvars]

lemma yields_branchHolds (scope : Scope) (n : Node) :
    Yields stops (branchHolds scope n) fun _ => True :=
  ((settled_demand _ _).yields hstops).bind fun _ _ =>
    (yields_evaluate hstops _ _).bind fun _ _ => yields_pure trivial

lemma yields_decideElement (scope : Scope) (state : BranchState) (n : Node) :
    Yields stops (decideElement scope state n) fun _ => True := by
  unfold decideElement
  split
  · exact (yields_branchHolds hstops _ _).bind fun _ _ => yields_pure trivial
  · exact ((settled_demand _ _).yields hstops).bind fun _ _ => yields_misuse hstops _ _
  · exact ((settled_demand _ _).yields hstops).bind fun _ _ => yields_pure trivial
  · exact (yields_branchHolds hstops _ _).bind fun _ _ => yields_pure trivial
  · exact yields_misuse hstops _ _
  · exact yields_pure trivial
  · exact yields_pure trivial

omit hstops in
lemma yields_decideFrom (hstops : Stop.Closed stops) (t : Template) (scope : Scope)
    (ns : List Node) :
    ∀ state, Yields stops (decideFrom t scope state ns) fun _ => True := by
  induction ns with
  | nil => exact fun _ => yields_pure trivial
  | cons n ns ih =>
    intro state
    rw [decideFrom]
    split
    · have helement := yields_decideElement hstops.toRaisable scope state n
      refine (yields_within helement hstops _).bind fun decided _ => ?_
      obtain ⟨_, next⟩ := decided
      exact (ih next).bind fun _ _ => yields_pure trivial
    · exact (ih state).bind fun _ _ => yields_pure trivial

/-! ### Loops -/

lemma yields_holds (source : Option Text) (scope : Scope) :
    Yields stops (holds source scope) fun _ => True := by
  unfold holds
  split
  · exact (yields_evaluate hstops _ _).bind fun _ _ => yields_pure trivial
  · exact yields_pure trivial

lemma yields_chooseFrom (stop skip : Option Text) (scopes : List Scope) :
    ∀ chosen, Yields stops (chooseFrom stop skip chosen scopes) fun _ => True := by
  induction scopes with
  | nil => exact fun _ => yields_pure trivial
  | cons scope scopes ih =>
    intro chosen
    rw [chooseFrom]
    refine (yields_holds hstops _ _).bind fun stops _ => ?_
    split
    · exact yields_pure trivial
    · refine (yields_holds hstops _ _).bind fun skips _ => ?_
      split
      · exact ih _
      · exact ih _

lemma yields_itemsFor (scope : Scope) (l : LoopHead) (step : Nat) :
    Yields stops (itemsFor scope l step) fun items => items = loopItems scope.context l step := by
  unfold itemsFor loopItems
  cases l.data with
  | range first last =>
    dsimp only
    split
    · exact yields_misuse hstops _ _
    · exact yields_pure rfl
  | expression source =>
    refine (yields_evaluate hstops scope source).bind fun v hv => ?_
    cases hitems : itemsOf? l.kind step v with
    | none => exact yields_misuse hstops _ _
    | some items => exact yields_pure (by simp [hv, hitems])

omit hstops in
/-- What is written in a loop, and the step it goes on by. -/
structure Node.LoopsOver (n : Node) (l : LoopHead) (step : Nat) : Prop where
  head : (n.attributes.get? "on").bind LoopHead.parse? = some l
  step : loopStep l.kind (n.attributes.get? "step") = pure step

omit hstops in
lemma Node.LoopsOver.loopScopes_eq {n : Node} {l : LoopHead} {step : Nat} (h : n.LoopsOver l step)
    (scope : Scope) :
    loopScopes n scope = itemsFor scope l step >>= fun items =>
      chooseFrom (n.attributes.get? "break") (n.attributes.get? "continue") []
        (items.map fun item => scope.extend (item.bindings l)) := by
  obtain ⟨on, hon, hl⟩ := Option.bind_eq_some_iff.1 h.head
  have hdemand : demand "on" n = pure on := by rw [demand, hon]
  have hread : readLoop on = pure l := by rw [readLoop, hl]
  rw [loopScopes, hdemand, pure_bind, hread, pure_bind, h.step, pure_bind]

omit hstops in
/-- A loop is as it should be, or it fails wherever it stands. -/
lemma Node.loopsOver_or (n : Node) :
    (∃ l step, n.LoopsOver l step) ∨
      ∃ f, ∀ scope, loopScopes n scope = throw (.failed (.ofFault f)) := by
  cases hon : n.attributes.get? "on" with
  | none =>
    obtain ⟨e, he⟩ : ∃ f, demand "on" n = throw (.failed (.ofFault f)) := by
      rw [demand, hon]
      exact ⟨_, rfl⟩
    refine .inr ⟨e, fun scope => ?_⟩
    rw [loopScopes, he]
    rfl
  | some on =>
    have hdemand : demand "on" n = pure on := by rw [demand, hon]
    cases hl : LoopHead.parse? on with
    | none =>
      obtain ⟨e, he⟩ : ∃ f, readLoop on = throw (.failed (.ofFault f)) := by
        rw [readLoop, hl]
        exact ⟨_, rfl⟩
      refine .inr ⟨e, fun scope => ?_⟩
      rw [loopScopes, hdemand, pure_bind, he]
      rfl
    | some l =>
      have hread : readLoop on = pure l := by rw [readLoop, hl]
      rcases settled_loopStep l.kind (n.attributes.get? "step") with ⟨step, hstep⟩ | ⟨e, he⟩
      · exact .inl ⟨l, step, by rw [hon, Option.bind_some, hl], hstep⟩
      · refine .inr ⟨e, fun scope => ?_⟩
        rw [loopScopes, hdemand, pure_bind, hread, pure_bind, he]
        rfl

lemma yields_loopScopes_of_loopsOver {n : Node} {l : LoopHead} {step : Nat}
    (h : n.LoopsOver l step) (scope : Scope) :
    Yields stops (loopScopes n scope) fun scopes => ∀ inner ∈ scopes,
      ∃ item ∈ loopItems scope.context l step, inner = scope.extend (item.bindings l) := by
  rw [h.loopScopes_eq]
  refine (yields_itemsFor hstops scope l step).bind fun items hitems => ?_
  refine ((yields_chooseFrom hstops _ _ _ _).and_gives (gives_chooseFrom _ _ _ _)).mono ?_
  intro scopes hscopes inner hinner
  obtain ⟨item, hitem, rfl⟩ := List.mem_map.1 (hscopes.2 hinner)
  exact ⟨item, hitems ▸ hitem, rfl⟩

lemma yields_loopScopes (n : Node) (scope : Scope) :
    Yields stops (loopScopes n scope) fun _ => True := by
  rcases n.loopsOver_or with ⟨l, step, h⟩ | ⟨f, h⟩
  · exact (yields_loopScopes_of_loopsOver hstops h scope).mono fun _ _ => trivial
  · rw [h]
    exact yields_throw (hstops.fault f)

/-! ### Directives, from what is inside them -/

namespace Node

variable {walk : Walk} {t : Template} {n : Node} {scope : Scope}

omit hstops in
lemma yields_renderIn (hstops : Stop.Additive stops) {body : List Node} {scopes : List Scope}
    (hw : ∀ inner ∈ scopes, Yields stops (walk t body inner) fun _ => True) :
    Yields stops (renderIn walk t body scopes) fun _ => True :=
  (yields_fanOut hstops hw).bind fun _ _ => yields_pure trivial

omit hstops in
lemma yields_renderFills (hstops : Stop.Closed stops) {fills : List (Text × Node)}
    (hw : ∀ p ∈ fills, Yields stops (walk t p.2.children scope) fun _ => True) :
    Yields stops (renderFills walk t fills scope) fun _ => True :=
  (yields_fanOut hstops.toAdditive fun p hp => yields_within (hw p hp) hstops _).bind
    fun _ _ => yields_pure trivial

omit hstops in
lemma yields_siblingsBy (hstops : Stop.Closed stops) {watch : Node → Render Unit}
    {element : Node → Bool → Render Text} {ns : List Node}
    (hwatch : ∀ n ∈ ns, Yields stops (watch n) fun _ => True)
    (helement : ∀ n ∈ ns, n.isElement → ∀ taken, Yields stops (element n taken) fun _ => True) :
    Yields stops (siblingsBy t scope watch element ns) fun _ => True := by
  refine (yields_decideFrom hstops _ _ _ _).bind fun taken _ =>
    (yields_fanOut hstops.toAdditive fun ⟨n, b⟩ hn => ?_).bind fun _ _ => yields_pure trivial
  have hn := (List.of_mem_zip hn).1
  refine (hwatch n hn).bind fun _ _ => ?_
  unfold siblingsBy.nodeBy
  split
  · exact yields_pure trivial
  · exact yields_pure trivial
  · exact yields_within (yields_renderText hstops.toRaisable _ _) hstops _
  · exact yields_within (helement _ hn rfl _) hstops _

omit hstops in
lemma yields_renderBranch {setup : Setup} {taken : Bool}
    (hw : Yields stops (walk t n.children scope) fun _ => True) :
    Yields stops (renderBranch setup walk t n scope taken) fun _ => True := by
  unfold renderBranch
  split
  · exact hw
  · exact yields_pure trivial

lemma yields_renderLoop {l : LoopHead} {step : Nat} (h : n.LoopsOver l step)
    (hw : ∀ item ∈ loopItems scope.context l step,
      Yields stops (walk t n.children (scope.extend (item.bindings l))) fun _ => True) :
    Yields stops (renderLoop walk t n scope) fun _ => True := by
  refine (yields_loopScopes_of_loopsOver hstops h scope).bind fun scopes hscopes =>
    yields_renderIn hstops.toAdditive fun inner hinner => ?_
  obtain ⟨item, hitem, rfl⟩ := hscopes inner hinner
  exact hw item hitem

lemma yields_renderLoop_of_throw {f : Fault}
    (h : loopScopes n scope = throw (.failed (.ofFault f))) :
    Yields stops (renderLoop walk t n scope) fun _ => True := by
  rw [renderLoop, h]
  exact yields_throw (hstops.fault f)

lemma yields_renderBinding
    (hw : ∀ vars, valuesOf? scope.context n.attributes = some vars →
      Yields stops (walk t n.children (scope.extend vars)) fun _ => True) :
    Yields stops (renderBinding walk t n scope) fun _ => True := by
  unfold renderBinding
  split
  · exact yields_misuse hstops _ _
  · exact (yields_evaluateAll hstops _ _).bind hw

lemma yields_renderPlain (hw : Yields stops (walk t n.children scope) fun _ => True) :
    Yields stops (renderPlain walk t n scope) fun _ => True := by
  have hattribute : ∀ a ∈ n.attributes, Yields stops (renderAttribute scope a) fun _ => True :=
    fun a _ => (yields_fillIn hstops _ _).bind fun _ _ => yields_pure trivial
  refine (Yields.mapM hattribute).bind fun attributes _ => ?_
  split
  · exact yields_pure trivial
  · exact hw.bind fun _ _ => yields_pure trivial

end Node

namespace Lexical

variable {lexical : Surroundings → Walk} {e : Surroundings} {t : Template} {n : Node}
  {scope : Scope}

omit hstops in
lemma yields_renderItems (hstops : Stop.Additive stops) {f : Expansion} {items : List Json}
    (hw : ∀ v ∈ items,
      Yields stops (lexical e f.template f.body (scope.extend [(f.item, v)])) fun _ => True) :
    Yields stops (renderItems lexical e f items scope) fun _ => True := by
  refine Node.yields_renderIn hstops fun inner hinner => ?_
  obtain ⟨v, hv, rfl⟩ := List.mem_map.1 hinner
  exact hw v hv

lemma yields_renderTree
    (hw : ∀ b items, (n.attributes.get? "on").bind TreeHead.parse? = some b →
      valueOf? scope.context b.data = some (.array items) → ∀ id, ∀ v ∈ items,
      Yields stops (lexical (e.inTree ⟨t, n.children, b.item⟩) t n.children
        (Scope.extend { scope with tree := some id } [(b.item, v)])) fun _ => True) :
    Yields stops (renderTree lexical e t n scope) fun _ => True := by
  unfold renderTree demand Node.readBinding
  cases hon : n.attributes.get? "on" with
  | none => exact yields_throw (hstops.fault _)
  | some on =>
    rw [pure_bind]
    cases hb : TreeHead.parse? on with
    | none => exact yields_throw (hstops.fault _)
    | some b =>
      rw [pure_bind]
      refine (yields_evaluate hstops scope b.data).bind fun v hv => ?_
      cases v with
      | array items =>
        refine yields_insideTree fun id => yields_renderItems hstops.toAdditive ?_
        exact hw b items (by rw [hon, Option.bind_some, hb]) hv id
      | _ => exact yields_misuse hstops _ _

lemma yields_renderChildren
    (hw : ∀ f items, e.tree = some f →
      Node.itemField scope.context f.item ((n.attributes.get? "field").getD "children") =
        .array items → ∀ v ∈ items,
      Yields stops (lexical e f.template f.body (scope.extend [(f.item, v)])) fun _ => True) :
    Yields stops (renderChildren lexical e n scope) fun _ => True := by
  unfold renderChildren
  cases hf : e.tree with
  | none => exact yields_misuse hstops _ _
  | some f =>
    dsimp only
    cases hfield : Node.itemField scope.context f.item
      ((n.attributes.get? "field").getD "children") with
    | array items => exact yields_renderItems hstops.toAdditive (hw f items hf hfield)
    | _ =>
      dsimp only
      split
      · exact yields_misuse hstops _ _
      · exact yields_pure trivial

omit hstops in
lemma yields_renderHole (hw : Yields stops (lexical e t n.children scope) fun _ => True) :
    Yields stops (renderHole lexical e t n scope) fun _ => True := by
  unfold renderHole
  split
  · exact yields_pure trivial
  · exact hw

end Lexical

end

end HtmlTemplate
