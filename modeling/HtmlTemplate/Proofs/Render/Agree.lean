import Mathlib.Data.List.Forall2
import Mathlib.Tactic.Lemma
import HtmlTemplate.Render.Basic

/-!
Computations that cannot tell related states apart.

Two computations agree if on related states they give the same result and leave related states.
Whatever is composed of computations that agree agrees again.
-/

namespace HtmlTemplate

section Agree

variable {ε σ α β : Type}

/-- The result of a computation, and the state it leaves. -/
def exec (x : ExceptT ε (StateM σ) α) (s : σ) : Except ε α × σ := x.run.run s

lemma exec_bind (x : ExceptT ε (StateM σ) α) (f : α → ExceptT ε (StateM σ) β) (s : σ) :
    exec (x >>= f) s =
      match exec x s with
      | (.ok a, t) => exec (f a) t
      | (.error e, t) => (.error e, t) := by
  rcases h : exec x s with ⟨r, t⟩
  have hx : StateT.run (ExceptT.run x) s = pure (r, t) := h
  simp only [exec, ExceptT.run_bind, StateT.run_bind, hx]
  cases r <;> rfl

lemma exec_ext {x y : ExceptT ε (StateM σ) α} (h : ∀ s, exec x s = exec y s) : x = y := funext h

lemma exec_map (f : α → β) (x : ExceptT ε (StateM σ) α) (s : σ) :
    exec (f <$> x) s = ((exec x s).1.map f, (exec x s).2) := by
  rw [← bind_pure_comp, exec_bind]
  rcases exec x s with ⟨_ | a, t⟩ <;> rfl

/-- On states that `S` relates, the computations give the same and leave states that it relates. -/
def Agree (S : σ → σ → Prop) (x y : ExceptT ε (StateM σ) α) : Prop :=
  ∀ s s', S s s' → ∃ r t t', exec x s = (r, t) ∧ exec y s' = (r, t') ∧ S t t'

/-- The results of a computation have a property. -/
def Gives (x : ExceptT ε (StateM σ) α) (p : α → Prop) : Prop :=
  ∀ s a t, exec x s = (.ok a, t) → p a

variable {S : σ → σ → Prop} {x y : ExceptT ε (StateM σ) α}

lemma agree_pure (a : α) : Agree S (pure a : ExceptT ε (StateM σ) α) (pure a) :=
  fun s s' hs => ⟨.ok a, s, s', rfl, rfl, hs⟩

lemma agree_throw (e : ε) : Agree S (throw e : ExceptT ε (StateM σ) α) (throw e) :=
  fun s s' hs => ⟨.error e, s, s', rfl, rfl, hs⟩

lemma Agree.bind_of_gives {f g : α → ExceptT ε (StateM σ) β} {p : α → Prop} (h : Agree S x y)
    (hp : Gives x p) (hf : ∀ a, p a → Agree S (f a) (g a)) : Agree S (x >>= f) (y >>= g) := by
  intro s s' hs
  obtain ⟨r, t, t', hx, hy, ht⟩ := h s s' hs
  rw [exec_bind, exec_bind, hx, hy]
  cases r with
  | ok a => exact hf a (hp s a t hx) t t' ht
  | error e => exact ⟨.error e, t, t', rfl, rfl, ht⟩

lemma Agree.bind {f g : α → ExceptT ε (StateM σ) β} (h : Agree S x y)
    (hf : ∀ a, Agree S (f a) (g a)) : Agree S (x >>= f) (y >>= g) :=
  h.bind_of_gives (fun _ _ _ _ => trivial) fun a (_ : True) => hf a

lemma Agree.map (h : Agree S x y) (f : α → β) : Agree S (f <$> x) (f <$> y) := by
  rw [← bind_pure_comp, ← bind_pure_comp]
  exact h.bind fun a => agree_pure (f a)

lemma Agree.mapM {f g : α → ExceptT ε (StateM σ) β} (h : ∀ a, Agree S (f a) (g a)) (as : List α) :
    Agree S (as.mapM f) (as.mapM g) := by
  induction as with
  | nil => exact agree_pure []
  | cons a as ih =>
    rw [List.mapM_cons, List.mapM_cons]
    exact (h a).bind fun b => ih.bind fun bs => agree_pure (b :: bs)

lemma gives_throw (e : ε) (p : α → Prop) : Gives (throw e : ExceptT ε (StateM σ) α) p := by
  intro s a t h
  cases h

lemma gives_pure {a : α} {p : α → Prop} (h : p a) :
    Gives (pure a : ExceptT ε (StateM σ) α) p := by
  intro s b t hb
  cases hb
  exact h

lemma Gives.mono {p q : α → Prop} (h : Gives x p) (hpq : ∀ a, p a → q a) : Gives x q :=
  fun s a t hx => hpq a (h s a t hx)

lemma Gives.bind {f : α → ExceptT ε (StateM σ) β} {p : α → Prop} {q : β → Prop}
    (h : Gives x p) (hf : ∀ a, p a → Gives (f a) q) : Gives (x >>= f) q := by
  intro s b t hb
  rw [exec_bind] at hb
  rcases hx : exec x s with ⟨_ | a, t'⟩
  · rw [hx] at hb
    cases hb
  · rw [hx] at hb
    exact hf a (h s a t' hx) t' b t hb

/-- Whatever the first step gives. -/
lemma gives_bind {f : α → ExceptT ε (StateM σ) β} {q : β → Prop} (hf : ∀ a, Gives (f a) q) :
    Gives (x >>= f) q :=
  Gives.bind (p := fun _ => True) (fun _ _ _ _ => trivial) fun a _ => hf a

lemma Gives.mapM {f : α → ExceptT ε (StateM σ) β} {p : α → β → Prop} (as : List α)
    (h : ∀ a ∈ as, Gives (f a) (p a)) : Gives (as.mapM f) (List.Forall₂ p as) := by
  induction as with
  | nil => exact gives_pure .nil
  | cons a as ih =>
    rw [List.mapM_cons]
    refine (h a List.mem_cons_self).bind fun b hb => ?_
    refine (ih fun x hx => h x (List.mem_cons_of_mem a hx)).bind fun bs hbs => ?_
    exact gives_pure (.cons hb hbs)

end Agree

namespace Render

variable {α β : Type} {S : Store → Store → Prop} {x y : Render α}

lemma agree_fail (f : Fault) : Agree S (fail f : Render α) (fail f) := agree_throw _

lemma agree_misuse (kind : Misuse) (message : Text) :
    Agree S (misuse kind message : Render α) (misuse kind message) := agree_throw _

lemma exec_evaluating (x : Evaluation α) (s : Store) :
    exec (evaluating x) s =
      ((exec x s.memo).1.mapError fun e => .failed (.ofFault (.expression e)),
        { s with memo := (exec x s.memo).2 }) := by
  dsimp only [exec, evaluating, ExceptT.run_mk, StateT.run]
  rcases ExceptT.run x s.memo with ⟨r, m⟩
  cases r <;> rfl

/-- What a place does to a result. -/
def placed (place : Place) : Except Stop α → Except Stop α
  | .error (.failed e) => .error (.failed (e.through place))
  | r => r

lemma exec_within (place : Place) (x : Render α) (s : Store) :
    exec (within place x) s = (placed place (exec x s).1, (exec x s).2) := by
  rcases h : exec x s with ⟨r, t⟩
  have hx : StateT.run x s = pure (r, t) := h
  simp only [exec, within, tryCatch, tryCatchThe, MonadExceptOf.tryCatch, ExceptT.tryCatch,
    ExceptT.run_mk, StateT.run_bind, hx, pure_bind]
  match r with
  | .ok a | .error (.failed e) | .error (.awaits paths) | .error .tooDeep => rfl

lemma within_pure (place : Place) (a : α) : within place (pure a) = pure a := rfl

lemma within_map (place : Place) (f : α → β) (x : Render α) :
    within place (f <$> x) = f <$> within place x := by
  refine exec_ext fun s => ?_
  rw [exec_within, exec_map, exec_map, exec_within]
  match (exec x s).1 with
  | .ok a | .error (.failed e) | .error (.awaits paths) | .error .tooDeep => rfl

/-- Nothing comes after a failure. -/
lemma within_fail_bind {γ : Type} (place : Place) (x : Render γ) (f : Fault) (g : α → Render β) :
    (within place (x >>= fun _ => (fail f : Render α)) >>= g) =
      within place (x >>= fun _ => (fail f : Render β)) := by
  refine exec_ext fun s => ?_
  rw [exec_bind, exec_within, exec_within, exec_bind, exec_bind]
  rcases exec x s with ⟨r, t⟩
  match r with
  | .ok a | .error (.failed e) | .error (.awaits paths) | .error .tooDeep => rfl

lemma gives_within {p : α → Prop} (h : Gives x p) (place : Place) : Gives (within place x) p := by
  intro s a t hx
  rw [exec_within] at hx
  rcases hr : exec x s with ⟨r, u⟩
  rw [hr] at hx
  match r with
  | .ok b =>
    cases hx
    exact h s a u hr
  | .error (.failed e) | .error (.awaits paths) | .error .tooDeep => cases hx

lemma gives_misuse (kind : Misuse) (message : Text) (p : α → Prop) :
    Gives (misuse kind message : Render α) p := gives_throw _ p

lemma agree_within (place : Place) (h : Agree S x y) :
    Agree S (within place x) (within place y) := by
  intro s s' hs
  obtain ⟨r, t, t', hx, hy, ht⟩ := h s s' hs
  rw [exec_within, exec_within, hx, hy]
  exact ⟨placed place r, t, t', rfl, rfl, ht⟩

/-! ### Siblings -/

variable {f g : α → Render β}

lemma exec_fanOutFrom_cons (f : α → Render β) (hasty : Bool) (done : List β) (waiting : List Text)
    (a : α) (as : List α) (s : Store) :
    exec (fanOutFrom f hasty done waiting (a :: as)) s =
      match exec (f a) s with
      | (.ok b, s) => exec (fanOutFrom f hasty (b :: done) waiting as) s
      | (.error (.awaits paths), s) => exec (fanOutFrom f hasty done (waiting ++ paths) as) s
      | (.error stop, s) =>
        (.error (if hasty || waiting.isEmpty then stop else .awaits waiting), s) := by
  rw [fanOutFrom]
  change (match exec (f a) s with
    | (.ok b, s) => _
    | (.error (.awaits paths), s) => _
    | (.error stop, s) => _) = _
  rcases exec (f a) s with ⟨r, t⟩
  match r with
  | .ok b | .error (.failed e) | .error (.awaits paths) | .error .tooDeep => rfl

lemma agree_fanOutFrom {as : List α} (h : ∀ a ∈ as, Agree S (f a) (g a)) (hasty : Bool) :
    ∀ done waiting, Agree S (fanOutFrom f hasty done waiting as)
      (fanOutFrom g hasty done waiting as) := by
  induction as with
  | nil =>
    intro done waiting
    simp only [fanOutFrom]
    split
    · exact agree_pure _
    · exact agree_throw _
  | cons a as ih =>
    intro done waiting s s' hs
    have ih := ih fun b hb => h b (List.mem_cons_of_mem a hb)
    obtain ⟨r, t, t', hx, hy, ht⟩ := h a List.mem_cons_self s s' hs
    rw [exec_fanOutFrom_cons, exec_fanOutFrom_cons, hx, hy]
    match r with
    | .ok b => exact ih (b :: done) waiting t t' ht
    | .error (.awaits paths) => exact ih done (waiting ++ paths) t t' ht
    | .error (.failed e) | .error .tooDeep => exact ⟨_, t, t', rfl, rfl, ht⟩

lemma agree_fanOut {as : List α} (h : ∀ a ∈ as, Agree S (f a) (g a)) :
    Agree S (fanOut f as) (fanOut g as) :=
  agree_fanOutFrom h _ _ _

lemma fanOut_map {γ : Type} (f : α → Render β) (g : γ → α) (cs : List γ) :
    fanOut f (cs.map g) = fanOut (f ∘ g) cs := by
  have hfrom : ∀ (hasty : Bool) (done : List β) (waiting : List Text),
      fanOutFrom f hasty done waiting (cs.map g) = fanOutFrom (f ∘ g) hasty done waiting cs := by
    induction cs with
    | nil => exact fun _ _ _ => rfl
    | cons c cs ih => simp only [List.map_cons, fanOutFrom, ih, Function.comp_apply, implies_true]
  rw [fanOut, fanOut, List.length_map, hfrom]

lemma exec_both (x : Render α) (y : Render β) (s : Store) :
    exec (both x y) s =
      match exec x s with
      | (.ok a, s) => exec (Prod.mk a <$> y) s
      | (.error (.awaits paths), s) =>
        match exec y s with
        | (.error (.awaits more), s) => (.error (.awaits (paths ++ more)), s)
        | (.error stop, s) => (.error stop, s)
        | (.ok _, s) => (.error (.awaits paths), s)
      | (.error stop, s) => (.error stop, s) := by
  change (match exec x s with
    | (.ok a, s) => _
    | (.error (.awaits paths), s) => _
    | (.error stop, s) => _) = _
  rcases exec x s with ⟨r, t⟩
  match r with
  | .ok a | .error (.failed e) | .error .tooDeep => rfl
  | .error (.awaits paths) =>
    dsimp only
    change (match exec y t with
      | (.error (.awaits more), s) => _
      | (.error stop, s) => _
      | (.ok _, s) => _) = _
    rcases exec y t with ⟨r, u⟩
    match r with
    | .ok b | .error (.failed e) | .error (.awaits paths) | .error .tooDeep => rfl

lemma agree_both {x' y' : Render β} (h : Agree S x y) (h' : Agree S x' y') :
    Agree S (both x x') (both y y') := by
  intro s s' hs
  obtain ⟨r, t, t', hx, hy, ht⟩ := h s s' hs
  rw [exec_both, exec_both, hx, hy]
  match r with
  | .ok a => exact h'.map (Prod.mk a) t t' ht
  | .error (.failed e) | .error .tooDeep => exact ⟨_, t, t', rfl, rfl, ht⟩
  | .error (.awaits paths) =>
    obtain ⟨r, u, u', hx', hy', hu⟩ := h' t t' ht
    simp only [hx', hy']
    match r with
    | .ok b | .error (.failed e) | .error (.awaits more) | .error .tooDeep =>
      exact ⟨_, u, u', rfl, rfl, hu⟩

/-- What both parts give, the second one gives. -/
lemma gives_both_snd {x : Render α} {y : Render β} {p : β → Prop} (h : Gives y p) :
    Gives (both x y) fun ab => p ab.2 := by
  intro s ab t hb
  rw [exec_both] at hb
  rcases hx : exec x s with ⟨r, u⟩
  rw [hx] at hb
  match r with
  | .ok a =>
    have hpair : Gives (y >>= fun b => pure (a, b)) fun ab => p ab.2 :=
      h.bind fun b hb => gives_pure (p := fun ab : α × β => p ab.2) hb
    rw [bind_pure_comp] at hpair
    exact hpair u ab t hb
  | .error (.failed e) | .error .tooDeep => cases hb
  | .error (.awaits paths) =>
    rcases hy : exec y u with ⟨r, v⟩
    simp only [hy] at hb
    match r with
    | .ok b | .error (.failed e) | .error (.awaits more) | .error .tooDeep => cases hb

end Render

end HtmlTemplate
