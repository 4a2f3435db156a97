import HtmlTemplate.Proofs.Render.Slots
import HtmlTemplate.Proofs.Text.Cut
import HtmlTemplate.Proofs.Text.Numeral

/-!
Loops.

What a loop runs over is said here by positions, and what it renders by the values of its two
conditions. All conditions are evaluated before any child is rendered, in the order of the items,
and none behind the first item at which the loop ends.
-/

namespace HtmlTemplate

/-! ### Items -/

/-- The numbers below a count that a step leads to: zero, the step, twice the step, and so on. -/
def strides (step count : Nat) : List Nat := List.range' 0 ((count + step - 1) / step) step

lemma strides_succ {step : Nat} (hstep : 0 < step) (count : Nat) :
    strides step (count + 1) =
      strides step count ++ if count % step = 0 then [count] else [] := by
  -- only the remainder says whether the count itself is a multiple of the step
  obtain ⟨q, r, hr, rfl⟩ : ∃ q r, r < step ∧ count = step * q + r :=
    ⟨count / step, count % step, Nat.mod_lt _ hstep, (Nat.div_add_mod count step).symm⟩
  have hmod : (step * q + r) % step = r := by rw [Nat.mul_add_mod, Nat.mod_eq_of_lt hr]
  have hnext : (step * q + r + 1 + step - 1) / step = q + 1 := by
    have hsum : step * q + r + 1 + step - 1 = step * (q + 1) + r := by
      rw [Nat.mul_succ]
      omega
    rw [hsum, Nat.mul_add_div hstep, Nat.div_eq_of_lt hr]
  rw [strides, strides, hmod, hnext]
  by_cases hzero : r = 0
  · have hlast : (step * q + r + step - 1) / step = q := by
      have hsum : step * q + r + step - 1 = step * q + (step - 1) := by omega
      rw [hsum, Nat.mul_add_div hstep, Nat.div_eq_of_lt (by omega), Nat.add_zero]
    rw [if_pos hzero, hlast, List.range'_concat, hzero, Nat.zero_add, Nat.add_zero]
  · have hlast : (step * q + r + step - 1) / step = q + 1 := by
      have hsum : step * q + r + step - 1 = step * (q + 1) + (r - 1) := by
        rw [Nat.mul_succ]
        omega
      rw [hsum, Nat.mul_add_div hstep, Nat.div_eq_of_lt (by omega)]
    rw [if_neg hzero, hlast, List.append_nil]

lemma filter_range {step : Nat} (hstep : 0 < step) (count : Nat) :
    (List.range count).filter (fun i => i % step == 0) = strides step count := by
  induction count with
  | zero =>
    have hzero : (0 + step - 1) / step = 0 := Nat.div_eq_of_lt (by omega)
    rw [strides, hzero]
    rfl
  | succ count ih =>
    rw [strides_succ hstep, ← ih, List.range_succ, List.filter_append]
    congr 1
    by_cases hcount : count % step = 0 <;> simp [hcount]

lemma zipIdx_eq_map (vs : List Json) :
    vs.zipIdx = (List.range vs.length).map fun i => (vs.getD i .null, i) := by
  refine List.ext_getElem (by simp) fun i hi _ => ?_
  have hlt : i < vs.length := by simpa using hi
  simp [List.getElem?_eq_getElem hlt]

/-- The items that a loop may render, by their positions; none if it cannot run. -/
def LoopHead.candidates? (c : Context) (l : LoopHead) (step : Nat) : Option (List LoopItem) :=
  match l.data with
  | .range first last =>
    if maxRange < last + 1 - first then none
    else some ((strides step (last + 1 - first)).map fun i => ⟨.ofNat i, .ofNat (first + i)⟩)
  | .expression source =>
    match l.kind, valueOf? c source with
    | .values, some (.array vs) =>
      some ((strides step vs.length).map fun i => ⟨.ofNat i, vs.getD i .null⟩)
    | .keys, some (.array vs) =>
      some ((List.range vs.length).map fun i => ⟨.string (Text.numeral i), vs.getD i .null⟩)
    | .keys, some (.object ms) => some (ms.map fun m => ⟨.string m.1, m.2⟩)
    | _, _ => none

/-- The expression that a loop runs over. -/
def LoopHead.source (l : LoopHead) (scope : Scope) : List (Text × Scope) :=
  match l.data with
  | .range _ _ => []
  | .expression source => [(source, scope)]

lemma LoopItem.every_eq {step : Nat} (hstep : 0 < step) (vs : List Json) :
    LoopItem.every step vs =
      (strides step vs.length).map fun i => ⟨.ofNat i, vs.getD i .null⟩ := by
  rw [LoopItem.every, zipIdx_eq_map, List.filter_map, List.map_map, ← filter_range hstep]
  rfl

lemma LoopItem.all_eq (vs : List Json) :
    LoopItem.all vs =
      (List.range vs.length).map fun i => ⟨.string (Text.numeral i), vs.getD i .null⟩ := by
  rw [LoopItem.all, zipIdx_eq_map, List.map_map]
  rfl

lemma LoopHead.candidates?_of_expression {l : LoopHead} {source : Text}
    (hdata : l.data = .expression source) {step : Nat} (hstep : 0 < step) (c : Context) :
    l.candidates? c step = (valueOf? c source).bind (itemsOf? l.kind step) := by
  unfold candidates?
  rw [hdata]
  dsimp only
  cases valueOf? c source with
  | none => cases l.kind <;> rfl
  | some v =>
    cases v <;> cases l.kind <;>
      simp [itemsOf?, LoopItem.every_eq hstep, LoopItem.all_eq, LoopItem.members]

/-! ### Ranges -/

/-- Digits that denote a number of at most 63 bits. -/
def Text.Counts (t : Text) (count : Nat) : Prop := natural? t = some count ∧ count < 2 ^ 63

lemma Text.natural63?_eq_some_iff {t : Text} {count : Nat} :
    natural63? t = some count ↔ t.Counts count := by
  have hbound : (count : Int) ≤ int64Max ↔ count < 2 ^ 63 := by
    rw [int64Max]
    omega
  rw [natural63?, Option.filter_eq_some_iff, decide_eq_true_eq, hbound, Counts]

lemma Text.Counts.isDigit {t : Text} {count : Nat} (h : t.Counts count) {c : Char} (hc : c ∈ t) :
    c.isDigit = true := by
  have hread := h.1
  rw [natural?, Option.ite_none_right_eq_some] at hread
  exact List.all_eq_true.1 hread.1.2 c hc

lemma Text.Counts.hyphen_not_mem {t : Text} {count : Nat} (h : t.Counts count) : '-' ∉ t :=
  fun hc => absurd (h.isDigit hc) (by decide)

lemma LoopHead.range?_of_counts {b : Text} {last : Nat} (hb : b.Counts last) :
    range? b = some (.range 0 last) := by
  have hcut : Text.cut? ['-'] b = none := by
    rw [Option.eq_none_iff_forall_ne_some]
    rintro ⟨x, y⟩ hxy
    have hsplit := ((Text.cut?_eq_some_iff (p := [])).1 hxy).1
    exact hb.hyphen_not_mem (hsplit ▸ by simp)
  rw [range?, hcut]
  dsimp only
  rw [Text.natural63?_eq_some_iff.2 hb]
  rfl

lemma LoopHead.range?_of_counts_hyphen {a b : Text} {first last : Nat} (ha : a.Counts first)
    (hb : b.Counts last) : range? (a ++ '-' :: b) = some (.range first last) := by
  have hcut : Text.cut? ['-'] (a ++ '-' :: b) = some (a, b) := by
    refine (Text.cut?_eq_some_iff (p := [])).2 ⟨by simp, fun hinfix => ?_⟩
    rw [List.append_nil] at hinfix
    exact ha.hyphen_not_mem ((List.singleton_infix_iff _ _).1 hinfix)
  rw [range?, hcut]
  dsimp only
  rw [Text.natural63?_eq_some_iff.2 ha, Text.natural63?_eq_some_iff.2 hb]
  rfl

lemma LoopHead.data?_values {t : Text} {data : LoopData} (hne : t ≠ []) (h : range? t = some data) :
    data? .values t = some data := by
  rw [data?, if_neg hne, h, Option.getD_some]

lemma Text.Counts.ne_nil {t : Text} {count : Nat} (h : t.Counts count) : t ≠ [] := by
  rintro rfl
  cases h.1

lemma LoopHead.lt_of_range? {t : Text} {first last : Nat}
    (h : range? t = some (.range first last)) : first < 2 ^ 63 ∧ last < 2 ^ 63 := by
  unfold range? at h
  split at h
  · obtain ⟨count, hcount, heq⟩ := Option.map_eq_some_iff.1 h
    cases heq
    exact ⟨by omega, (Text.natural63?_eq_some_iff.1 hcount).2⟩
  · obtain ⟨a, ha, h⟩ := Option.bind_eq_some_iff.1 h
    obtain ⟨b, hb, heq⟩ := Option.bind_eq_some_iff.1 h
    cases heq
    exact ⟨(Text.natural63?_eq_some_iff.1 ha).2, (Text.natural63?_eq_some_iff.1 hb).2⟩

lemma LoopHead.lt_of_parse? {on : Text} {l : LoopHead} {first last : Nat}
    (h : parse? on = some l) (hdata : l.data = .range first last) :
    first < 2 ^ 63 ∧ last < 2 ^ 63 := by
  unfold parse? at h
  obtain ⟨⟨before, kind, after⟩, -, h⟩ := Option.bind_eq_some_iff.1 h
  obtain ⟨⟨value, key⟩, -, h⟩ := Option.bind_eq_some_iff.1 h
  obtain ⟨data, hread, h⟩ := Option.bind_eq_some_iff.1 h
  cases h
  obtain rfl : data = .range first last := hdata
  unfold data? at hread
  split at hread
  · cases hread
  · cases kind with
    | keys => cases hread
    | values =>
      cases hrange : range? (Text.joinWith [' '] after) with
      | none =>
        rw [hrange] at hread
        cases hread
      | some data =>
        rw [hrange] at hread
        cases hread
        exact lt_of_range? hrange

/-! ### Conditions -/

/-- Whether an optional condition holds in a scope; one that has no value does not. -/
def holdsIn (source : Option Text) (scope : Scope) : Bool :=
  (source.bind (valueOf? scope.context)).any Json.countsAsTrue

/-- An optional condition in a scope. -/
def conditionIn (source : Option Text) (scope : Scope) : List (Text × Scope) :=
  source.toList.map fun source => (source, scope)

/-- The scopes that a loop comes to: all before the first one in which `stop` holds. -/
def reached (stop : Option Text) (scopes : List Scope) : List Scope :=
  scopes.takeWhile fun scope => !holdsIn stop scope

/-- The scopes that a loop renders: those it comes to in which `skip` does not hold. -/
def chosen (stop skip : Option Text) (scopes : List Scope) : List Scope :=
  (reached stop scopes).filter fun scope => !holdsIn skip scope

/-- The conditions of a loop in the order in which they matter: `stop` and then `skip` in each
scope it comes to, and `stop` once more where it ends. -/
def conditions (stop skip : Option Text) (scopes : List Scope) : List (Text × Scope) :=
  (reached stop scopes).flatMap (fun scope => conditionIn stop scope ++ conditionIn skip scope) ++
    (scopes.dropWhile fun scope => !holdsIn stop scope).head?.toList.flatMap (conditionIn stop)

/-- Evaluates expressions one after the other, for nothing but their failures. -/
def evaluateEach : List (Text × Scope) → Render Unit
  | [] => return
  | (source, scope) :: rest => do
    let _ ← scope.evaluate source
    evaluateEach rest

lemma evaluateEach_append (as bs : List (Text × Scope)) :
    evaluateEach (as ++ bs) = evaluateEach as >>= fun _ => evaluateEach bs := by
  induction as with
  | nil => rfl
  | cons a as ih => simp only [List.cons_append, evaluateEach, ih, bind_assoc]

section

variable {stop skip : Option Text} {scope : Scope} {scopes : List Scope}

lemma chosen_of_stop (h : holdsIn stop scope = true) : chosen stop skip (scope :: scopes) = [] := by
  simp [chosen, reached, h]

lemma chosen_of_skip (h : holdsIn stop scope = false) (hskip : holdsIn skip scope = true) :
    chosen stop skip (scope :: scopes) = chosen stop skip scopes := by
  simp [chosen, reached, h, hskip]

lemma chosen_of_not (h : holdsIn stop scope = false) (hskip : holdsIn skip scope = false) :
    chosen stop skip (scope :: scopes) = scope :: chosen stop skip scopes := by
  simp [chosen, reached, h, hskip]

lemma conditions_of_stop (h : holdsIn stop scope = true) :
    conditions stop skip (scope :: scopes) = conditionIn stop scope := by
  simp [conditions, reached, h]

lemma conditions_of_not (h : holdsIn stop scope = false) :
    conditions stop skip (scope :: scopes) =
      conditionIn stop scope ++ (conditionIn skip scope ++ conditions stop skip scopes) := by
  simp [conditions, reached, h]

end

/-! ### Evaluating them -/

section

variable {α β : Type}

/-- Computations that do the same wherever the memo is sound. -/
def Coincide (x y : Render α) : Prop := ∀ s, s.memo.Sound → exec x s = exec y s

lemma Coincide.trans {x y z : Render α} (hxy : Coincide x y) (hyz : Coincide y z) : Coincide x z :=
  fun s hs => (hxy s hs).trans (hyz s hs)

lemma Yields.coincide_bind {stops : Stop → Prop} {x : Render α} {p : α → Prop} {f g : α → Render β}
    (hx : Yields stops x p) (h : ∀ a, p a → Coincide (f a) (g a)) :
    Coincide (x >>= f) (x >>= g) := by
  intro s hs
  have hresult := hx s hs
  rw [exec_bind, exec_bind]
  rcases hrun : exec x s with ⟨r, t⟩
  rw [hrun] at hresult
  cases r with
  | ok a => exact h a hresult.2 t hresult.1
  | error e => rfl

/-- An expression without a value fails. -/
lemma exec_evaluate_none {scope : Scope} {source : Text} {s : Store} (hs : s.memo.Sound)
    (h : valueOf? scope.context source = none) :
    ∃ f s', exec (scope.evaluate source) s = (.error (.failed (.ofFault f)), s') := by
  have hvalue := exec_evaluate_fst hs scope.context source
  rw [h] at hvalue
  rw [Scope.evaluate, Render.exec_evaluating]
  rcases hrun : exec (evaluate scope.context source) s.memo with ⟨e | v, m⟩
  · exact ⟨_, _, rfl⟩
  · rw [hrun] at hvalue
    cases hvalue

lemma yields_evaluateEach {stops : Stop → Prop} (hstops : Stop.Raisable stops)
    (conditions : List (Text × Scope)) :
    Yields stops (evaluateEach conditions) fun _ => True := by
  induction conditions with
  | nil => exact yields_pure trivial
  | cons p conditions ih => exact (yields_evaluate hstops _ _).bind fun _ _ => ih

lemma gets_evaluateEach {conditions : List (Text × Scope)}
    (h : ∀ p ∈ conditions, valueOf? p.2.context p.1 ≠ none) :
    Gets (evaluateEach conditions) () := by
  induction conditions with
  | nil => exact fun s hs => ⟨rfl, hs⟩
  | cons p conditions ih =>
    obtain ⟨v, hv⟩ := Option.ne_none_iff_exists'.1 (h p List.mem_cons_self)
    exact (gets_evaluate hv).bind (ih fun q hq => h q (List.mem_cons_of_mem p hq))

lemma exec_evaluateEach_none {conditions : List (Text × Scope)}
    (h : ∃ p ∈ conditions, valueOf? p.2.context p.1 = none) : ∀ s, s.memo.Sound →
      ∃ f s', exec (evaluateEach conditions) s = (.error (.failed (.ofFault f)), s') := by
  induction conditions with
  | nil => exact absurd h (by simp)
  | cons p conditions ih =>
    intro s hs
    rw [evaluateEach]
    cases hv : valueOf? p.2.context p.1 with
    | none =>
      obtain ⟨f, s', hrun⟩ := exec_evaluate_none hs hv
      exact ⟨f, s', by rw [exec_bind, hrun]⟩
    | some v =>
      obtain ⟨t, ht, hrun⟩ := (gets_evaluate hv).exists_exec_bind hs
        fun _ => evaluateEach conditions
      obtain ⟨q, hq, hnone⟩ := h
      rcases List.mem_cons.1 hq with rfl | hq
      · rw [hv] at hnone
        cases hnone
      · rw [hrun]
        exact ih ⟨q, hq, hnone⟩ t ht

/-- A condition is evaluated, and what comes after depends on whether it holds. -/
lemma coincide_holds_bind (source : Option Text) (scope : Scope) (f : Bool → Render α) :
    Coincide (holds source scope >>= f)
      (evaluateEach (conditionIn source scope) >>= fun _ => f (holdsIn source scope)) := by
  cases source with
  | none => exact fun _ _ => rfl
  | some source =>
    have hvalue : Yields (· ≠ .awaits []) (scope.evaluate source) _ :=
      yields_evaluate closed_ne_awaits.toRaisable scope source
    simp only [holds, conditionIn, Option.toList_some, List.map_cons, List.map_nil, evaluateEach,
      bind_assoc, pure_bind]
    refine hvalue.coincide_bind fun v hv s _ => ?_
    rw [holdsIn, Option.bind_some, hv]
    rfl

/-- Which items are rendered is known from the values of the conditions. -/
lemma coincide_chooseFrom (stop skip : Option Text) (scopes : List Scope) : ∀ before,
    Coincide (chooseFrom stop skip before scopes)
      (evaluateEach (conditions stop skip scopes) >>= fun _ =>
        pure (before.reverse ++ chosen stop skip scopes)) := by
  induction scopes with
  | nil =>
    intro before s _
    simp [chooseFrom, conditions, chosen, reached, evaluateEach]
  | cons scope scopes ih =>
    intro before
    have hstop := yields_evaluateEach closed_ne_awaits.toRaisable (conditionIn stop scope)
    have hskip := yields_evaluateEach closed_ne_awaits.toRaisable (conditionIn skip scope)
    rw [chooseFrom]
    refine (coincide_holds_bind stop scope _).trans ?_
    cases hends : holdsIn stop scope with
    | true =>
      -- nothing behind this item is looked at
      rw [conditions_of_stop hends, chosen_of_stop hends, List.append_nil]
      exact fun _ _ => rfl
    | false =>
      rw [conditions_of_not hends, evaluateEach_append, evaluateEach_append]
      simp only [bind_assoc, Bool.false_eq_true, if_false]
      refine hstop.coincide_bind fun _ _ => (coincide_holds_bind skip scope _).trans ?_
      refine hskip.coincide_bind fun _ _ => ?_
      cases hskips : holdsIn skip scope with
      | true =>
        rw [chosen_of_skip hends hskips]
        exact ih before
      | false =>
        rw [chosen_of_not hends hskips]
        simpa using ih (scope :: before)

lemma LoopHead.tooLong_iff (first last : Nat) :
    maxRange ≤ last - first ↔ maxRange < last + 1 - first := by
  rw [maxRange]
  omega

/-- The items of a loop come from the value of its expression. -/
lemma coincide_itemsFor_bind {l : LoopHead} {step : Nat} (hstep : 0 < step) {scope : Scope}
    {items : List LoopItem} (h : l.candidates? scope.context step = some items)
    (f : List LoopItem → Render α) :
    Coincide (itemsFor scope l step >>= f)
      (evaluateEach (l.source scope) >>= fun _ => f items) := by
  cases hdata : l.data with
  | range first last =>
    rw [LoopHead.candidates?, hdata] at h
    dsimp only at h
    rw [Option.ite_none_left_eq_some, ← LoopHead.tooLong_iff] at h
    obtain ⟨hlong, hitems⟩ := h
    obtain rfl : LoopItem.range step first last = items := by
      rw [LoopItem.range, filter_range hstep]
      exact Option.some.inj hitems
    rw [itemsFor, LoopHead.source, hdata]
    dsimp only
    rw [if_neg hlong]
    exact fun _ _ => rfl
  | expression source =>
    rw [LoopHead.candidates?_of_expression hdata hstep] at h
    have hvalue := yields_evaluate closed_ne_awaits.toRaisable scope source
    rw [itemsFor, LoopHead.source, hdata]
    simp only [evaluateEach, bind_assoc, pure_bind]
    refine hvalue.coincide_bind fun v hv s _ => ?_
    rw [hv, Option.bind_some] at h
    rw [h, pure_bind]

/-- A loop with nothing to run over fails. -/
lemma exec_itemsFor_none {l : LoopHead} {step : Nat} (hstep : 0 < step) {scope : Scope}
    (h : l.candidates? scope.context step = none) {s : Store} (hs : s.memo.Sound) :
    ∃ f s', exec (itemsFor scope l step) s = (.error (.failed (.ofFault f)), s') := by
  cases hdata : l.data with
  | range first last =>
    rw [LoopHead.candidates?, hdata] at h
    dsimp only at h
    split at h
    · rename_i hlong
      rw [itemsFor, hdata]
      dsimp only
      rw [if_pos ((LoopHead.tooLong_iff _ _).2 hlong)]
      exact ⟨_, _, rfl⟩
    · cases h
  | expression source =>
    rw [LoopHead.candidates?_of_expression hdata hstep] at h
    rw [itemsFor, hdata]
    dsimp only
    cases hv : valueOf? scope.context source with
    | none =>
      obtain ⟨f, s', hrun⟩ := exec_evaluate_none hs hv
      exact ⟨f, s', by rw [exec_bind, hrun]⟩
    | some v =>
      rw [hv, Option.bind_some] at h
      obtain ⟨t, -, hrun⟩ := (gets_evaluate hv).exists_exec_bind hs _
      rw [hrun, h]
      exact ⟨_, t, rfl⟩

end

/-! ### Rendering -/

/-- The scopes for the items of a loop. -/
def LoopHead.scopes (l : LoopHead) (scope : Scope) (items : List LoopItem) : List Scope :=
  items.map fun item => scope.extend (item.bindings l)

section

variable {n : Node} {l : LoopHead} {step : Nat} {scope : Scope} {items : List LoopItem} {s : Store}

/-- A step counts over values only, where it is a number greater than zero. -/
lemma Node.LoopsOver.step_eq (h : n.LoopsOver l step) :
    match l.kind, n.attributes.get? "step" with
    | .values, some written => Text.index? (Text.trim written) = some step ∧ 0 < step
    | _, _ => step = 1 := by
  have hgives : Gives (loopStep l.kind (n.attributes.get? "step")) fun k =>
      match l.kind, n.attributes.get? "step" with
      | .values, some written => Text.index? (Text.trim written) = some k ∧ 0 < k
      | _, _ => k = 1 := by
    unfold loopStep
    cases l.kind with
    | keys => exact gives_pure rfl
    | values =>
      cases n.attributes.get? "step" with
      | none => exact gives_pure rfl
      | some written =>
        dsimp only
        split
        · rename_i k hk
          exact gives_pure (by simpa using Option.filter_eq_some_iff.1 hk)
        · exact Render.gives_misuse _ _ _
  rw [h.step] at hgives
  exact hgives ⟨.empty 0, .empty, .empty, []⟩ step _ rfl

lemma Node.LoopsOver.step_pos (h : n.LoopsOver l step) : 0 < step := by
  have hstep := h.step_eq
  split at hstep
  · exact hstep.2
  · omega

lemma LoopHead.mem_candidates?_range (hstep : 0 < step) {c : Context} {first last : Nat}
    (hdata : l.data = .range first last) (h : l.candidates? c step = some items)
    {item : LoopItem} (hitem : item ∈ items) :
    ∃ i, item = ⟨.ofNat i, .ofNat (first + i)⟩ ∧ first + i ≤ last := by
  rw [candidates?, hdata] at h
  dsimp only at h
  rw [Option.ite_none_left_eq_some] at h
  obtain ⟨-, hitems⟩ := h
  rw [← Option.some.inj hitems] at hitem
  obtain ⟨i, hi, rfl⟩ := List.mem_map.1 hitem
  rw [← filter_range hstep] at hi
  have hlt := List.mem_range.1 (List.mem_of_mem_filter hi)
  exact ⟨i, rfl, by omega⟩

/-- A loop evaluates what it depends on, and then it knows what to render. -/
lemma Node.LoopsOver.coincide_loopScopes (h : n.LoopsOver l step)
    (hitems : l.candidates? scope.context step = some items) :
    Coincide (loopScopes n scope)
      (evaluateEach (l.source scope ++ conditions (n.attributes.get? "break")
        (n.attributes.get? "continue") (l.scopes scope items)) >>= fun _ =>
          pure (chosen (n.attributes.get? "break") (n.attributes.get? "continue")
            (l.scopes scope items))) := by
  rw [h.loopScopes_eq, evaluateEach_append, bind_assoc]
  refine (coincide_itemsFor_bind h.step_pos hitems _).trans ?_
  exact (yields_evaluateEach closed_ne_awaits.toRaisable _).coincide_bind fun _ _ =>
    coincide_chooseFrom _ _ _ []

lemma Node.LoopsOver.exec_loopScopes_none (h : n.LoopsOver l step)
    (hitems : l.candidates? scope.context step = none) (hs : s.memo.Sound) :
    ∃ f s', exec (loopScopes n scope) s = (.error (.failed (.ofFault f)), s') := by
  obtain ⟨f, s', hrun⟩ := exec_itemsFor_none h.step_pos hitems hs
  exact ⟨f, s', by rw [h.loopScopes_eq, exec_bind, hrun]⟩

/-- Only a loop whose expression has a value has candidates. -/
lemma LoopHead.valueOf?_source (hstep : 0 < step)
    (h : l.candidates? scope.context step = some items) {p : Text × Scope}
    (hp : p ∈ l.source scope) : valueOf? p.2.context p.1 ≠ none := by
  intro hnone
  unfold source at hp
  cases hdata : l.data with
  | range first last =>
    rw [hdata] at hp
    exact absurd hp List.not_mem_nil
  | expression source =>
    rw [hdata, List.mem_singleton] at hp
    subst hp
    rw [candidates?_of_expression hdata hstep, hnone] at h
    cases h

/-- After the conditions, a loop renders its children in the scopes that are chosen. -/
lemma Node.LoopsOver.exec_renderLoop (h : n.LoopsOver l step)
    (hitems : l.candidates? scope.context step = some items) (hs : s.memo.Sound) (walk : Walk)
    (t : Template) :
    exec (renderLoop walk t n scope) s =
      match exec (evaluateEach (l.source scope ++ conditions (n.attributes.get? "break")
        (n.attributes.get? "continue") (l.scopes scope items))) s with
      | (.ok (), s') => exec (renderIn walk t n.children (chosen (n.attributes.get? "break")
          (n.attributes.get? "continue") (l.scopes scope items))) s'
      | (.error stop, s') => (.error stop, s') := by
  rw [renderLoop, exec_bind, h.coincide_loopScopes hitems s hs, exec_bind]
  cases exec (evaluateEach _) s with
  | mk r s' => cases r <;> rfl

end

/-- What parts give is known from what each of them gives in turn. -/
lemma Node.exec_renderIn_ok_iff {walk : Walk} {t : Template} {body : List Node}
    {scopes : List Scope} {s u : Store} {out : Text} (hs : s.memo.Sound)
    (hw : ∀ scope ∈ scopes, Yields (· ≠ .awaits []) (walk t body scope) fun _ => True) :
    exec (renderIn walk t body scopes) s = (.ok out, u) ↔
      ∃ parts, InTurn (walk t body) scopes parts s u ∧ out = parts.flatten := by
  rw [renderIn, bind_pure_comp, exec_map]
  constructor
  · intro h
    rcases hparts : exec (Render.fanOut (fun scope => walk t body scope) scopes) s with
      ⟨_ | parts, u'⟩
    · rw [hparts] at h
      cases h
    · rw [hparts] at h
      cases h
      exact ⟨parts, inTurn_of_fanOut hs hw hparts, rfl⟩
  · rintro ⟨parts, hturn, rfl⟩
    rw [hturn.exec_fanOut]
    rfl

/-- **A loop renders its items in order, up to the first break and without those to be skipped.**
Its candidates and their variables are as written. All conditions it comes to are evaluated before
any child is rendered, `break` before `continue` for each item and none behind a break; if one has
no value the loop fails, whatever its children are. -/
theorem renderLoop_in_turn (setup : Setup) (depth : Nat) (t : Template) (n : Node) (l : LoopHead)
    (step : Nat) (scope : Scope) (s : Store) (h : n.LoopsOver l step) (hs : s.memo.Sound) :
    (∀ a b first last, Text.Counts a first → Text.Counts b last →
      LoopHead.data? .values (a ++ '-' :: b) = some (.range first last) ∧
      LoopHead.data? .values b = some (.range 0 last)) ∧
    (match l.kind, n.attributes.get? "step" with
      | .values, some written => Text.index? (Text.trim written) = some step ∧ 0 < step
      | _, _ => step = 1) ∧
    (∀ first last, l.data = .range first last → first < 2 ^ 63 ∧ last < 2 ^ 63 ∧
      (l.candidates? scope.context step = none ↔ 100000 < last + 1 - first) ∧
      ∀ items ∈ l.candidates? scope.context step, ∀ item ∈ items,
        ∃ i, item = ⟨.ofNat i, .ofNat (first + i)⟩ ∧ first + i ≤ last) ∧
    (∀ (item : LoopItem) x, (scope.extend (item.bindings l)).context.get? x =
      if l.key = some x then some item.key
      else if l.value = x then some (item.bound l) else scope.context.get? x) ∧
    (l.candidates? scope.context step = none → ∃ f s', ∀ walk,
      exec (Node.renderLoop walk t n scope) s = (.error (.failed (.ofFault f)), s')) ∧
    ∀ items, l.candidates? scope.context step = some items →
      let stop := n.attributes.get? "break"
      let skip := n.attributes.get? "continue"
      let scopes := l.scopes scope items
      let tests := conditions stop skip scopes
      ((∃ p ∈ tests, valueOf? p.2.context p.1 = none) → ∃ f s',
        exec (evaluateEach (l.source scope ++ tests)) s = (.error (.failed (.ofFault f)), s') ∧
        ∀ walk, exec (Node.renderLoop walk t n scope) s = (.error (.failed (.ofFault f)), s')) ∧
      ((∀ p ∈ tests, valueOf? p.2.context p.1 ≠ none) → ∃ s',
        exec (evaluateEach (l.source scope ++ tests)) s = (.ok (), s') ∧
        (∀ walk, exec (Node.renderLoop walk t n scope) s =
          exec (Node.renderIn walk t n.children (chosen stop skip scopes)) s') ∧
        ∀ out u, exec (Node.renderLoop (walk setup depth) t n scope) s = (.ok out, u) ↔
          ∃ parts, InTurn (walk setup depth t n.children) (chosen stop skip scopes) parts s' u ∧
            out = parts.flatten) := by
  refine ⟨fun a b first last ha hb => ⟨?_, ?_⟩, h.step_eq, fun first last hdata => ?_,
    fun item x => l.get?_scope scope item x, fun hnone => ?_,
    fun items hitems => ⟨?_, fun htests => ?_⟩⟩
  · exact LoopHead.data?_values (by simp) (LoopHead.range?_of_counts_hyphen ha hb)
  · exact LoopHead.data?_values hb.ne_nil (LoopHead.range?_of_counts hb)
  · obtain ⟨on, -, hparse⟩ := Option.bind_eq_some_iff.1 h.head
    obtain ⟨hfirst, hlast⟩ := LoopHead.lt_of_parse? hparse hdata
    refine ⟨hfirst, hlast, ?_, fun items hitems item hitem =>
      LoopHead.mem_candidates?_range h.step_pos hdata hitems hitem⟩
    rw [LoopHead.candidates?, hdata]
    refine ⟨fun hnone => ?_, fun hlong => if_pos hlong⟩
    by_contra hshort
    exact absurd (hnone.symm.trans (if_neg hshort)) nofun
  · obtain ⟨f, s', hrun⟩ := h.exec_loopScopes_none hnone hs
    exact ⟨f, s', fun walk => by rw [Node.renderLoop, exec_bind, hrun]⟩
  · rintro ⟨p, hp, hnone⟩
    obtain ⟨f, s', hrun⟩ :=
      exec_evaluateEach_none ⟨p, List.mem_append_right (l.source scope) hp, hnone⟩ s hs
    exact ⟨f, s', hrun, fun walk => by rw [h.exec_renderLoop hitems hs, hrun]⟩
  · obtain ⟨hok, hmemo⟩ := gets_evaluateEach (fun p hp => (List.mem_append.1 hp).elim
      (LoopHead.valueOf?_source h.step_pos hitems) (htests p)) s hs
    rcases hrun : exec (evaluateEach (l.source scope ++ conditions (n.attributes.get? "break")
      (n.attributes.get? "continue") (l.scopes scope items))) s with ⟨r, s'⟩
    rw [hrun] at hok hmemo
    obtain rfl : r = .ok () := hok
    have hloop : ∀ walk, exec (Node.renderLoop walk t n scope) s = _ := fun walk => by
      rw [h.exec_renderLoop hitems hs, hrun]
    refine ⟨s', rfl, hloop, fun out u => ?_⟩
    rw [hloop]
    exact Node.exec_renderIn_ok_iff hmemo fun _ _ => Node.yields_walk setup depth _ _ _

/-- Every second number from two on, without the second and up to the fourth of them. -/
theorem renderLoop_in_turn_range :
    let n : Node := .element ⟨"t-for", [("on", "i, k of 2-9"), ("step", " 2 "),
      ("break", "i > 7"), ("continue", "k == 2")], [], 1, false⟩ true
      [.leaf .text "\x7b\x7b k \x7d\x7d:\x7b\x7b i \x7d\x7d," 1]
    let t : Template := ⟨none, [n]⟩
    let l : LoopHead := ⟨"i", some "k", .values, .range 2 9⟩
    let scope : Scope := .ofContext ⟨[[("k", .null)]]⟩
    let setup : Setup := ⟨Library.empty.loader, false, false⟩
    let s : Store := ⟨.empty 0, .empty, .empty, []⟩
    let items : List LoopItem := [⟨.ofNat 0, .ofNat 2⟩, ⟨.ofNat 2, .ofNat 4⟩,
      ⟨.ofNat 4, .ofNat 6⟩, ⟨.ofNat 6, .ofNat 8⟩]
    n.LoopsOver l 2 ∧ s.memo.Sound ∧ l.candidates? scope.context 2 = some items ∧
    ∃ s' u parts, InTurn (walk setup 9 t n.children)
      (chosen (some "i > 7") (some "k == 2") (l.scopes scope items)) parts s' u ∧
      parts.flatten = ("0:2,4:6," : Text) := by
  intro n t l scope setup s items
  have hloops : n.LoopsOver l 2 := ⟨by decide +kernel, by with_unfolding_all rfl⟩
  have hitems : l.candidates? scope.context 2 = some items := by with_unfolding_all rfl
  obtain ⟨-, -, -, -, -, hruns⟩ :=
    renderLoop_in_turn setup 9 t n l 2 scope s hloops (Memo.sound_empty 0)
  obtain ⟨-, hrenders⟩ := hruns items hitems
  obtain ⟨s', -, -, hturn⟩ := hrenders (by decide +kernel)
  have hout : (exec (Node.renderLoop (walk setup 9) t n scope) s).1.toOption =
      some "0:2,4:6," := by decide +kernel
  rcases hrun : exec (Node.renderLoop (walk setup 9) t n scope) s with ⟨_ | out, u⟩
  · rw [hrun] at hout
    cases hout
  · rw [hrun] at hout
    obtain ⟨parts, hparts, hflat⟩ := (hturn out u).1 hrun
    exact ⟨hloops, Memo.sound_empty 0, hitems, s', u, parts, hparts,
      hflat.symm.trans (Option.some.inj hout)⟩

end HtmlTemplate
