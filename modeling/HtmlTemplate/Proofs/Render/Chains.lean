import Mathlib.Data.List.SplitBy
import HtmlTemplate.Proofs.Render.Agree
import HtmlTemplate.Render.Element

/-!
Branches by chains.

The elements among siblings fall into chains: an elif or an else goes on with the if or elif that
is the element just before it, and any other element begins anew. A chain is decided by itself.
Its first branch whose condition holds is taken, and no condition after it is looked at; if none
holds, the else is taken. Going through the siblings with a state decides the same.
-/

namespace HtmlTemplate

namespace Node

/-- Whether a node is a branch with a condition. -/
def isCondition (n : Node) : Bool :=
  match Directive.ofTag? n.tag with
  | some .ifBranch | some .elifBranch => true
  | _ => false

/-- Whether a node is a branch that goes on with others. -/
def isAlternative (n : Node) : Bool :=
  match Directive.ofTag? n.tag with
  | some .elifBranch | some .elseBranch => true
  | _ => false

/-- Whether the second of two elements in a row goes on with the chain of the first. -/
def goesOn (a b : Node) : Bool := a.isCondition && b.isAlternative

end Node

/-- The chains of a sibling list. An element that is no branch is one by itself. -/
def chains (ns : List Node) : List (List Node) := (ns.filter Node.isElement).splitBy Node.goesOn

variable (t : Template) (scope : Scope)

/-- The position of the first branch whose condition holds, or the number of branches if none
does. The conditions after it are not evaluated. -/
def firstHolding : List Node → Render Nat
  | [] => return 0
  | n :: ns => do
    if ← Render.within (t.place n) (branchHolds scope n) then return 0
    else return (← firstHolding ns) + 1

/-- Fails at the first branch without a condition. -/
def requireConditions : List Node → Render Unit
  | [] => return ()
  | n :: ns => do
    let _ ← Render.within (t.place n) (demand "on" n)
    requireConditions ns

/-- What is said of the branches of a chain, if the one at a position is taken. -/
def verdicts (length taken : Nat) : List (Option Bool) :=
  (List.range length).map fun i => some (i == taken)

/-- Decides a chain. An else stands behind all conditions, so it is taken if none of them holds. -/
def decideChain (c : List Node) : Render (List (Option Bool)) :=
  match c with
  | [] => return []
  | n :: _ =>
    match Directive.ofTag? n.tag with
    | some .ifBranch => do
      let conditions := c.filter Node.isCondition
      let taken ← firstHolding t scope conditions
      requireConditions t (conditions.drop (taken + 1))
      return verdicts c.length taken
    | some .elifBranch => Render.within (t.place n) do
      let _ ← demand "on" n
      strayBranch n
    | some .elseBranch => Render.within (t.place n) (strayBranch n)
    | _ => return [none]

/-- Gives the elements among siblings what is said of them, and all other siblings nothing. -/
def spread : List Node → List (Option Bool) → List (Option Bool)
  | [], _ => []
  | n :: ns, ds =>
    if n.isElement then ds.headD none :: spread ns ds.tail else none :: spread ns ds

/-- Decides the siblings chain by chain. -/
def decideByChains (ns : List Node) : Render (List (Option Bool)) := do
  return spread ns (← (chains ns).mapM (decideChain t scope)).flatten

variable {t scope} {n : Node} {ns c rest : List Node} {state : BranchState}

/-! ### One element at a time -/

lemma decideFrom_cons (hn : n.isElement) (state : BranchState) (ns : List Node) :
    decideFrom t scope state (n :: ns) =
      Render.within (t.place n) (decideElement scope state n) >>= fun r =>
        (r.1 :: ·) <$> decideFrom t scope r.2 ns := by
  rw [decideFrom, if_pos hn]
  rfl

lemma decideFrom_leaf (hn : n.isElement = false) (state : BranchState) (ns : List Node) :
    decideFrom t scope state (n :: ns) = (none :: ·) <$> decideFrom t scope state ns := by
  rw [decideFrom, if_neg (by simp [hn])]
  rfl

/-- Siblings that are no elements do not matter. -/
lemma decideFrom_filter (state : BranchState) (ns : List Node) :
    decideFrom t scope state ns =
      spread ns <$> decideFrom t scope state (ns.filter Node.isElement) := by
  induction ns generalizing state with
  | nil => rfl
  | cons n ns ih =>
    by_cases hn : n.isElement
    · rw [List.filter_cons_of_pos hn, decideFrom_cons hn, decideFrom_cons hn, map_bind]
      refine congrArg _ (funext fun r => ?_)
      rw [ih, Functor.map_map, Functor.map_map]
      simp [spread, hn]
    · rw [List.filter_cons_of_neg hn, decideFrom_leaf (by simpa using hn), ih, Functor.map_map]
      simp [spread, hn]

/-! ### One kind of branch at a time -/

lemma decideElement_if (hn : Directive.ofTag? n.tag = some .ifBranch) (state : BranchState) :
    decideElement scope state n =
      (fun b => (some b, .inside b)) <$> branchHolds scope n := by
  unfold decideElement
  rw [hn]
  rfl

lemma decideElement_elif_false (hn : Directive.ofTag? n.tag = some .elifBranch) :
    decideElement scope (.inside false) n =
      (fun b => (some b, .inside b)) <$> branchHolds scope n := by
  unfold decideElement
  rw [hn]
  rfl

lemma decideElement_elif_true (hn : Directive.ofTag? n.tag = some .elifBranch) :
    decideElement scope (.inside true) n =
      (fun _ => (some false, .inside true)) <$> demand "on" n := by
  unfold decideElement
  rw [hn]
  rfl

lemma decideElement_elif_outside (hn : Directive.ofTag? n.tag = some .elifBranch) :
    decideElement scope .outside n = demand "on" n >>= fun _ => strayBranch n := by
  unfold decideElement
  rw [hn]

lemma decideElement_else_outside (hn : Directive.ofTag? n.tag = some .elseBranch) :
    decideElement scope .outside n = strayBranch n := by
  unfold decideElement
  rw [hn]

lemma decideElement_else (hn : Directive.ofTag? n.tag = some .elseBranch) (taken : Bool) :
    decideElement scope (.inside taken) n = pure (some !taken, .outside) := by
  unfold decideElement
  rw [hn]

/-- Where the list stands does not matter to an element that begins anew. -/
lemma decideElement_eq (hn : n.isAlternative = false) (state : BranchState) :
    decideElement scope state n = decideElement scope .outside n := by
  unfold Node.isAlternative at hn
  unfold decideElement
  cases h : Directive.ofTag? n.tag with
  | none => rfl
  | some d =>
    rw [h] at hn
    cases d with
    | elifBranch | elseBranch => cases hn
    | _ => rfl

lemma decideFrom_eq (helement : ∀ m ∈ ns, m.isElement)
    (hns : ∀ m ∈ ns.head?, m.isAlternative = false) (state : BranchState) :
    decideFrom t scope state ns = decideFrom t scope .outside ns := by
  cases ns with
  | nil => rfl
  | cons n ns =>
    rw [decideFrom_cons (helement n List.mem_cons_self), decideElement_eq (hns n rfl),
      ← decideFrom_cons (helement n List.mem_cons_self)]

/-- An alternative is an elif or an else. -/
lemma Node.isAlternative_iff : n.isAlternative ↔
    Directive.ofTag? n.tag = some .elifBranch ∨ Directive.ofTag? n.tag = some .elseBranch := by
  unfold isAlternative
  split <;> simp_all

lemma Node.isCondition_iff : n.isCondition ↔
    Directive.ofTag? n.tag = some .ifBranch ∨ Directive.ofTag? n.tag = some .elifBranch := by
  unfold isCondition
  split <;> simp_all

/-- An element that is no branch. -/
lemma Node.no_branch (hcondition : ¬n.isCondition) (halternative : ¬n.isAlternative) :
    Directive.ofTag? n.tag ≠ some .ifBranch ∧ Directive.ofTag? n.tag ≠ some .elifBranch ∧
      Directive.ofTag? n.tag ≠ some .elseBranch := by
  rw [isCondition_iff, not_or] at hcondition
  rw [isAlternative_iff, not_or] at halternative
  exact ⟨hcondition.1, hcondition.2, halternative.2⟩

lemma decideElement_other (hcondition : ¬n.isCondition) (halternative : ¬n.isAlternative)
    (state : BranchState) : decideElement scope state n = pure (none, .outside) := by
  have htag := Node.no_branch hcondition halternative
  unfold decideElement
  split <;> simp_all

lemma decideChain_other (hcondition : ¬n.isCondition) (halternative : ¬n.isAlternative) :
    decideChain t scope [n] = pure [none] := by
  have htag := Node.no_branch hcondition halternative
  unfold decideChain
  split <;> simp_all

/-! ### Chains -/

/-- Nothing goes on with an element that has no condition. -/
lemma eq_nil_of_isChain (hchain : (n :: c).IsChain fun a b => Node.goesOn a b)
    (hn : ¬n.isCondition) : c = [] := by
  cases c with
  | nil => rfl
  | cons m c =>
    have hgoes := (List.isChain_cons_cons.1 hchain).1
    simp [Node.goesOn, hn] at hgoes

/-- The elements `c` are all that goes on with a chain after `n`, when `rest` is behind them. -/
structure Completes (n : Node) (c rest : List Node) : Prop where
  condition : n.isCondition
  chain : (n :: c).IsChain fun a b => Node.goesOn a b
  elements : ∀ m ∈ c ++ rest, m.isElement
  ends : ∀ x ∈ (n :: c).getLast?, ∀ y ∈ rest.head?, Node.goesOn x y = false

lemma Completes.rest_eq (h : Completes n [] rest) (state : BranchState) :
    decideFrom t scope state rest = decideFrom t scope .outside rest := by
  refine decideFrom_eq h.elements (fun m hm => ?_) state
  have hends := h.ends n rfl m hm
  simpa [Node.goesOn, h.condition] using hends

lemma Completes.next {m : Node} (h : Completes n (m :: c) rest) (hm : m.isCondition) :
    Completes m c rest where
  condition := hm
  chain := (List.isChain_cons_cons.1 h.chain).2
  elements := fun x hx => h.elements x (by simp_all)
  ends := fun x hx => h.ends x (by simpa using hx)

lemma Completes.alternative {m : Node} (h : Completes n (m :: c) rest) :
    Directive.ofTag? m.tag = some .elifBranch ∨
      Directive.ofTag? m.tag = some .elseBranch ∧ c = [] := by
  have hm : m.isAlternative := by
    have hgoes := (List.isChain_cons_cons.1 h.chain).1
    simp_all [Node.goesOn]
  rcases Node.isAlternative_iff.1 hm with helif | helse
  · exact .inl helif
  · exact .inr ⟨helse, eq_nil_of_isChain (List.isChain_cons_cons.1 h.chain).2
      (by simp [Node.isCondition, helse])⟩

lemma filter_cons_condition {m : Node} (hm : Directive.ofTag? m.tag = some .elifBranch) :
    (m :: c).filter Node.isCondition = m :: c.filter Node.isCondition :=
  List.filter_cons_of_pos (Node.isCondition_iff.2 (.inr hm))

lemma filter_else {m : Node} (hm : Directive.ofTag? m.tag = some .elseBranch) :
    [m].filter Node.isCondition = [] := by
  simp [Node.isCondition, hm]

lemma requireConditions_cons (n : Node) (ns : List Node) :
    requireConditions t (n :: ns) =
      Render.within (t.place n) (demand "on" n) >>= fun _ => requireConditions t ns := rfl

lemma firstHolding_cons (n : Node) (ns : List Node) :
    firstHolding t scope (n :: ns) =
      Render.within (t.place n) (branchHolds scope n) >>= fun b =>
        if b then pure 0 else (· + 1) <$> firstHolding t scope ns := rfl

lemma verdicts_zero (length : Nat) :
    verdicts (length + 1) 0 = some true :: List.replicate length (some false) := by
  simp [verdicts, List.range_succ_eq_map, Function.comp_def]

lemma verdicts_succ (length taken : Nat) :
    verdicts (length + 1) (taken + 1) = some false :: verdicts length taken := by
  simp [verdicts, List.range_succ_eq_map, Function.comp_def]

/-- Once a branch is taken, the others of its chain only must have conditions. -/
lemma Completes.decideFrom_true (h : Completes n c rest) :
    decideFrom t scope (.inside true) (c ++ rest) =
      requireConditions t (c.filter Node.isCondition) >>= fun _ =>
        (List.replicate c.length (some false) ++ ·) <$> decideFrom t scope .outside rest := by
  induction c generalizing n with
  | nil =>
    rw [List.nil_append, h.rest_eq]
    simp [requireConditions]
  | cons m c ih =>
    rw [List.cons_append, decideFrom_cons (h.elements m List.mem_cons_self)]
    rcases h.alternative with hm | ⟨hm, rfl⟩
    · rw [decideElement_elif_true hm, Render.within_map, bind_map_left,
        ih (h.next (Node.isCondition_iff.2 (.inr hm))), filter_cons_condition hm,
        requireConditions_cons, bind_assoc]
      simp [Functor.map_map, List.replicate_succ]
    · rw [decideElement_else hm, filter_else hm, Render.within_pure]
      simp [requireConditions]

/-- As long as no branch is taken, the first whose condition holds is, or else the else. -/
lemma Completes.decideFrom_false (h : Completes n c rest) :
    decideFrom t scope (.inside false) (c ++ rest) =
      firstHolding t scope (c.filter Node.isCondition) >>= fun k =>
        requireConditions t ((c.filter Node.isCondition).drop (k + 1)) >>= fun _ =>
          (verdicts c.length k ++ ·) <$> decideFrom t scope .outside rest := by
  induction c generalizing n with
  | nil =>
    rw [List.nil_append, h.rest_eq]
    simp [requireConditions, firstHolding, verdicts]
  | cons m c ih =>
    rw [List.cons_append, decideFrom_cons (h.elements m List.mem_cons_self)]
    rcases h.alternative with hm | ⟨hm, rfl⟩
    · have hnext := h.next (Node.isCondition_iff.2 (.inr hm))
      rw [decideElement_elif_false hm, Render.within_map, bind_map_left, filter_cons_condition hm,
        firstHolding_cons, bind_assoc]
      refine congrArg _ (funext fun b => ?_)
      cases b with
      | true => simp [hnext.decideFrom_true, verdicts_zero]
      | false => simp [ih hnext, verdicts_succ]
    · rw [decideElement_else hm, filter_else hm, Render.within_pure]
      simp [requireConditions, firstHolding, verdicts]

/-- A chain that begins with an if. -/
lemma Completes.decideFrom_if (h : Completes n c rest) (hn : n.isElement)
    (hif : Directive.ofTag? n.tag = some .ifBranch) :
    decideFrom t scope .outside (n :: (c ++ rest)) =
      decideChain t scope (n :: c) >>= fun ds =>
        (ds ++ ·) <$> decideFrom t scope .outside rest := by
  have hdecide : decideChain t scope (n :: c) =
      firstHolding t scope (n :: c.filter Node.isCondition) >>= fun k =>
        requireConditions t ((n :: c.filter Node.isCondition).drop (k + 1)) >>= fun _ =>
          pure (verdicts (n :: c).length k) := by
    rw [decideChain, hif, List.filter_cons_of_pos h.condition]
  rw [decideFrom_cons hn, decideElement_if hif, Render.within_map, bind_map_left, hdecide,
    firstHolding_cons, bind_assoc, bind_assoc]
  refine congrArg _ (funext fun b => ?_)
  cases b with
  | true => simp [h.decideFrom_true, verdicts_zero]
  | false => simp [h.decideFrom_false, verdicts_succ]

/-- A chain that begins with an alternative fails, whatever follows. -/
lemma decideFrom_stray (hn : n.isElement) (halternative : n.isAlternative) :
    decideFrom t scope .outside (n :: (c ++ rest)) =
      decideChain t scope (n :: c) >>= fun ds =>
        (ds ++ ·) <$> decideFrom t scope .outside rest := by
  rw [decideFrom_cons hn]
  rcases Node.isAlternative_iff.1 halternative with helif | helse
  · have hdecide : decideChain t scope (n :: c) =
        Render.within (t.place n) (demand "on" n >>= fun _ => strayBranch n) := by
      rw [decideChain, helif]
    rw [hdecide, decideElement_elif_outside helif]
    exact (Render.within_fail_bind _ _ _ _).trans (Render.within_fail_bind _ _ _ _).symm
  · have hdecide : decideChain t scope (n :: c) =
        Render.within (t.place n) (pure () >>= fun _ => strayBranch n) := by
      rw [decideChain, helse, pure_bind]
    rw [hdecide, decideElement_else_outside helse, ← pure_bind () fun _ => strayBranch n]
    exact (Render.within_fail_bind _ _ _ _).trans (Render.within_fail_bind _ _ _ _).symm

/-- The chain at the front is decided by itself. -/
lemma decideFrom_chain (hc : c ≠ []) (hchain : c.IsChain fun a b => Node.goesOn a b)
    (helements : ∀ m ∈ c ++ rest, m.isElement)
    (hends : ∀ x ∈ c.getLast?, ∀ y ∈ rest.head?, Node.goesOn x y = false) :
    decideFrom t scope .outside (c ++ rest) =
      decideChain t scope c >>= fun ds => (ds ++ ·) <$> decideFrom t scope .outside rest := by
  cases c with
  | nil => exact absurd rfl hc
  | cons n c =>
    have hn := helements n List.mem_cons_self
    by_cases halternative : n.isAlternative
    · exact decideFrom_stray hn halternative
    · by_cases hcondition : n.isCondition
      · have hall : Completes n c rest :=
          ⟨hcondition, hchain, fun m hm => helements m (by simp_all), hends⟩
        refine hall.decideFrom_if hn ?_
        rcases Node.isCondition_iff.1 hcondition with hif | helif
        · exact hif
        · exact absurd (Node.isAlternative_iff.2 (.inl helif)) halternative
      · obtain rfl := eq_nil_of_isChain hchain hcondition
        rw [List.singleton_append, decideFrom_cons hn, decideElement_other hcondition halternative,
          decideChain_other hcondition halternative, Render.within_pure, pure_bind, pure_bind]
        rfl

/-- **Siblings are decided chain by chain.** -/
lemma decideFrom_chains (cs : List (List Node)) (hne : [] ∉ cs)
    (hchain : ∀ c ∈ cs, c.IsChain fun a b => Node.goesOn a b)
    (hends : cs.IsChain fun a b => ∃ ha hb, Node.goesOn (a.getLast ha) (b.head hb) = false)
    (helements : ∀ m ∈ cs.flatten, m.isElement) :
    decideFrom t scope .outside cs.flatten =
      List.flatten <$> cs.mapM (decideChain t scope) := by
  induction cs with
  | nil => simp [decideFrom]
  | cons c cs ih =>
    rw [List.mem_cons, not_or] at hne
    have hc : c ≠ [] := fun h => hne.1 h.symm
    rw [List.flatten_cons] at helements ⊢
    have hrest := ih hne.2 (fun x hx => hchain x (List.mem_cons_of_mem c hx))
      hends.tail fun m hm => helements m (List.mem_append_right c hm)
    rw [decideFrom_chain hc (hchain c List.mem_cons_self) helements, hrest, List.mapM_cons,
      map_bind]
    · simp
    · intro x hx y hy
      cases cs with
      | nil => simp at hy
      | cons d cs =>
        obtain ⟨ha, hb, hgoes⟩ := (List.isChain_cons_cons.1 hends).1
        rw [List.flatten_cons, List.head?_append_of_ne_nil _ hb, List.head?_eq_some_head hb] at hy
        rw [List.getLast?_eq_some_getLast ha] at hx
        cases hx
        cases hy
        exact hgoes

lemma decideBranches_eq (t : Template) (scope : Scope) (ns : List Node) :
    decideBranches t scope ns = decideByChains t scope ns := by
  have hflat : (chains ns).flatten = ns.filter Node.isElement := List.flatten_splitBy _ _
  have hdecide : decideFrom t scope .outside (chains ns).flatten =
      List.flatten <$> (chains ns).mapM (decideChain t scope) :=
    decideFrom_chains _ (List.nil_notMem_splitBy _ _)
      (fun c hc => List.isChain_of_mem_splitBy hc) (List.isChain_getLast_head_splitBy _ _)
      fun m hm => by
        rw [hflat] at hm
        exact (List.mem_filter.1 hm).2
  rw [decideBranches, decideFrom_filter, ← hflat, hdecide, Functor.map_map]
  simp [decideByChains]

/-! ### What a chain has taken -/

/-- What is said of a chain: at most one branch is taken, and exactly one if there is an else. -/
structure OneTaken (c : List Node) (ds : List (Option Bool)) : Prop where
  length_eq : ds.length = c.length
  count_le : ds.count (some true) ≤ 1
  count_eq : ∀ n ∈ c.getLast?, Directive.ofTag? n.tag = some .elseBranch → ds.count (some true) = 1

lemma count_verdicts (length taken : Nat) :
    (verdicts length taken).count (some true) = if taken < length then 1 else 0 := by
  induction length generalizing taken with
  | zero => rfl
  | succ length ih =>
    cases taken with
    | zero => simp [verdicts_zero, List.count_replicate]
    | succ taken => simp [verdicts_succ, ih]

lemma gives_firstHolding (ns : List Node) : Gives (firstHolding t scope ns) (· ≤ ns.length) := by
  induction ns with
  | nil => exact gives_pure (Nat.le_refl 0)
  | cons n ns ih =>
    rw [firstHolding_cons]
    refine gives_bind fun b => ?_
    cases b with
    | true => exact gives_pure (Nat.zero_le _)
    | false =>
      rw [← bind_pure_comp]
      exact ih.bind fun k hk => gives_pure (Nat.succ_le_succ hk)

lemma gives_decideChain (hchain : c.IsChain fun a b => Node.goesOn a b) :
    Gives (decideChain t scope c) (OneTaken c) := by
  unfold decideChain
  split
  · exact gives_pure ⟨rfl, by simp, by simp⟩
  · rename_i n c
    split
    · refine (gives_firstHolding _).bind fun k hk => ?_
      refine gives_bind fun _ => gives_pure ?_
      refine ⟨by simp [verdicts], ?_, fun m hm helse => ?_⟩
      · rw [count_verdicts]
        split <;> omega
      · have hm : m ∈ n :: c := List.mem_of_getLast? hm
        have hcount : ((n :: c).filter Node.isCondition).length < (n :: c).length :=
          List.length_filter_lt_length_iff_exists.2 ⟨m, hm, by simp [Node.isCondition, helse]⟩
        rw [count_verdicts, if_pos (by omega)]
    · exact Render.gives_within (gives_bind fun _ => Render.gives_misuse _ _ _) _
    · exact Render.gives_within (Render.gives_misuse _ _ _) _
    · rename_i hif helif helse
      obtain rfl := eq_nil_of_isChain hchain fun h => (Node.isCondition_iff.1 h).elim hif helif
      exact gives_pure ⟨rfl, by simp, fun m hm h => absurd (by simp_all) helse⟩

/-! ### Where the list stands -/

/-- What an element leaves behind: no chain unless it has a condition, and after a taken branch a
chain in which one is taken. -/
structure Leaves (n : Node) (taken : Option Bool) (state : BranchState) : Prop where
  outside : n.isCondition = false → state = .outside
  inside : n.isCondition → taken = some true → state = .inside true

lemma gives_decideElement (state : BranchState) :
    Gives (decideElement scope state n) fun r => Leaves n r.1 r.2 := by
  have hcondition := Node.isCondition_iff (n := n)
  unfold decideElement
  split
  · exact gives_bind fun b => gives_pure ⟨by simp_all, by simp_all⟩
  · exact gives_bind fun _ => Render.gives_misuse _ _ _
  · exact gives_bind fun _ => gives_pure ⟨by simp_all, by simp⟩
  · exact gives_bind fun b => gives_pure ⟨by simp_all, by simp_all⟩
  · exact Render.gives_misuse _ _ _
  · exact gives_pure ⟨fun _ => rfl, by simp_all⟩
  · exact gives_pure ⟨fun _ => rfl, by simp⟩

/-- One sibling was decided, in the store `s`, and those behind it are from the state `next` on. -/
structure Steps (t : Template) (scope : Scope) (state : BranchState) (n : Node) (s : Store)
    (d : Option Bool) (next : BranchState) (u : Store) : Prop where
  rest : ∀ ns, exec (decideFrom t scope state (n :: ns)) s =
    exec ((d :: ·) <$> decideFrom t scope next ns) u
  element : n.isElement → Leaves n d next
  leaf : n.isElement = false → d = none ∧ next = state

lemma exists_steps {s s' : Store} {bs : List (Option Bool)}
    (h : exec (decideFrom t scope state (n :: ns)) s = (.ok bs, s')) :
    ∃ d next u, Steps t scope state n s d next u := by
  by_cases hn : n.isElement
  · rw [decideFrom_cons hn, exec_bind] at h
    rcases hd : exec (Render.within (t.place n) (decideElement scope state n)) s with ⟨_ | r, u⟩
    · rw [hd] at h
      cases h
    · have hleaves := Render.gives_within (gives_decideElement state) _ s r u hd
      refine ⟨r.1, r.2, u, fun ns => ?_, fun _ => hleaves, by simp [hn]⟩
      rw [decideFrom_cons hn, exec_bind, hd]
  · rw [Bool.not_eq_true] at hn
    refine ⟨none, state, s, fun ns => ?_, by simp [hn], fun _ => ⟨rfl, rfl⟩⟩
    rw [decideFrom_leaf hn]

/-- Siblings were decided, and those behind them are from the state `next` on. -/
structure Resumes (t : Template) (scope : Scope) (state : BranchState) (before : List Node)
    (s : Store) (bs : List (Option Bool)) (next : BranchState) (s' : Store) : Prop where
  rest : ∀ ns, exec (decideFrom t scope state (before ++ ns)) s =
    exec ((bs ++ ·) <$> decideFrom t scope next ns) s'
  length : bs.length = before.length
  unchanged : before.filter Node.isElement = [] → next = state
  outside : ∀ m ∈ (before.filter Node.isElement).getLast?, m.isCondition = false → next = .outside
  inside : ∀ m ∈ before.getLast?, m.isCondition → bs.getLast? = some (some true) →
    next = .inside true

namespace Resumes

variable {before : List Node} {s u s' : Store} {d : Option Bool} {ds : List (Option Bool)}
  {next final : BranchState}

lemma nil (t : Template) (scope : Scope) (state : BranchState) (s : Store) :
    Resumes t scope state [] s [] state s where
  rest ns := by simp
  length := rfl
  unchanged _ := rfl
  outside := by simp
  inside := by simp

/-- What the last element leaves behind counts, and that is the first one if no other follows. -/
lemma cons_outside (hn : Steps t scope state n s d next u)
    (h : Resumes t scope next before u ds final s') {m : Node}
    (hm : m ∈ ((n :: before).filter Node.isElement).getLast?) (hcondition : m.isCondition = false) :
    final = .outside := by
  by_cases helement : n.isElement
  · rw [List.filter_cons_of_pos helement, List.getLast?_cons] at hm
    cases hm
    cases hlast : (before.filter Node.isElement).getLast? with
    | none =>
      rw [hlast] at hcondition
      rw [h.unchanged (List.getLast?_eq_none_iff.1 hlast)]
      exact (hn.element helement).outside hcondition
    | some l =>
      rw [hlast] at hcondition
      exact h.outside l hlast hcondition
  · rw [List.filter_cons_of_neg helement] at hm
    exact h.outside m hm hcondition

lemma cons_inside (hn : Steps t scope state n s d next u)
    (h : Resumes t scope next before u ds final s') {m : Node} (hm : m ∈ (n :: before).getLast?)
    (hcondition : m.isCondition) (hd : (d :: ds).getLast? = some (some true)) :
    final = .inside true := by
  rw [List.getLast?_cons] at hm hd
  cases hm
  cases before with
  | nil =>
    obtain rfl : ds = [] := List.length_eq_zero_iff.1 h.length
    obtain rfl : d = some true := by simpa using hd
    have helement : n.isElement := by
      by_contra helement
      cases (hn.leaf (by simpa using helement)).1
    rw [h.unchanged rfl]
    exact (hn.element helement).inside hcondition rfl
  | cons l before =>
    obtain ⟨e, es, rfl⟩ := List.exists_cons_of_length_eq_add_one h.length
    rw [List.getLast?_cons] at hcondition
    exact h.inside _ List.getLast?_cons hcondition (by simpa [List.getLast?_cons] using hd)

lemma cons (hn : Steps t scope state n s d next u)
    (h : Resumes t scope next before u ds final s') :
    Resumes t scope state (n :: before) s (d :: ds) final s' where
  rest ns := by
    rw [List.cons_append, hn.rest, exec_map, h.rest, exec_map, exec_map]
    rcases exec (decideFrom t scope final ns) s' with ⟨_ | es, v⟩ <;> rfl
  length := congrArg (· + 1) h.length
  unchanged hnil := by
    have helement : n.isElement = false := by
      by_contra helement
      rw [Bool.not_eq_false] at helement
      rw [List.filter_cons_of_pos helement] at hnil
      cases hnil
    rw [List.filter_cons_of_neg (by simp [helement])] at hnil
    rw [h.unchanged hnil, (hn.leaf helement).2]
  outside _ hm hcondition := cons_outside hn h hm hcondition
  inside _ hm hcondition hd := cons_inside hn h hm hcondition hd

end Resumes

/-- Siblings that were decided leave the list somewhere, from where those behind them are. -/
lemma exists_resumes {before : List Node} {s s' : Store} {bs : List (Option Bool)}
    (h : exec (decideFrom t scope state before) s = (.ok bs, s')) :
    ∃ next, Resumes t scope state before s bs next s' := by
  induction before generalizing state s bs with
  | nil =>
    cases h
    exact ⟨state, .nil t scope state _⟩
  | cons n before ih =>
    obtain ⟨d, next, u, hn⟩ := exists_steps h
    rw [hn.rest, exec_map] at h
    rcases hds : exec (decideFrom t scope next before) u with ⟨_ | ds, v⟩
    · rw [hds] at h
      cases h
    · rw [hds] at h
      cases h
      obtain ⟨final, hfinal⟩ := ih hds
      exact ⟨final, hfinal.cons hn⟩

/-! ### Branches that are skipped, and branches that are out of order -/

lemma Node.isElement_of_ofTag? {d : Directive} (h : Directive.ofTag? n.tag = some d) :
    n.isElement := by
  cases n with
  | leaf => cases h
  | element => rfl

/-- Two elifs, with whatever conditions. -/
structure BothElif (n n' : Node) : Prop where
  left : Directive.ofTag? n.tag = some .elifBranch
  right : Directive.ofTag? n'.tag = some .elifBranch
  leftOn : (n.attributes.get? "on").isSome
  rightOn : (n'.attributes.get? "on").isSome

lemma exists_demand {name : Text} (h : (n.attributes.get? name).isSome) :
    ∃ v, demand name n = pure v := by
  obtain ⟨v, hv⟩ := Option.isSome_iff_exists.1 h
  refine ⟨v, ?_⟩
  rw [demand, hv]

lemma decideFrom_skipped {between after : List Node} {n' : Node}
    (hbetween : ∀ x ∈ between, x.isElement → Directive.ofTag? x.tag = some .elifBranch)
    (hboth : BothElif n n') :
    decideFrom t scope (.inside true) (between ++ n :: after) =
      decideFrom t scope (.inside true) (between ++ n' :: after) := by
  induction between with
  | nil =>
    obtain ⟨v, hv⟩ := exists_demand hboth.leftOn
    obtain ⟨v', hv'⟩ := exists_demand hboth.rightOn
    rw [List.nil_append, List.nil_append, decideFrom_cons (Node.isElement_of_ofTag? hboth.left),
      decideFrom_cons (Node.isElement_of_ofTag? hboth.right), decideElement_elif_true hboth.left,
      decideElement_elif_true hboth.right, hv, hv', map_pure, map_pure, Render.within_pure,
      Render.within_pure, pure_bind]
  | cons x between ih =>
    have ih := ih fun y hy => hbetween y (List.mem_cons_of_mem x hy)
    rw [List.cons_append, List.cons_append]
    by_cases hx : x.isElement
    · rw [decideFrom_cons hx, decideFrom_cons hx,
        decideElement_elif_true (hbetween x List.mem_cons_self hx), Render.within_map,
        bind_map_left, bind_map_left, ih]
    · rw [Bool.not_eq_true] at hx
      rw [decideFrom_leaf hx, decideFrom_leaf hx, ih]

/-- An alternative that does not have an if or an elif as the element just before it. -/
structure StrayAfter (before : List Node) (n : Node) : Prop where
  alternative : n.isAlternative
  on : Directive.ofTag? n.tag = some .elifBranch → (n.attributes.get? "on").isSome
  stray : ∀ m ∈ (before.filter Node.isElement).getLast?, m.isCondition = false

/-- The error of a branch that is out of order. -/
def strayFailure (t : Template) (n : Node) : Failure :=
  ⟨.misuse .structuralOrder (n.tag ++ " must follow t-if or t-elif"), [t.place n]⟩

lemma exec_decideFrom_stray {after : List Node} (h : n.isAlternative)
    (hon : Directive.ofTag? n.tag = some .elifBranch → (n.attributes.get? "on").isSome)
    (s : Store) :
    exec (decideFrom t scope .outside (n :: after)) s =
      (.error (.failed (strayFailure t n)), s) := by
  rcases Node.isAlternative_iff.1 h with helif | helse
  · obtain ⟨v, hv⟩ := exists_demand (hon helif)
    rw [decideFrom_cons (Node.isElement_of_ofTag? helif), decideElement_elif_outside helif, hv,
      pure_bind, exec_bind, Render.exec_within]
    rfl
  · rw [decideFrom_cons (Node.isElement_of_ofTag? helse), decideElement_else_outside helse,
      exec_bind, Render.exec_within]
    rfl

/-- **Branches are decided by chains.** In each chain the first branch whose condition holds is
taken, or else the else, so never two and, if there is an else, one; what is written in a
condition after a taken branch plays no part. A branch out of order fails, unless something before
it did. The content of a branch is rendered if and only if it is taken. -/
theorem decideBranches_by_chains (t : Template) (scope : Scope) (ns : List Node) :
    decideBranches t scope ns = decideByChains t scope ns ∧
    (∀ s bs s', exec (decideBranches t scope ns) s = (.ok bs, s') →
      ∃ decided, List.Forall₂ OneTaken (chains ns) decided ∧ bs = spread ns decided.flatten) ∧
    (∀ before m between n n' after s bs s', ns = before ++ m :: (between ++ n :: after) →
      exec (decideBranches t scope (before ++ [m])) s = (.ok bs, s') →
      bs.getLast? = some (some true) → m.isCondition →
      (∀ x ∈ between, x.isElement → Directive.ofTag? x.tag = some .elifBranch) →
      BothElif n n' →
      exec (decideBranches t scope ns) s =
        exec (decideBranches t scope (before ++ m :: (between ++ n' :: after))) s) ∧
    (∀ before n after s bs s', ns = before ++ n :: after → StrayAfter before n →
      exec (decideBranches t scope before) s = (.ok bs, s') →
      exec (decideBranches t scope ns) s = (.error (.failed (strayFailure t n)), s')) ∧
    ∀ setup walk n d taken, Directive.ofTag? n.tag = some d →
      d = .ifBranch ∨ d = .elifBranch ∨ d = .elseBranch →
      Node.render setup walk t scope n taken =
        Render.within (t.place n) (Node.mark setup d <$>
          if taken = some true then walk t n.children scope else pure (Node.untaken setup)) := by
  refine ⟨decideBranches_eq t scope ns, ?_, ?_, ?_, ?_⟩
  · intro s bs s' h
    rw [decideBranches_eq, decideByChains, bind_pure_comp, exec_map] at h
    rcases hdecided : exec ((chains ns).mapM (decideChain t scope)) s with ⟨_ | decided, u⟩
    · rw [hdecided] at h
      cases h
    · rw [hdecided] at h
      cases h
      have hone := Gives.mapM (f := decideChain t scope) (p := OneTaken) (chains ns)
        fun c hc => gives_decideChain (List.isChain_of_mem_splitBy hc)
      exact ⟨decided, hone s decided u hdecided, rfl⟩
  · rintro before m between n n' after s bs s' rfl h hlast hm hbetween hboth
    obtain ⟨state, hstate⟩ := exists_resumes h
    obtain rfl := hstate.inside m (by simp) hm hlast
    have hsplit : ∀ l : Node, before ++ m :: (between ++ l :: after) =
        before ++ [m] ++ (between ++ l :: after) := fun l => by simp
    rw [hsplit, hsplit, decideBranches, decideBranches, hstate.rest, hstate.rest,
      decideFrom_skipped hbetween hboth]
  · rintro before n after s bs s' rfl hstray h
    obtain ⟨state, hstate⟩ := exists_resumes h
    have houtside : state = .outside := by
      cases hm : (before.filter Node.isElement).getLast? with
      | none => exact hstate.unchanged (List.getLast?_eq_none_iff.1 hm)
      | some m => exact hstate.outside m hm (hstray.stray m hm)
    rw [decideBranches, hstate.rest, houtside, exec_map,
      exec_decideFrom_stray hstray.alternative hstray.on]
    rfl
  · intro setup walk n d taken hd hbranch
    cases n with
    | leaf kind raw line => cases hd
    | element head closed children =>
      have htaken : Node.renderDirective setup walk t (.element head closed children) scope
          (taken.getD false) d = if taken = some true then walk t children scope
            else pure (Node.untaken setup) := by
        rcases hbranch with rfl | rfl | rfl <;> rcases taken with _ | _ | _ <;> rfl
      rw [Node.render, Node.renderElement, hd]
      dsimp only
      rw [htaken, bind_pure_comp]
      rfl

/-- After a taken branch an elif may have any condition, be it no expression at all; and an else
behind another one is out of order. -/
theorem decideBranches_by_chains_skipped :
    let branch (tag : Text) (attributes : Attributes) : Node :=
      .element ⟨tag, attributes, [], 1, false⟩ true []
    let t : Template := ⟨none, []⟩
    let scope : Scope := .ofContext .empty
    let s : Store := ⟨.empty 0, .empty, .empty, []⟩
    let m := branch "t-if" [("on", "true")]
    let n := branch "t-elif" [("on", "(")]
    let n' := branch "t-elif" [("on", "false")]
    let l := branch "t-else" []
    exec (decideBranches t scope [m, n, l, l]) s = exec (decideBranches t scope [m, n', l, l]) s ∧
    exec (decideBranches t scope [m, n, l, l]) s = (.error (.failed (strayFailure t l)), s) ∧
    (∃ decided, List.Forall₂ OneTaken (chains [m, n, l]) decided ∧
      [some true, some false, some false] = spread [m, n, l] decided.flatten) ∧
    ∀ setup walk, Node.render setup walk t scope l (some false) =
      Render.within (t.place l) (Node.mark setup .elseBranch <$> pure (Node.untaken setup)) := by
  intro branch t scope s m n n' l
  have hm : exec (decideBranches t scope [m]) s = (.ok [some true], s) := by
    with_unfolding_all rfl
  have hl : exec (decideBranches t scope [m, n, l]) s =
      (.ok [some true, some false, some false], s) := by with_unfolding_all rfl
  obtain ⟨-, -, hskip, hstray, hrender⟩ := decideBranches_by_chains t scope [m, n, l, l]
  obtain ⟨-, hone, -⟩ := decideBranches_by_chains t scope [m, n, l]
  refine ⟨?_, ?_, hone s _ s hl, fun setup walk => ?_⟩
  · exact hskip [] m [] n n' [l, l] s _ s rfl hm rfl rfl (by simp) ⟨rfl, rfl, rfl, rfl⟩
  · exact hstray [m, n, l] l [] s _ s rfl ⟨rfl, fun h => absurd h (by decide), by decide⟩ hl
  · exact hrender setup walk l .elseBranch (some false) rfl (.inr (.inr rfl))

end HtmlTemplate
