import Mathlib.Tactic.Lemma
import HtmlTemplate.Markup.NodeTable

/-!
Trees that follow each other, as the data that proofs go along: the first tree is a leaf or an
element, and the trees below it come before those behind it. The numbers and the rows of such
trees follow the same order.
-/

namespace HtmlTemplate

namespace Node

/-- Induction along trees that follow each other. -/
@[elab_as_elim]
theorem forest_induction {motive : List Node → Prop} (nil : motive [])
    (leaf : ∀ kind raw line ns, motive ns → motive (.leaf kind raw line :: ns))
    (element : ∀ head closed children ns, motive children → motive ns →
      motive (.element head closed children :: ns)) : ∀ ns, motive ns
  | [] => nil
  | .leaf kind raw line :: ns => leaf kind raw line ns (forest_induction nil leaf element ns)
  | .element head closed children :: ns =>
    element head closed children ns (forest_induction nil leaf element children)
      (forest_induction nil leaf element ns)

/-- How many nodes there are in trees. -/
def count (ns : List Node) : Nat := (nodesAll ns).length

@[simp] lemma count_nil : count [] = 0 := rfl

lemma count_cons (n : Node) (ns : List Node) : count (n :: ns) = n.nodes.length + count ns := by
  simp [count, nodesAll]

@[simp] lemma count_leaf (kind : Leaf) (raw : Text) (line : Nat) (ns : List Node) :
    count (.leaf kind raw line :: ns) = count ns + 1 := by
  rw [count_cons, nodes, List.length_singleton, Nat.add_comm]

@[simp] lemma count_element (head : Opening) (closed : Bool) (children ns : List Node) :
    count (.element head closed children :: ns) = count children + count ns + 1 := by
  rw [count_cons, nodes, List.length_cons, ← count]
  omega

@[simp] lemma count_append (ns ms : List Node) : count (ns ++ ms) = count ns + count ms := by
  induction ns with
  | nil => simp
  | cons n ns ih =>
    rw [List.cons_append, count_cons, count_cons, ih]
    omega

@[simp] lemma nodesAll_leaf (kind : Leaf) (raw : Text) (line : Nat) (ns : List Node) :
    nodesAll (.leaf kind raw line :: ns) = .leaf kind raw line :: nodesAll ns := by
  rw [nodesAll, nodes, List.singleton_append]

@[simp] lemma nodesAll_element (head : Opening) (closed : Bool) (children ns : List Node) :
    nodesAll (.element head closed children :: ns) =
      .element head closed children :: (nodesAll children ++ nodesAll ns) := by
  rw [nodesAll, nodes, List.cons_append]

@[simp] lemma nodesAll_append (ns ms : List Node) :
    nodesAll (ns ++ ms) = nodesAll ns ++ nodesAll ms := by
  induction ns with
  | nil => rfl
  | cons n ns ih => rw [List.cons_append, nodesAll, nodesAll, ih, List.append_assoc]

section Members

variable {n : Node} {ns : List Node}

lemma nodes_sublist (hn : n ∈ ns) : (nodes n).Sublist (nodesAll ns) := by
  induction ns with
  | nil => cases hn
  | cons m ns ih =>
    rw [nodesAll]
    rcases List.mem_cons.1 hn with rfl | hn
    · exact List.sublist_append_left _ _
    · exact (ih hn).trans (List.sublist_append_right _ _)

lemma nodesAll_children (hn : n ∈ ns) : (nodesAll n.children).Sublist (nodesAll ns) := by
  have hchildren : (nodesAll n.children).Sublist (nodes n) := by
    cases n with
    | leaf kind raw line => exact List.nil_sublist _
    | element head closed children =>
      rw [nodes]
      exact List.sublist_cons_self _ _
  exact hchildren.trans (nodes_sublist hn)

lemma mem_nodesAll (hn : n ∈ ns) : n ∈ nodesAll ns := by
  have hself : n ∈ nodes n := by
    cases n <;> simp [nodes]
  exact (nodes_sublist hn).subset hself

end Members

/-- No element that closes itself has anything below it. -/
def SelfClosingEmpty (ns : List Node) : Prop :=
  ∀ n ∈ nodesAll ns, n.children ≠ [] → n.selfClosing = false

namespace SelfClosingEmpty

@[simp] lemma nil : SelfClosingEmpty [] := by
  intro n hn
  cases hn

@[simp] lemma leaf_iff {kind : Leaf} {raw : Text} {line : Nat} {ns : List Node} :
    SelfClosingEmpty (.leaf kind raw line :: ns) ↔ SelfClosingEmpty ns := by
  simp [SelfClosingEmpty, children]

@[simp] lemma element_iff {head : Opening} {closed : Bool} {cs ns : List Node} :
    SelfClosingEmpty (.element head closed cs :: ns) ↔
      (cs ≠ [] → head.selfClosing = false) ∧ SelfClosingEmpty cs ∧ SelfClosingEmpty ns := by
  simp only [SelfClosingEmpty, nodesAll_element, List.forall_mem_cons, List.forall_mem_append,
    children, selfClosing]

@[simp] lemma append_iff {ns ms : List Node} :
    SelfClosingEmpty (ns ++ ms) ↔ SelfClosingEmpty ns ∧ SelfClosingEmpty ms := by
  simp only [SelfClosingEmpty, nodesAll_append, List.forall_mem_append]

@[simp] lemma reverse_iff {ns : List Node} :
    SelfClosingEmpty ns.reverse ↔ SelfClosingEmpty ns := by
  induction ns with
  | nil => rfl
  | cons n ns ih =>
    rw [List.reverse_cons, append_iff, ih, and_comm, ← append_iff, List.singleton_append]

end SelfClosingEmpty

end Node

open Node

variable {parent : Option Nat} {start index : Nat} {ns ms : List Node}

@[simp] lemma numbers_nil : numbers start [] = [] := rfl

@[simp] lemma numbers_leaf {kind : Leaf} {raw : Text} {line : Nat} :
    numbers start (.leaf kind raw line :: ns) = start :: numbers (start + 1) ns := by
  rw [numbers, nodes, List.length_singleton]

@[simp] lemma numbers_element {head : Opening} {closed : Bool} {children : List Node} :
    numbers start (.element head closed children :: ns) =
      start :: numbers (start + 1 + count children) ns := by
  rw [numbers, nodes, List.length_cons, ← count, Nat.add_assoc, Nat.add_comm 1]

lemma numbers_append :
    numbers start (ns ++ ms) = numbers start ns ++ numbers (start + count ns) ms := by
  induction ns generalizing start with
  | nil => simp
  | cons n ns ih => rw [List.cons_append, numbers, numbers, ih, count_cons, Nat.add_assoc]; rfl

@[simp] lemma length_numbers : (numbers start ns).length = ns.length := by
  induction ns generalizing start with
  | nil => rfl
  | cons n ns ih => rw [numbers, List.length_cons, List.length_cons, ih]

@[simp] lemma forestRows_nil : forestRows parent start index [] = [] := by
  rw [forestRows]

@[simp] lemma forestRows_leaf {kind : Leaf} {raw : Text} {line : Nat} :
    forestRows parent start index (.leaf kind raw line :: ns) =
      ⟨.leaf kind raw line, parent, index, []⟩ ::
        forestRows parent (start + 1) (index + 1) ns := by
  rw [forestRows, nodeRows, nodes, List.length_singleton]
  rfl

/-- The row of an element, then those of the trees below it, then those of the trees behind it. -/
@[simp] lemma forestRows_element {head : Opening} {closed : Bool} {children : List Node} :
    forestRows parent start index (.element head closed children :: ns) =
      ⟨.element head closed [], parent, index, numbers (start + 1) children⟩ ::
        (forestRows (some start) (start + 1) 0 children ++
          forestRows parent (start + 1 + count children) (index + 1) ns) := by
  rw [forestRows, nodeRows, nodes, List.length_cons, ← count, Nat.add_assoc, Nat.add_comm 1]
  rfl

lemma forestRows_append : forestRows parent start index (ns ++ ms) =
    forestRows parent start index ns ++
      forestRows parent (start + count ns) (index + ns.length) ms := by
  induction ns generalizing start index with
  | nil => simp
  | cons n ns ih =>
    rw [List.cons_append, forestRows, forestRows, ih, count_cons, List.length_cons,
      List.append_assoc, Nat.add_assoc, Nat.add_assoc, Nat.add_comm 1]

@[simp] lemma length_forestRows : (forestRows parent start index ns).length = count ns := by
  induction ns using forest_induction generalizing parent start index with
  | nil => simp
  | leaf kind raw line ns ih => simp [ih]
  | element head closed children ns ihc ihn => simp [ihc, ihn]

end HtmlTemplate
