import Mathlib.Data.List.Induction
import HtmlTemplate.Proofs.Expr.Parts

/-!
Chains of links, from left to right.

An expression is an operand that is no link, and the links after it. Its value goes through the
links in their order: each reads its key and then the property of the value so far, and an optional
link that stands behind `null` ends the chain.
-/

namespace HtmlTemplate

namespace Json

/-- The property of a value under a key, if it has one. Texts and arrays have a length, and parts
under their positions. -/
def part? (key : Text) : Json → Option Json
  | object members => Record.get? members key
  | array items =>
    if key = ("length" : Text) then some (ofNat items.length)
    else (Text.index? key).bind (items[·]?)
  | string s =>
    if key = ("length" : Text) then some (ofNat s.length)
    else ((Text.index? key).bind (s[·]?)).map fun c => string [c]
  | _ => none

lemma property_eq (key : Text) (v : Json) :
    v.property key =
      if v.isNull then .error (.nullAccess key) else .ok ((v.part? key).getD .null) := by
  cases v with
  | array items =>
    simp only [property, part?, isNull, Bool.false_eq_true, if_false]
    split <;> rfl
  | string s =>
    simp only [property, part?, isNull, Bool.false_eq_true, if_false]
    split <;> rfl
  | _ => rfl

lemma isNull_iff {v : Json} : v.isNull = true ↔ v = .null := by
  cases v <;> simp [isNull]

end Json

namespace Expr

/-- What a link reads: a name, or an expression for a key. -/
inductive LinkKey where
  | field (extent : Extent) (name : Text)
  | index (key : Expr)

/-- A link, with the extent of the expression that ends with it. -/
structure Link where
  extent : Extent
  optional : Bool
  key : LinkKey

/-- The expression of one link more. -/
def link (o : Expr) : Link → Expr
  | ⟨extent, optional, .field nameExtent name⟩ => .field extent o optional nameExtent name
  | ⟨extent, optional, .index key⟩ => .index extent o optional key

/-- An operand with links after it. -/
def chain (base : Expr) (links : List Link) : Expr := links.foldl link base

lemma chain_concat (base : Expr) (links : List Link) (l : Link) :
    chain base (links ++ [l]) = (chain base links).link l := by
  rw [chain, List.foldl_append]
  rfl

def isLink : Expr → Bool
  | field .. => true
  | index .. => true
  | _ => false

/-- Every expression is a chain from an operand that is no link. -/
lemma exists_chain : ∀ e : Expr, ∃ base links, base.isLink = false ∧ e = chain base links
  | field extent o optional nameExtent name => by
    obtain ⟨base, links, hbase, rfl⟩ := exists_chain o
    refine ⟨base, links ++ [⟨extent, optional, .field nameExtent name⟩], hbase, ?_⟩
    exact (chain_concat base links ⟨extent, optional, .field nameExtent name⟩).symm
  | index extent o optional key => by
    obtain ⟨base, links, hbase, rfl⟩ := exists_chain o
    refine ⟨base, links ++ [⟨extent, optional, .index key⟩], hbase, ?_⟩
    exact (chain_concat base links ⟨extent, optional, .index key⟩).symm
  | number .. | string .. | boolean .. | null .. | undefined .. | identifier .. | unary ..
  | binary .. | ternary .. | array .. | object .. => ⟨_, [], rfl, rfl⟩

variable {c : Context}

/-- The key that a link reads. -/
def LinkKey.evaluate (c : Context) : LinkKey → Except EvalError Text
  | .field _ name => .ok name
  | .index key => do return (← key.eval c).toKey

/-- The value behind links that follow a value. -/
def follow (c : Context) (v : Json) : List Link → Except EvalError Json
  | [] => .ok v
  | l :: ls =>
    if l.optional && v.isNull then .ok .null
    else do
      let key ← l.key.evaluate c
      if v.isNull then .error (.nullAccess key)
      else follow c ((v.part? key).getD .null) ls

/-- What one link makes of what is reached before it. -/
def reachLink (c : Context) (l : Link) : Option Json → Except EvalError (Option Json)
  | none => .ok none
  | some v =>
    if l.optional && v.isNull then .ok none
    else do
      let key ← l.key.evaluate c
      return some (← v.property key)

lemma reach_link (o : Expr) (l : Link) : reach c (o.link l) = reach c o >>= reachLink c l := by
  obtain ⟨extent, optional, key⟩ := l
  cases key with
  | field nameExtent name =>
    rw [link, reach]
    refine bind_congr fun reached => ?_
    cases reached with
    | none => rfl
    | some v => exact ite_congr rfl (fun _ => rfl) fun _ => rfl
  | index key =>
    rw [link, reach]
    refine bind_congr fun reached => ?_
    cases reached with
    | none => rfl
    | some v =>
      refine ite_congr rfl (fun _ => rfl) fun _ => ?_
      rw [LinkKey.evaluate, eval]
      cases reach c key <;> rfl

/-- An operand that is no link is never left early. -/
lemma reach_ne_none {e : Expr} (he : e.isLink = false) : reach c e ≠ .ok none := by
  intro h
  cases e with
  | field | index => cases he
  | identifier _ name =>
    rw [reach] at h
    split at h <;> cases h
  | number | string | boolean | null | undefined => cases h
  | unary _ op a =>
    rw [reach] at h
    obtain ⟨v, -, h⟩ := exists_of_bind_ok h
    cases h
  | binary _ op a b =>
    rw [reach] at h
    obtain ⟨v, -, h⟩ := exists_of_bind_ok h
    split at h
    · cases h
    · obtain ⟨w, -, h⟩ := exists_of_bind_ok h
      cases h
  | ternary _ condition a b =>
    rw [reach] at h
    obtain ⟨v, -, h⟩ := exists_of_bind_ok h
    split at h <;> obtain ⟨w, -, h⟩ := exists_of_bind_ok h <;> cases h
  | array _ items =>
    rw [reach] at h
    obtain ⟨vs, -, h⟩ := exists_of_bind_ok h
    cases h
  | object _ properties =>
    rw [reach] at h
    obtain ⟨vs, -, h⟩ := exists_of_bind_ok h
    cases h

lemma reach_eq_some {base : Expr} (hbase : base.isLink = false) :
    reach c base = some <$> base.eval c := by
  have hreach : reach c base ≠ .ok none := reach_ne_none hbase
  unfold eval
  rcases hr : reach c base with e | _ | v
  · rfl
  · exact absurd hr hreach
  · rfl

/-- What is reached through links, from left to right. -/
def reachAlong (c : Context) (links : List Link) (reached : Option Json) :
    Except EvalError (Option Json) := links.foldlM (fun r l => reachLink c l r) reached

lemma reach_chain (base : Expr) (links : List Link) :
    reach c (chain base links) = reach c base >>= reachAlong c links := by
  induction links generalizing base with
  | nil => exact (bind_pure (reach c base)).symm
  | cons l links ih =>
    rw [chain, List.foldl_cons, ← chain, ih, reach_link, bind_assoc]
    rfl

lemma reachAlong_none (links : List Link) : reachAlong c links none = .ok none := by
  induction links with
  | nil => rfl
  | cons l links ih => exact ih

lemma map_settle_reachAlong (links : List Link) (v : Json) :
    settle <$> reachAlong c links (some v) = follow c v links := by
  induction links generalizing v with
  | nil => rfl
  | cons l links ih =>
    rw [reachAlong, List.foldlM_cons, reachLink, follow]
    split
    · exact congrArg (settle <$> ·) (reachAlong_none links)
    · cases hkey : l.key.evaluate c with
      | error e => rfl
      | ok key =>
        change settle <$> ((do return some (← v.property key)) >>= reachAlong c links) = ite _ _ _
        rw [Json.property_eq]
        split
        · rfl
        · exact ih _

/-- **A chain has the value that its links lead to, from left to right.** -/
theorem eval_chain (base : Expr) (links : List Link) (hbase : base.isLink = false) (c : Context) :
    (chain base links).eval c = base.eval c >>= fun v => follow c v links := by
  have hreach : reach c (chain base links) =
      base.eval c >>= fun v => reachAlong c links (some v) := by
    rw [reach_chain, reach_eq_some hbase, bind_map_left]
  change settle <$> reach c (chain base links) = _
  rw [hreach, map_bind]
  exact bind_congr fun v => map_settle_reachAlong links v

/-- In `a?.[b].c` the variable `b` is not looked up if `a` is `null`; in `a[b].c` it is, and that it
is not there counts before the access to `null`. -/
theorem eval_chain_skipped :
    let a : Expr := .identifier ⟨0, 1⟩ "a"
    let b : Expr := .identifier ⟨4, 5⟩ "b"
    let c := Context.empty.bind "a" .null
    let links (optional : Bool) : List Link :=
      [⟨⟨0, 6⟩, optional, .index b⟩, ⟨⟨0, 8⟩, false, .field ⟨7, 8⟩ "c"⟩]
    a.isLink = false ∧ (chain a (links true)).eval c = .ok .null ∧
      (chain a (links false)).eval c = .error (.undefined "b") :=
  ⟨rfl, (eval_chain _ _ rfl _).trans rfl, (eval_chain _ _ rfl _).trans rfl⟩

/-! ### Chains left early -/

/-- An optional link stands behind `null`. -/
def LeftEarly (c : Context) (e : Expr) : Prop :=
  ∃ (o : Expr) (l : Link) (links : List Link),
    e = chain (o.link l) links ∧ l.optional = true ∧ o.eval c = .ok .null

lemma LeftEarly.link {o : Expr} (h : o.LeftEarly c) (l : Link) : (o.link l).LeftEarly c := by
  obtain ⟨o, k, links, rfl, hk, ho⟩ := h
  exact ⟨o, k, links ++ [l], (chain_concat _ links l).symm, hk, ho⟩

lemma LeftEarly.of_reach {e : Expr} (h : reach c e = .ok none) : e.LeftEarly c := by
  obtain ⟨base, links, hbase, rfl⟩ := exists_chain e
  induction links using List.reverseRecOn with
  | nil => exact absurd h (reach_ne_none hbase)
  | append_singleton links l ih =>
    rw [chain_concat, reach_link] at h
    rw [chain_concat]
    obtain ⟨reached, hreached, h⟩ := exists_of_bind_ok h
    cases reached with
    | none => exact (ih hreached).link l
    | some v =>
      rw [reachLink] at h
      split at h
      · next hnull =>
        rw [Bool.and_eq_true, Json.isNull_iff] at hnull
        obtain ⟨hoptional, rfl⟩ := hnull
        exact ⟨_, l, [], rfl, hoptional, by rw [eval, hreached]; rfl⟩
      · obtain ⟨key, -, h⟩ := exists_of_bind_ok h
        obtain ⟨w, -, h⟩ := exists_of_bind_ok h
        cases h

/-- Nothing is reached where a chain is left early. -/
lemma reach_eq_none_iff {e : Expr} : reach c e = .ok none ↔ e.LeftEarly c := by
  refine ⟨.of_reach, ?_⟩
  rintro ⟨o, l, links, rfl, hoptional, ho⟩
  have hlink : reach c (o.link l) = .ok none := by
    rw [reach_link]
    unfold eval at ho
    rcases hreached : reach c o with e | _ | v
    · rw [hreached] at ho
      cases ho
    · rfl
    · rw [hreached] at ho
      obtain rfl : v = .null := Except.ok.inj ho
      exact if_pos (by rw [hoptional]; rfl)
  rw [reach_chain, hlink]
  exact reachAlong_none links

end Expr

end HtmlTemplate
