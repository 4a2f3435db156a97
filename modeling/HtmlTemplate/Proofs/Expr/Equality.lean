import Mathlib.Data.List.Forall2
import Mathlib.Data.List.Perm.Subperm
import Mathlib.Logic.Relation
import HtmlTemplate.Expr.Equality
import HtmlTemplate.Proofs.Json.Numbers
import HtmlTemplate.Proofs.Record

/-!
The laws of equality.

Outside arrays and objects numbers are compared as doubles; inside them also their kinds have to
agree. Both are equivalences, and the second is within the first. The members of an object are found
by name: two objects of as many members have the same names if one finds all of its names in the
other, and so the order of members matters nowhere.
-/

namespace HtmlTemplate

namespace Number

variable {l m n : Number}

lemma same_self (hn : n.Proper) : n.same n = true := by
  cases n with
  | integer k => exact beq_self_eq_true k
  | double x => exact Double.beq_self (Double.isNaN_of_isFinite hn)

lemma same_symm (h : m.same n = true) : n.same m = true := by
  cases m <;> cases n
  · exact beq_iff_eq.2 (beq_iff_eq.1 h).symm
  · cases h
  · cases h
  · exact Double.beq_symm h

lemma same_trans (h : l.same m = true) (h' : m.same n = true) : l.same n = true := by
  cases l with
  | integer i =>
    cases m with
    | integer j => rwa [beq_iff_eq.1 h]
    | double y => cases h
  | double x =>
    cases m with
    | integer j => cases h
    | double y =>
      cases n with
      | integer k => cases h'
      | double z => exact Double.beq_trans h h'

/-- Numbers that are the same inside arrays are so outside them. -/
lemma toFloat_beq_of_same (h : m.same n = true) : (m.toFloat == n.toFloat) = true := by
  cases m <;> cases n
  · rw [beq_iff_eq.1 h]
    exact Double.beq_self (Double.isNaN_ofInt _)
  · cases h
  · cases h
  · exact h

end Number

namespace Json

variable {a b c v w : Json} {as bs : List (Text × Json)}

/-- The values that JSON texts denote and that templates compute: their numbers have 64 bits or are
finite, and the members of each object have distinct names. -/
inductive Proper : Json → Prop
  | null : Proper null
  | bool (b : Bool) : Proper (bool b)
  | number {n : Number} (proper : n.Proper) : Proper (number n)
  | string (s : Text) : Proper (string s)
  | array {items : List Json} (inside : ∀ v ∈ items, Proper v) : Proper (array items)
  | object {members : List (Text × Json)} (distinct : (Record.names members).Nodup)
      (inside : ∀ e ∈ members, Proper e.2) : Proper (object members)

/-! ### Values of the same form and content -/

lemma same_null_iff : same null b = true ↔ b = null := by
  cases b <;> simp [same]

lemma same_bool_iff {x : Bool} : same (bool x) b = true ↔ b = bool x := by
  cases b <;> simp [same]
  exact eq_comm

lemma same_string_iff {s : Text} : same (string s) b = true ↔ b = string s := by
  cases b <;> simp [same]
  exact eq_comm

lemma same_number_iff {m : Number} :
    same (number m) b = true ↔ ∃ n, b = number n ∧ m.same n = true := by
  cases b <;> simp [same]

lemma same_array_iff {as : List Json} : same (array as) b = true ↔
    ∃ bs, b = array bs ∧ List.Forall₂ (fun a b => same a b = true) as bs := by
  have hitems : ∀ bs, sameItems as bs = true ↔ List.Forall₂ (fun a b => same a b = true) as bs := by
    induction as with
    | nil => intro bs; cases bs <;> simp [sameItems]
    | cons a as ih =>
      intro bs
      cases bs with
      | nil => simp [sameItems]
      | cons b bs => rw [sameItems, Bool.and_eq_true, ih, List.forall₂_cons]
  cases b <;> simp [same, hitems]

/-- Every member of one object has its equal in the other, and there are no more members. -/
lemma same_object_iff : same (object as) b = true ↔ ∃ bs, b = object bs ∧
    as.length = bs.length ∧ ∀ e ∈ as, ∃ v, Record.get? bs e.1 = some v ∧ same e.2 v = true := by
  have hmembers : ∀ bs, sameMembers as bs = true ↔
      ∀ e ∈ as, ∃ v, Record.get? bs e.1 = some v ∧ same e.2 v = true := by
    intro bs
    induction as with
    | nil => simp [sameMembers]
    | cons e as ih =>
      rw [sameMembers, Bool.and_eq_true, ih, List.forall_mem_cons]
      refine and_congr_left fun _ => ?_
      cases Record.get? bs e.1 <;> simp
  cases b <;> simp [same, hmembers]

/-- Every value is the same as itself. -/
lemma same_self (ha : a.Proper) : same a a = true := by
  induction ha with
  | null => exact same_null_iff.2 rfl
  | bool x => exact same_bool_iff.2 rfl
  | number hn => exact same_number_iff.2 ⟨_, rfl, Number.same_self hn⟩
  | string s => exact same_string_iff.2 rfl
  | array _ ih => exact same_array_iff.2 ⟨_, rfl, List.forall₂_same.2 ih⟩
  | object distinct _ ih =>
    exact same_object_iff.2
      ⟨_, rfl, rfl, fun e he => ⟨e.2, Record.get?_of_mem distinct he, ih e he⟩⟩

/-- Objects that are the same have the same names. -/
lemma names_perm_of_same (ha : (Record.names as).Nodup)
    (h : same (object as) (object bs) = true) : (Record.names as).Perm (Record.names bs) := by
  obtain ⟨_, hbs, hlength, hmembers⟩ := same_object_iff.1 h
  obtain rfl := object.inj hbs
  have hsubset : Record.names as ⊆ Record.names bs := by
    intro name hname
    obtain ⟨e, he, rfl⟩ := List.mem_map.1 hname
    obtain ⟨v, hv, -⟩ := hmembers e he
    exact List.mem_map.2 ⟨(e.1, v), Record.mem_of_get? hv, rfl⟩
  refine (ha.subperm hsubset).perm_of_length_le ?_
  simp [Record.names, hlength]

lemma same_symm (ha : a.Proper) (hb : b.Proper) (h : same a b = true) : same b a = true := by
  induction ha generalizing b with
  | null =>
    obtain rfl := same_null_iff.1 h
    exact h
  | bool x =>
    obtain rfl := same_bool_iff.1 h
    exact h
  | string s =>
    obtain rfl := same_string_iff.1 h
    exact h
  | number hn =>
    obtain ⟨n, rfl, h⟩ := same_number_iff.1 h
    exact same_number_iff.2 ⟨_, rfl, Number.same_symm h⟩
  | @array as _ ih =>
    obtain ⟨bs, rfl, hitems⟩ := same_array_iff.1 h
    cases hb with
    | array inside =>
      have hback := (List.forall₂_and_left as bs).2 ⟨@ih, hitems⟩
      have hproper := (List.forall₂_and_left bs as).2 ⟨inside, hback.flip⟩
      exact same_array_iff.2 ⟨as, rfl, hproper.imp fun b a ⟨hb, hback, hab⟩ => hback hb hab⟩
  | @object as distinct _ ih =>
    obtain ⟨bs, rfl, hlength, hmembers⟩ := same_object_iff.1 h
    cases hb with
    | object distinct' hbs =>
      -- no member of the second object is left over
      have hnames := names_perm_of_same distinct h
      refine same_object_iff.2 ⟨_, rfl, hlength.symm, fun e he => ?_⟩
      obtain ⟨e', he', hname⟩ := List.mem_map.1 (hnames.mem_iff.2 (List.mem_map_of_mem he))
      obtain ⟨v, hv, hsame⟩ := hmembers e' he'
      have hvalue : v = e.2 := by
        rw [hname, Record.get?_of_mem distinct' he] at hv
        exact (Option.some.inj hv).symm
      exact ⟨e'.2, hname ▸ Record.get?_of_mem distinct he', ih e' he' (hbs e he) (hvalue ▸ hsame)⟩

/-- Rows of values are related in turn if the values of the first row are. -/
lemma forall₂_trans {R : Json → Json → Prop} {as bs cs : List Json}
    (trans : ∀ a ∈ as, ∀ {b c}, R a b → R b c → R a c) (h : List.Forall₂ R as bs)
    (h' : List.Forall₂ R bs cs) : List.Forall₂ R as cs := by
  induction h generalizing cs with
  | nil => exact h'
  | cons hab _ ih =>
    obtain ⟨c, cs, hbc, hbcs, rfl⟩ := List.forall₂_cons_left_iff.1 h'
    obtain ⟨htrans, trans⟩ := List.forall_mem_cons.1 @trans
    exact .cons (htrans hab hbc) (ih trans hbcs)

lemma same_trans (ha : a.Proper) (h : same a b = true) (h' : same b c = true) :
    same a c = true := by
  induction ha generalizing b c with
  | null =>
    obtain rfl := same_null_iff.1 h
    exact h'
  | bool x =>
    obtain rfl := same_bool_iff.1 h
    exact h'
  | string s =>
    obtain rfl := same_string_iff.1 h
    exact h'
  | number _ =>
    obtain ⟨m, rfl, h⟩ := same_number_iff.1 h
    obtain ⟨n, rfl, h'⟩ := same_number_iff.1 h'
    exact same_number_iff.2 ⟨n, rfl, Number.same_trans h h'⟩
  | @array as _ ih =>
    obtain ⟨bs, rfl, hitems⟩ := same_array_iff.1 h
    obtain ⟨cs, rfl, hitems'⟩ := same_array_iff.1 h'
    exact same_array_iff.2 ⟨cs, rfl, forall₂_trans @ih hitems hitems'⟩
  | @object as _ _ ih =>
    obtain ⟨bs, rfl, hlength, hmembers⟩ := same_object_iff.1 h
    obtain ⟨cs, rfl, hlength', hmembers'⟩ := same_object_iff.1 h'
    refine same_object_iff.2 ⟨cs, rfl, hlength.trans hlength', fun e he => ?_⟩
    obtain ⟨v, hv, hsame⟩ := hmembers e he
    obtain ⟨w, hw, hsame'⟩ := hmembers' (e.1, v) (Record.mem_of_get? hv)
    exact ⟨w, hw, ih e he hsame hsame'⟩

/-! ### The order of members -/

/-- The members of one object, the value itself or one inside it, are put in another order. -/
inductive Shuffles : Json → Json → Prop
  | members {as bs : List (Text × Json)} (h : as.Perm bs) : Shuffles (object as) (object bs)
  | item (before after : List Json) {v w : Json} (h : Shuffles v w) :
      Shuffles (array (before ++ v :: after)) (array (before ++ w :: after))
  | member (before after : List (Text × Json)) (name : Text) {v w : Json} (h : Shuffles v w) :
      Shuffles (object (before ++ (name, v) :: after)) (object (before ++ (name, w) :: after))

/-- Two values that differ in the order of members, anywhere inside them. -/
def Reordered : Json → Json → Prop := Relation.ReflTransGen Shuffles

lemma Shuffles.proper_same (h : Shuffles v w) (hv : v.Proper) :
    w.Proper ∧ same v w = true := by
  induction h with
  | @members as bs hperm =>
    cases hv with
    | object distinct inside =>
      have distinct' : (Record.names bs).Nodup := (hperm.map Prod.fst).nodup_iff.1 distinct
      refine ⟨.object distinct' fun e he => inside e (hperm.mem_iff.2 he), ?_⟩
      refine same_object_iff.2 ⟨bs, rfl, hperm.length_eq, fun e he => ?_⟩
      exact ⟨e.2, Record.get?_of_mem distinct' (hperm.mem_iff.1 he), same_self (inside e he)⟩
  | item before after _ ih =>
    cases hv with
    | array inside =>
      simp only [List.forall_mem_append, List.forall_mem_cons] at inside
      obtain ⟨hbefore, hv, hafter⟩ := inside
      obtain ⟨hw, hsame⟩ := ih hv
      refine ⟨.array ?_, same_array_iff.2 ⟨_, rfl, List.rel_append ?_ (.cons hsame ?_)⟩⟩
      · simp only [List.forall_mem_append, List.forall_mem_cons]
        exact ⟨hbefore, hw, hafter⟩
      · exact List.forall₂_same.2 fun v hv => same_self (hbefore v hv)
      · exact List.forall₂_same.2 fun v hv => same_self (hafter v hv)
  | @member before after name v w _ ih =>
    cases hv with
    | object distinct inside =>
      have hnames : Record.names (before ++ (name, v) :: after) =
          Record.names (before ++ (name, w) :: after) := by
        simp [Record.names]
      rw [hnames] at distinct
      simp only [List.forall_mem_append, List.forall_mem_cons] at inside
      obtain ⟨hbefore, hv, hafter⟩ := inside
      obtain ⟨hw, hsame⟩ := ih hv
      refine ⟨.object distinct ?_, same_object_iff.2 ⟨_, rfl, by simp, ?_⟩⟩
      · simp only [List.forall_mem_append, List.forall_mem_cons]
        exact ⟨hbefore, hw, hafter⟩
      · have hget : ∀ e ∈ before ++ (name, w) :: after,
            Record.get? (before ++ (name, w) :: after) e.1 = some e.2 :=
          fun e he => Record.get?_of_mem distinct he
        simp only [List.forall_mem_append, List.forall_mem_cons] at hget ⊢
        exact ⟨fun e he => ⟨e.2, hget.1 e he, same_self (hbefore e he)⟩, ⟨w, hget.2.1, hsame⟩,
          fun e he => ⟨e.2, hget.2.2 e he, same_self (hafter e he)⟩⟩

/-- The order of members does not matter. -/
lemma Reordered.proper_same (h : Reordered v w) (hv : v.Proper) : w.Proper ∧ same v w = true := by
  induction h with
  | refl => exact ⟨hv, same_self hv⟩
  | tail _ hstep ih =>
    obtain ⟨hw, hsame⟩ := hstep.proper_same ih.1
    exact ⟨hw, same_trans hv ih.2 hsame⟩

/-! ### Equality in expressions -/

/-- Only two numbers are compared otherwise than inside arrays and objects. -/
lemma strictEq_cases (a b : Json) :
    (∃ m n, a = number m ∧ b = number n) ∨ strictEq a b = same a b := by
  unfold strictEq
  split
  · exact .inl ⟨_, _, rfl, rfl⟩
  · exact .inr rfl

lemma strictEq_of_same (h : same a b = true) : strictEq a b = true := by
  obtain ⟨m, n, rfl, rfl⟩ | hsame := strictEq_cases a b
  · obtain ⟨_, hn, h⟩ := same_number_iff.1 h
    obtain rfl := number.inj hn
    exact Number.toFloat_beq_of_same h
  · exact hsame.trans h

/-- The converse fails: the kinds of numbers are told apart inside arrays only. -/
example : strictEq (number (.integer 1)) (number (.double 1)) = true ∧
    strictEq (array [number (.integer 1)]) (array [number (.double 1)]) = false := by
  decide

lemma strictEq_symm (ha : a.Proper) (hb : b.Proper) (h : strictEq a b = true) :
    strictEq b a = true := by
  obtain ⟨m, n, rfl, rfl⟩ | hsame := strictEq_cases a b
  · exact Double.beq_symm h
  · exact strictEq_of_same (same_symm ha hb (hsame ▸ h))

lemma strictEq_number_iff {m : Number} : strictEq (number m) b = true ↔
    ∃ n, b = number n ∧ (m.toFloat == n.toFloat) = true := by
  cases b <;> simp [strictEq, same]

lemma strictEq_number_right_iff {n : Number} : strictEq a (number n) = true ↔
    ∃ m, a = number m ∧ (m.toFloat == n.toFloat) = true := by
  cases a <;> simp [strictEq, same]

lemma strictEq_trans (ha : a.Proper) (h : strictEq a b = true) (h' : strictEq b c = true) :
    strictEq a c = true := by
  obtain ⟨l, m, rfl, rfl⟩ | hsame := strictEq_cases a b
  · obtain ⟨n, rfl, h'⟩ := strictEq_number_iff.1 h'
    exact Double.beq_trans h h'
  obtain ⟨m, n, rfl, rfl⟩ | hsame' := strictEq_cases b c
  · obtain ⟨l, rfl, h⟩ := strictEq_number_right_iff.1 h
    exact Double.beq_trans h h'
  · exact strictEq_of_same (same_trans ha (hsame ▸ h) (hsame' ▸ h'))

lemma strictEq_comm (ha : a.Proper) (hb : b.Proper) : strictEq a b = strictEq b a :=
  Bool.eq_iff_iff.2 ⟨strictEq_symm ha hb, strictEq_symm hb ha⟩

lemma comparesAsNumbers_comm (a b : Json) : comparesAsNumbers a b = comparesAsNumbers b a := by
  cases a <;> cases b <;> rfl

lemma looseEq_comm (ha : a.Proper) (hb : b.Proper) : looseEq a b = looseEq b a := by
  rw [looseEq, looseEq, comparesAsNumbers_comm, Bool.or_comm, Double.beq_comm, strictEq_comm ha hb]

/-- Of the values that are compared as numbers, only equal truth values are strictly equal. -/
lemma exists_bool_of_strictEq (hnumbers : comparesAsNumbers a b = true) (h : strictEq a b = true) :
    ∃ x, a = bool x ∧ b = bool x := by
  cases a <;> cases b <;> simp_all [comparesAsNumbers, strictEq, same]

lemma looseEq_of_strictEq (h : strictEq a b = true) : looseEq a b = true := by
  rw [looseEq]
  split
  · next hnumbers =>
    obtain ⟨x, rfl, rfl⟩ := exists_bool_of_strictEq hnumbers h
    cases x <;> decide
  · exact h

lemma looseEq_null_iff : looseEq null a = true ↔ a = null := by
  cases a <;> simp [looseEq, comparesAsNumbers, strictEq, same, isNull]

/-- **The laws of equality.** Equality without conversion is an equivalence, and does not see the
order of members at any depth. Equality with conversion holds both ways round, holds wherever the
other does, and makes nothing equal to `null` but `null`. -/
theorem strictEq_equivalence (ha : a.Proper) (hb : b.Proper) :
    (a.strictEq a = true ∧ (a.strictEq b = true → b.strictEq a = true) ∧
      (a.strictEq b = true → b.strictEq c = true → a.strictEq c = true)) ∧
    (∀ a', a.Reordered a' → a.strictEq a' = true ∧ a'.strictEq b = a.strictEq b) ∧
    a.looseEq b = b.looseEq a ∧
    (a.strictEq b = true → a.looseEq b = true) ∧
    (null.looseEq a = true ↔ a = null) := by
  refine ⟨⟨strictEq_of_same (same_self ha), strictEq_symm ha hb, strictEq_trans ha⟩,
    fun a' h => ?_, looseEq_comm ha hb, looseEq_of_strictEq, looseEq_null_iff⟩
  obtain ⟨ha', hsame⟩ := h.proper_same ha
  have hstrict := strictEq_of_same hsame
  refine ⟨hstrict, Bool.eq_iff_iff.2 ⟨strictEq_trans ha hstrict, ?_⟩⟩
  exact strictEq_trans ha' (strictEq_symm ha ha' hstrict)

/-- Members in another order in an object, and in one inside an array inside it. -/
theorem strictEq_equivalence_nested :
    let inner : List (Text × Json) := [("x", number (.double 0.5)), ("y", null)]
    let v := object [("p", array [number (.integer 1), object inner]), ("q", bool true)]
    let w := object [("q", bool true), ("p", array [number (.integer 1), object inner.reverse])]
    v.Proper ∧ v.Reordered w ∧ v.strictEq w = true := by
  intro inner v w
  have hnumber : (Number.double 0.5).Proper ∧ (Number.integer 1).Proper := by
    change (0.5 : Float).isFinite = true ∧ Number.fits 1 = true
    decide
  have hinner : (object inner).Proper := by
    refine .object (by decide) ?_
    simpa [inner] using ⟨.number hnumber.1, .null⟩
  have hv : v.Proper := by
    refine .object (by decide) ?_
    simp only [List.forall_mem_cons]
    refine ⟨.array ?_, .bool true, by simp⟩
    simpa using ⟨.number hnumber.2, hinner⟩
  have hinside : Shuffles (object inner) (object inner.reverse) :=
    .members (List.reverse_perm inner).symm
  have hreordered : v.Reordered w :=
    .tail (.single (.member [] _ "p" (.item [_] [] hinside))) (.members (.swap _ _ _))
  exact ⟨hv, hreordered, ((strictEq_equivalence (c := null) hv .null).2.1 w hreordered).1⟩

end Json

end HtmlTemplate
