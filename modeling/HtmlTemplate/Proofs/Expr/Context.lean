import Mathlib.Data.List.Nodup
import HtmlTemplate.Expr.Context
import HtmlTemplate.Proofs.Record

/-!
Contexts and the objects they flatten to.

A name is looked up from the innermost layer outwards, and the object of all bindings is made from
the outermost layer inwards, each binding in place of the one before. As a layer binds a name once,
both end at the same value, whatever layers there are.
-/

namespace HtmlTemplate

namespace Record

variable {α : Type} {r : Record α} {name : Text}

lemma get?_append (r s : Record α) (name : Text) :
    Record.get? (r ++ s) name = (r.get? name).or (s.get? name) := by
  simp only [get?, List.lookup_append]

/-- With every name in it once, a record may be read from its end. -/
lemma get?_reverse (hr : r.names.Nodup) (name : Text) :
    Record.get? r.reverse name = r.get? name := by
  have hreverse : (names r.reverse).Nodup := by
    rw [names, List.map_reverse]
    exact List.nodup_reverse.2 hr
  refine Option.ext fun a => ⟨fun h => ?_, fun h => ?_⟩
  · exact get?_of_mem hr (List.mem_reverse.1 (mem_of_get? h))
  · exact get?_of_mem hreverse (List.mem_reverse.2 (mem_of_get? h))

lemma get?_flatten (rs : List (Record α)) (name : Text) :
    Record.get? rs.flatten name = rs.findSome? fun r => r.get? name := by
  induction rs with
  | nil => rfl
  | cons r rs ih =>
    rw [List.flatten_cons, get?_append, ih, List.findSome?_cons]
    cases r.get? name <;> rfl

lemma foldl_setAll (r : Record α) (rs : List (Record α)) :
    rs.foldl setAll r = r.setAll rs.flatten := by
  induction rs generalizing r with
  | nil => rfl
  | cons s rs ih => rw [List.foldl_cons, ih, List.flatten_cons, setAll_append]

lemma names_flatten (rs : List (Record α)) : names rs.flatten = rs.flatMap names := by
  rw [names, List.map_flatten, List.flatMap_def]
  rfl

lemma nodup_names_setAll (s : Record α) : (setAll [] s).names.Nodup := by
  induction s using List.reverseRecOn with
  | nil => exact List.nodup_nil
  | append_singleton s e ih =>
    rw [setAll_append]
    change ((setAll [] s).set e.1 e.2).names.Nodup
    rw [names_set]
    split
    · exact ih
    · next hnew =>
      exact List.nodup_append.2 ⟨ih, List.nodup_singleton _, fun n hn m hm heq =>
        hnew (List.mem_singleton.1 hm ▸ heq ▸ hn)⟩

end Record

namespace Context

variable {c : Context} {cs : List Context} {name : Text}

/-! ### The object of all bindings -/

lemma members_eq_setAll (c : Context) : c.members = Record.setAll [] c.layers.reverse.flatten :=
  Record.foldl_setAll [] c.layers.reverse

/-- No layer binds a name twice. -/
def Distinct (c : Context) : Prop := ∀ layer ∈ c.layers, layer.names.Nodup

lemma findSome?_get?_reverse {layers : List (Record Json)}
    (h : ∀ layer ∈ layers, layer.names.Nodup) (name : Text) :
    (layers.findSome? fun layer => Record.get? layer.reverse name) =
      layers.findSome? fun layer => layer.get? name := by
  induction layers with
  | nil => rfl
  | cons layer layers ih =>
    obtain ⟨hlayer, hlayers⟩ := List.forall_mem_cons.1 h
    rw [List.findSome?_cons, List.findSome?_cons, Record.get?_reverse hlayer, ih hlayers]

lemma get?_members (hc : c.Distinct) (name : Text) : c.members.get? name = c.get? name := by
  rw [members_eq_setAll, Record.get?_setAll, List.reverse_flatten, List.map_reverse,
    List.reverse_reverse, Record.get?_flatten, List.findSome?_map]
  exact findSome?_get?_reverse hc name

/-- The names come in the order in which they were first bound, from the outermost layer on. -/
lemma names_members (c : Context) :
    c.members.names = (c.layers.reverse.flatMap Record.names).eraseDups := by
  rw [members_eq_setAll, Record.names_setAll, Record.names_flatten]

lemma nodup_names_members (c : Context) : c.members.names.Nodup :=
  members_eq_setAll c ▸ Record.nodup_names_setAll _

/-! ### Looking up behind more bindings -/

lemma get?_extend (c : Context) (vars : Record Json) (name : Text) :
    (c.extend vars).get? name = (vars.get? name).or (c.get? name) := by
  rw [get?, extend, List.findSome?_cons]
  cases vars.get? name <;> rfl

lemma get?_bind (c : Context) (n : Text) (value : Json) (name : Text) :
    (c.bind n value).get? name = if name = n then some value else c.get? name := by
  rw [bind, get?_extend, Record.get?_cons]
  split <;> rfl

/-! ### Contexts made one after the other -/

/-- How one more context is made: from a value, or from the context of that number with more
bindings. An object has each of its members once. -/
inductive Making where
  | ofJson (value : Json)
      (distinct : ∀ members, value = .object members → (Record.names members).Nodup)
  | extend (base : Nat) (vars : Record Json) (distinct : vars.names.Nodup)
  | bind (base : Nat) (name : Text) (value : Json)

/-- The contexts after one more is made, if it can be. -/
def make (cs : List Context) : Making → List Context
  | .ofJson value _ => cs ++ (ofJson? value).toList
  | .extend base vars _ => cs ++ (cs[base]?.map (·.extend vars)).toList
  | .bind base name value => cs ++ (cs[base]?.map (·.bind name value)).toList

/-- The contexts made in turn. -/
def makeAll (makings : List Making) : List Context := makings.foldl make []

lemma make_eq_append (cs : List Context) (m : Making) : ∃ new, make cs m = cs ++ new := by
  cases m <;> exact ⟨_, rfl⟩

lemma makeAll_append (before after : List Making) :
    ∃ new, makeAll (before ++ after) = makeAll before ++ new := by
  induction after using List.reverseRecOn with
  | nil => exact ⟨[], by simp⟩
  | append_singleton after m ih =>
    obtain ⟨new, hnew⟩ := ih
    obtain ⟨one, hone⟩ := make_eq_append (makeAll (before ++ after)) m
    refine ⟨new ++ one, ?_⟩
    rw [makeAll] at hone hnew ⊢
    rw [← List.append_assoc, List.foldl_append, List.foldl_cons, List.foldl_nil, hone, hnew,
      List.append_assoc]

lemma Distinct.extend (hc : c.Distinct) {vars : Record Json} (hvars : vars.names.Nodup) :
    (c.extend vars).Distinct :=
  List.forall_mem_cons.2 ⟨hvars, hc⟩

lemma distinct_ofJson? {value : Json}
    (hvalue : ∀ members, value = .object members → (Record.names members).Nodup)
    (h : ofJson? value = some c) : c.Distinct := by
  cases value <;> cases h
  · exact List.forall_mem_nil _
  · exact List.forall_mem_singleton.2 (hvalue _ rfl)

lemma distinct_make (hcs : ∀ c ∈ cs, c.Distinct) (m : Making) : ∀ c ∈ make cs m, c.Distinct := by
  intro c hc
  cases m with
  | ofJson value distinct =>
    rcases List.mem_append.1 hc with hc | hc
    · exact hcs c hc
    · exact distinct_ofJson? distinct (Option.mem_toList.1 hc)
  | extend base vars distinct =>
    rcases List.mem_append.1 hc with hc | hc
    · exact hcs c hc
    · obtain ⟨b, hb, rfl⟩ := Option.map_eq_some_iff.1 (Option.mem_toList.1 hc)
      exact (hcs b (List.mem_of_getElem? hb)).extend distinct
  | bind base name value =>
    rcases List.mem_append.1 hc with hc | hc
    · exact hcs c hc
    · obtain ⟨b, hb, rfl⟩ := Option.map_eq_some_iff.1 (Option.mem_toList.1 hc)
      exact (hcs b (List.mem_of_getElem? hb)).extend (List.nodup_singleton name)

lemma distinct_makeAll (makings : List Making) : ∀ c ∈ makeAll makings, c.Distinct := by
  induction makings using List.reverseRecOn with
  | nil => exact List.forall_mem_nil _
  | append_singleton makings m ih =>
    rw [makeAll, List.foldl_append]
    exact distinct_make ih m

/-- **A context and its object agree.** Every context that was made has for each name the value
that its object has, and none if that has none; the object has each name once, in the order of the
first bindings from the outermost layer on. A name bound further in hides the others and leaves
them where they are: the contexts made before stay what they were, whatever is made of them. -/
theorem get?_makeAll {before : List Making} {i : Nat} {c : Context}
    (hc : (makeAll before)[i]? = some c) (after : List Making) (vars : Record Json) (n : Text)
    (value : Json) (name : Text) :
    (∃ members, c.toJson = .object members ∧ c.get? name = Record.get? members name ∧
      c.has name = Record.has members name ∧
      Record.names members = (c.layers.reverse.flatMap Record.names).eraseDups ∧
      (Record.names members).Nodup) ∧
    (c.extend vars).get? name = (vars.get? name).or (c.get? name) ∧
    (c.bind n value).get? name = (if name = n then some value else c.get? name) ∧
    (makeAll (before ++ after))[i]? = some c := by
  have hget := get?_members (distinct_makeAll before c (List.mem_of_getElem? hc)) name
  refine ⟨⟨c.members, rfl, hget.symm, ?_, names_members c, nodup_names_members c⟩,
    get?_extend c vars name, get?_bind c n value name, ?_⟩
  · rw [has, Record.has, hget]
  · obtain ⟨new, hnew⟩ := makeAll_append before after
    rw [hnew, List.getElem?_append_left (List.getElem?_eq_some_iff.1 hc).1, hc]

/-- A name hidden by `null`, in a context that another one is made of. -/
theorem get?_makeAll_hidden :
    let before : List Making :=
      [.ofJson (.object [("a", .bool true), ("b", .bool false)]) (by rintro _ ⟨⟩; decide),
        .bind 0 "a" .null]
    let after : List Making := [.extend 1 [("c", .null), ("a", .bool false)] (by decide)]
    ∃ c, (makeAll before)[1]? = some c ∧ c.toJson = .object [("a", .null), ("b", .bool false)] ∧
      c.get? "a" = some .null ∧ (c.bind "c" .null).get? "a" = some .null ∧
      (makeAll (before ++ after))[1]? = some c := by
  intro before after
  obtain ⟨c, hc⟩ : ∃ c, (makeAll before)[1]? = some c := ⟨_, rfl⟩
  obtain ⟨⟨members, hmembers, hget, -⟩, -, hbind, hlater⟩ :=
    get?_makeAll hc after [] "c" .null "a"
  cases hc
  cases hmembers
  exact ⟨_, rfl, rfl, hget, hbind.trans hget, hlater⟩

end Context

end HtmlTemplate
