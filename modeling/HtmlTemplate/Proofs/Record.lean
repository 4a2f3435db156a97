import Mathlib.Data.List.Induction
import HtmlTemplate.Record

/-!
Looking up names in records.
-/

namespace HtmlTemplate

namespace Record

variable {α : Type} {r : Record α} {name : Text} {a : α}

lemma get?_eq_none_iff : r.get? name = none ↔ name ∉ r.names := by
  unfold get? names
  rw [List.lookup_eq_none_iff]
  simp only [bne_iff_ne, List.mem_map, not_exists, not_and]
  exact ⟨fun h p hp hn => h p hp hn.symm, fun h p hp hn => h p hp hn.symm⟩

lemma set_of_get?_eq_none (h : r.get? name = none) : r.set name a = r ++ [(name, a)] := by
  induction r with
  | nil => rfl
  | cons p r ih =>
    rw [get?_eq_none_iff, names, List.map_cons, List.mem_cons, not_or] at h
    rw [set, if_neg (Ne.symm h.1), ih (get?_eq_none_iff.2 h.2)]
    rfl

lemma get?_cons {p : Text × α} :
    get? (p :: r) name = if name = p.1 then some p.2 else r.get? name := by
  rw [get?, List.lookup_cons]
  by_cases h : name = p.1
  · rw [if_pos h, h, beq_self_eq_true]
  · rw [if_neg h, beq_false_of_ne h]
    rfl

lemma mem_of_get? (h : r.get? name = some a) : (name, a) ∈ r := by
  obtain ⟨before, after, rfl, -⟩ := List.lookup_eq_some_iff.1 h
  simp

lemma get?_of_mem (hr : r.names.Nodup) (h : (name, a) ∈ r) : r.get? name = some a := by
  induction r with
  | nil => cases h
  | cons p r ih =>
    obtain ⟨hp, hr⟩ := List.nodup_cons.1 hr
    rw [get?_cons]
    rcases List.mem_cons.1 h with rfl | h
    · rw [if_pos rfl]
    · have hne : name ≠ p.1 := fun heq => hp (heq ▸ List.mem_map_of_mem h)
      rw [if_neg hne, ih hr h]

lemma get?_set {name' : Text} :
    (r.set name a).get? name' = if name' = name then some a else r.get? name' := by
  induction r with
  | nil => exact get?_cons
  | cons p r ih =>
    obtain ⟨n, b⟩ := p
    rw [set, get?_cons]
    split <;> rename_i hn
    · subst hn
      rw [get?_cons]
      split <;> rfl
    · rw [get?_cons, ih]
      dsimp only
      split <;> rename_i hn'
      · rw [if_neg (hn' ▸ hn)]
      · rfl

lemma eq_or_mem_of_mem_set {e : Text × α} (h : e ∈ r.set name a) : e = (name, a) ∨ e ∈ r := by
  induction r with
  | nil => exact .inl (List.mem_singleton.1 h)
  | cons p r ih =>
    obtain ⟨n, b⟩ := p
    rw [set] at h
    split at h <;> rename_i hn
    · subst hn
      exact (List.mem_cons.1 h).imp_right (List.mem_cons_of_mem _)
    · rcases List.mem_cons.1 h with rfl | h
      · exact .inr List.mem_cons_self
      · exact (ih h).imp_right (List.mem_cons_of_mem _)

lemma names_set : (r.set name a).names = if name ∈ r.names then r.names else r.names ++ [name] := by
  induction r with
  | nil => rfl
  | cons p r ih =>
    obtain ⟨n, b⟩ := p
    rw [set]
    by_cases hn : n = name
    · subst hn
      simp [names]
    · have hne : name ≠ n := Ne.symm hn
      rw [if_neg hn]
      simp only [names, List.map_cons, List.mem_cons, hne, false_or] at ih ⊢
      rw [ih]
      by_cases hr : name ∈ r.map Prod.fst <;> simp [hr]

lemma setAll_append (r s u : Record α) : r.setAll (s ++ u) = (r.setAll s).setAll u :=
  List.foldl_append

/-- Setting one value after the other leaves each name where it was set first. -/
lemma names_setAll (s : Record α) : (setAll [] s).names = s.names.eraseDups := by
  induction s using List.reverseRecOn with
  | nil => rfl
  | append_singleton s e ih =>
    have hnames : names (s ++ [e]) = names s ++ [e.1] := List.map_append
    have hlast : (setAll [] (s ++ [e])).names = ((setAll [] s).set e.1 e.2).names := by
      rw [setAll_append]
      rfl
    rw [hlast, names_set, ih, hnames, List.eraseDups_append]
    by_cases he : e.1 ∈ names s <;> simp [he, List.removeAll, List.eraseDups_cons]

/-- It leaves the value that was set last. -/
lemma get?_setAll (s : Record α) (name : Text) :
    (setAll [] s).get? name = Record.get? s.reverse name := by
  induction s using List.reverseRecOn with
  | nil => rfl
  | append_singleton s e ih =>
    have hlast : (setAll [] (s ++ [e])).get? name = ((setAll [] s).set e.1 e.2).get? name := by
      rw [setAll_append]
      rfl
    rw [hlast, get?_set, ih, List.reverse_append, List.reverse_singleton, List.singleton_append,
      get?_cons]

end Record

end HtmlTemplate
