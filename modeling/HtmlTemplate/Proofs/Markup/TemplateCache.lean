import Mathlib.Data.Finset.Card
import Mathlib.Data.List.Basic
import HtmlTemplate.Markup.TemplateCache
import HtmlTemplate.Proofs.Record

/-!
What a cache of parsed templates holds.

It holds exactly the templates that were asked for and could be parsed, each under its digest. As
long as no two of their texts have one digest, fetching a template is parsing it.
-/

namespace HtmlTemplate

namespace TemplateCache

/-- The cache holds the templates of `ts`, and no others. -/
structure Holds (c : TemplateCache) (ts : List Text) : Prop where
  /-- Digests stand there once. -/
  nodup : c.entries.names.Nodup
  /-- Every digest is the one of a text that can be parsed. -/
  sound : ∀ d ∈ c.entries.names, ∃ t ∈ ts, (parseTemplate t).isOk ∧ Digest.ofText t = d
  /-- Every text that can be parsed has its own trees. -/
  complete : ∀ t ∈ ts, ∀ nodes, parseTemplate t = .ok nodes →
    ∃ serial, c.entries.get? (Digest.ofText t) = some ⟨serial, nodes⟩

variable {c : TemplateCache} {ts us : List Text} {U : Set Text}

lemma holds_empty : empty.Holds [] := ⟨List.nodup_nil, by simp [empty, Record.names], by simp⟩

lemma holds_clear (c : TemplateCache) : c.clear.Holds [] :=
  ⟨List.nodup_nil, by simp [clear, Record.names], by simp⟩

/-- Only the texts that can be parsed count. -/
lemma Holds.of_mem_iff (h : c.Holds ts)
    (hus : ∀ t, (parseTemplate t).isOk → (t ∈ us ↔ t ∈ ts)) : c.Holds us where
  nodup := h.nodup
  sound d hd := by
    obtain ⟨t, ht, hok, heq⟩ := h.sound d hd
    exact ⟨t, (hus t hok).2 ht, hok, heq⟩
  complete t ht nodes hp := h.complete t ((hus t (by rw [hp]; rfl)).1 ht) nodes hp

lemma Holds.digest_mem (h : c.Holds ts) {t : Text} (ht : t ∈ ts) (hok : (parseTemplate t).isOk) :
    Digest.ofText t ∈ c.entries.names := by
  cases hp : parseTemplate t with
  | error e =>
    rw [hp] at hok
    cases hok
  | ok nodes =>
    obtain ⟨serial, hget⟩ := h.complete t ht nodes hp
    by_contra hn
    rw [Record.get?_eq_none_iff.2 hn] at hget
    cases hget

/-- What is stored under a new digest is held besides the rest. -/
lemma Holds.store (h : c.Holds ts) {source : Text} {nodes : List Node}
    (hd : c.entries.get? (Digest.ofText source) = none) (hp : parseTemplate source = .ok nodes) :
    Holds ⟨c.entries.set (Digest.ofText source) ⟨c.stored, nodes⟩, c.stored + 1⟩
      (source :: ts) := by
  have hnot := Record.get?_eq_none_iff.1 hd
  rw [Record.set_of_get?_eq_none hd]
  refine ⟨?_, fun d hdm => ?_, fun t ht nodes' hn => ?_⟩
  · simp only [Record.names, List.map_append, List.map_cons, List.map_nil]
    refine List.nodup_append.2 ⟨h.nodup, by simp, fun d hdm d' hdm' => ?_⟩
    rw [List.mem_singleton.1 hdm']
    rintro rfl
    exact hnot hdm
  · simp only [Record.names, List.map_append, List.map_cons, List.map_nil, List.mem_append,
      List.mem_singleton] at hdm
    rcases hdm with hdm | rfl
    · obtain ⟨t, ht, hok⟩ := h.sound d hdm
      exact ⟨t, List.mem_cons_of_mem _ ht, hok⟩
    · exact ⟨source, List.mem_cons_self, by rw [hp]; rfl, rfl⟩
  · dsimp only [Record.get?] at hd ⊢
    rw [List.lookup_append]
    rcases List.mem_cons.1 ht with rfl | ht
    · rw [hp] at hn
      cases hn
      exact ⟨c.stored, by simp [hd]⟩
    · obtain ⟨serial, hget⟩ := h.complete t ht nodes' hn
      exact ⟨serial, by rw [show c.entries.lookup _ = _ from hget]; rfl⟩

variable (hU : Set.InjOn Digest.ofText U) (hts : ∀ t ∈ ts, t ∈ U)
include hU hts

/-- A text whose digest is found was asked for before. -/
lemma Holds.mem_of_get? (h : c.Holds ts) {source : Text} (hs : source ∈ U) {tree : StoredTree}
    (hd : c.entries.get? (Digest.ofText source) = some tree) :
    source ∈ ts ∧ parseTemplate source = .ok tree.nodes := by
  have hmem : Digest.ofText source ∈ c.entries.names := by
    by_contra hn
    rw [Record.get?_eq_none_iff.2 hn] at hd
    cases hd
  obtain ⟨t, ht, hok, heq⟩ := h.sound _ hmem
  obtain rfl := hU (hts t ht) hs heq
  cases hp : parseTemplate t with
  | error e =>
    rw [hp] at hok
    cases hok
  | ok nodes =>
    obtain ⟨serial, hget⟩ := h.complete t ht nodes hp
    rw [hd] at hget
    cases hget
    exact ⟨ht, rfl⟩

/-- **Fetching is parsing**, and what was fetched is held. -/
theorem Holds.fetch (h : c.Holds ts) {source : Text} (hs : source ∈ U) :
    (c.fetch source).1.map StoredTree.nodes = parseTemplate source ∧
      (c.fetch source).2.Holds (source :: ts) := by
  unfold TemplateCache.fetch
  dsimp only
  cases hd : c.entries.get? (Digest.ofText source) with
  | some tree =>
    obtain ⟨hmem, hp⟩ := h.mem_of_get? hU hts hs hd
    refine ⟨hp.symm, h.of_mem_iff fun t _ => List.mem_cons.trans (or_iff_right_of_imp ?_)⟩
    rintro rfl
    exact hmem
  | none =>
    cases hp : parseTemplate source with
    | error e =>
      refine ⟨rfl, h.of_mem_iff fun t hok => List.mem_cons.trans (or_iff_right ?_)⟩
      rintro rfl
      rw [hp] at hok
      cases hok
    | ok nodes => exact ⟨rfl, h.store hd hp⟩

/-- The size is the number of different texts. -/
theorem Holds.size_eq (h : c.Holds ts) :
    c.size = (ts.filter fun t => (parseTemplate t).isOk).toFinset.card := by
  have hnames : c.entries.names.toFinset =
      (ts.filter fun t => (parseTemplate t).isOk).toFinset.image Digest.ofText := by
    ext d
    simp only [List.mem_toFinset, Finset.mem_image, List.mem_filter]
    constructor
    · intro hd
      obtain ⟨t, ht, hok, heq⟩ := h.sound d hd
      exact ⟨t, ⟨ht, hok⟩, heq⟩
    · rintro ⟨t, ⟨ht, hok⟩, rfl⟩
      exact h.digest_mem ht hok
  have hinj : Set.InjOn Digest.ofText
      ((ts.filter fun t => (parseTemplate t).isOk).toFinset : Set Text) :=
    hU.mono fun t ht => hts t (List.mem_of_mem_filter (List.mem_toFinset.1 ht))
  calc c.size = c.entries.names.length := (List.length_map _).symm
    _ = c.entries.names.toFinset.card := (List.toFinset_card_of_nodup h.nodup).symm
    _ = _ := by rw [hnames, Finset.card_image_of_injOn hinj]

end TemplateCache

end HtmlTemplate
