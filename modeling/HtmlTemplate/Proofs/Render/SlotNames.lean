import HtmlTemplate.Proofs.Markup.Numbering
import HtmlTemplate.Proofs.Render.Blame

/-!
Slots with one name.

A template with two holes of one name is not loaded: it fails at the first hole, in document order,
that has the name of an earlier one. An inclusion with two fills of one name, or with an element
that is no fill, fails in the same way whatever files there are, since its children come before the
path and the files.
-/

namespace HtmlTemplate

open Node

/-! ### Nodes in document order -/

namespace Node

/-- A node without what is below it. -/
def alone : Node → Node
  | leaf kind raw line => .leaf kind raw line
  | element head closed _ => .element head closed []

variable (n : Node)

lemma isHole_alone : isHole n.alone = isHole n := by cases n <;> rfl

lemma slotName_alone : slotName n.alone = slotName n := by cases n <;> rfl

lemma place_alone (t : Template) : t.place n.alone = t.place n := by cases n <;> rfl

end Node

namespace NodeTable

/-- The node that is met after `k` others from the roots, depth first. -/
def node? (d : NodeTable) (k : Nat) : Option Node :=
  (d.descendants[k]?.bind d.row?).map Row.node

/-- The node after `k` others is a hole, and has the name of one of them. -/
def Repeats (d : NodeTable) (k : Nat) (m : Node) : Prop :=
  d.node? k = some m ∧ isHole m = true ∧
    ∃ i < k, ∃ n, d.node? i = some n ∧ isHole n = true ∧ slotName n = slotName m

lemma map_node_forestRows (parent : Option Nat) (start index : Nat) (ns : List Node) :
    (forestRows parent start index ns).map Row.node = (nodesAll ns).map alone := by
  induction ns using forest_induction generalizing parent start index with
  | nil => rfl
  | leaf kind raw line ns ih =>
    rw [forestRows_leaf, nodesAll_leaf, List.map_cons, List.map_cons, ih]
    rfl
  | element head closed children ns ihc ihn =>
    rw [forestRows_element, nodesAll_element, List.map_cons, List.map_cons, List.map_append,
      List.map_append, ihc, ihn]
    rfl

lemma node?_ofForest (ns : List Node) (k : Nat) :
    (ofForest ns).node? k = (nodesAll ns)[k]?.map alone := by
  have hrow : (ofForest ns).node? k = ((ofForest ns).rows.map Row.node)[k]? := by
    rw [node?, descendants, visit_ofForest ns (Nat.le_refl _), List.getElem?_map]
    rcases Nat.lt_or_ge k (ofForest ns).rows.length with hlt | hge
    · rw [List.getElem?_range hlt]
      rfl
    · rw [List.getElem?_eq_none (by rwa [List.length_range]), List.getElem?_eq_none hge]
      rfl
  rw [hrow, ← List.getElem?_map]
  exact congrArg (·[k]?) (map_node_forestRows none 0 0 ns)

end NodeTable

/-! ### Holes that repeat a name -/

/-- Among nodes, the one after `k` others is a hole, and has the name of one of them. -/
def RepeatedAt (all : List Node) (k : Nat) (m : Node) : Prop :=
  all[k]? = some m ∧ isHole m = true ∧
    ∃ i < k, ∃ n, all[i]? = some n ∧ isHole n = true ∧ slotName n = slotName m

lemma firstRepeated?_cons (seen : List Text) (n : Node) (ns : List Node) :
    firstRepeated? seen (n :: ns) =
      if slotName n ∈ seen then some n else firstRepeated? (slotName n :: seen) ns := rfl

lemma firstRepeated?_concat (seen : List Text) (ns : List Node) (m : Node) :
    firstRepeated? seen (ns ++ [m]) =
      (firstRepeated? seen ns).or
        (if slotName m ∈ seen ∨ slotName m ∈ ns.map slotName then some m else none) := by
  induction ns generalizing seen with
  | nil =>
    have hnil (seen : List Text) : firstRepeated? seen [] = none := rfl
    simp [firstRepeated?_cons, hnil]
  | cons n ns ih =>
    rw [List.cons_append, firstRepeated?_cons, firstRepeated?_cons]
    split
    · rfl
    · rw [ih]
      simp only [List.mem_cons, List.map_cons]
      congr 2
      exact propext (by tauto)

section Holes

variable {all : List Node} {x m : Node} {k : Nat}

lemma repeatedAt_concat : RepeatedAt (all ++ [x]) k m ↔ RepeatedAt all k m ∨
    k = all.length ∧ m = x ∧ isHole x = true ∧ slotName x ∈ (all.filter isHole).map slotName := by
  have hbefore (i : Nat) (hi : i < all.length) : (all ++ [x])[i]? = all[i]? :=
    List.getElem?_append_left hi
  rcases Nat.lt_trichotomy k all.length with hlt | rfl | hgt
  · have hsame : RepeatedAt (all ++ [x]) k m ↔ RepeatedAt all k m := by
      rw [RepeatedAt, RepeatedAt, hbefore k hlt]
      refine and_congr_right fun _ => and_congr_right fun _ => exists_congr fun i =>
        and_congr_right fun hi => ?_
      rw [hbefore i (hi.trans hlt)]
    rw [hsame]
    exact ⟨.inl, fun h => h.resolve_right fun h => absurd h.1 hlt.ne⟩
  · have hnone : ¬ RepeatedAt all all.length m := fun h => by
      rw [RepeatedAt, List.getElem?_eq_none (Nat.le_refl _)] at h
      cases h.1
    rw [RepeatedAt, List.getElem?_concat_length, Option.some.injEq]
    constructor
    · rintro ⟨rfl, hm, i, hi, n, hn, hhole, hname⟩
      rw [hbefore i hi] at hn
      refine .inr ⟨rfl, rfl, hm, List.mem_map.2 ⟨n, List.mem_filter.2 ⟨?_, hhole⟩, hname⟩⟩
      exact List.mem_of_getElem? hn
    · rintro (h | ⟨-, rfl, hm, hmem⟩)
      · exact absurd h hnone
      · obtain ⟨n, hn, hname⟩ := List.mem_map.1 hmem
        obtain ⟨hn, hhole⟩ := List.mem_filter.1 hn
        obtain ⟨i, hi⟩ := List.mem_iff_getElem?.1 hn
        have hlt := (List.getElem?_eq_some_iff.1 hi).1
        exact ⟨rfl, hm, i, hlt, n, (hbefore i hlt).trans hi, hhole, hname⟩
  · have hnone (ns : List Node) (hns : ns.length ≤ k) : ¬ RepeatedAt ns k m := fun h => by
      rw [RepeatedAt, List.getElem?_eq_none hns] at h
      cases h.1
    refine ⟨fun h => absurd h (hnone _ ?_), ?_⟩
    · rw [List.length_append, List.length_singleton]
      omega
    · rintro (h | ⟨h, -⟩)
      · exact absurd h (hnone _ hgt.le)
      · omega

/-- What is found is the first hole that repeats a name. -/
lemma firstRepeated?_holes (all : List Node) :
    (firstRepeated? [] (all.filter isHole) = none ∧ ∀ k m, ¬ RepeatedAt all k m) ∨
      ∃ k m, firstRepeated? [] (all.filter isHole) = some m ∧ RepeatedAt all k m ∧
        ∀ j < k, ∀ n, ¬ RepeatedAt all j n := by
  induction all using List.reverseRecOn with
  | nil =>
    refine .inl ⟨rfl, fun k m h => ?_⟩
    cases h.1
  | append_singleton all x ih =>
    rw [List.filter_append]
    rcases ih with ⟨hnone, hfresh⟩ | ⟨k, m, hsome, hrepeated, hfirst⟩
    · by_cases hx : isHole x = true ∧ slotName x ∈ (all.filter isHole).map slotName
      · refine .inr ⟨all.length, x, ?_, repeatedAt_concat.2 (.inr ⟨rfl, rfl, hx⟩), ?_⟩
        · rw [List.filter_cons_of_pos hx.1, List.filter_nil, firstRepeated?_concat, hnone,
            if_pos (.inr hx.2)]
          rfl
        · intro j hj n h
          rcases repeatedAt_concat.1 h with h | ⟨rfl, -⟩
          · exact hfresh j n h
          · exact absurd hj (Nat.lt_irrefl _)
      · refine .inl ⟨?_, fun k m h => ?_⟩
        · cases hhole : isHole x with
          | false =>
            rw [List.filter_cons_of_neg (by simp [hhole]), List.filter_nil, List.append_nil, hnone]
          | true =>
            have hname : slotName x ∉ (all.filter isHole).map slotName := fun h => hx ⟨hhole, h⟩
            rw [List.filter_cons_of_pos hhole, List.filter_nil, firstRepeated?_concat, hnone,
              if_neg (by simpa using hname)]
            rfl
        · rcases repeatedAt_concat.1 h with h | ⟨-, -, h⟩
          · exact hfresh k m h
          · exact hx h
    · refine .inr ⟨k, m, ?_, repeatedAt_concat.2 (.inl hrepeated), fun j hj n h => ?_⟩
      · cases hhole : isHole x with
        | false =>
          rw [List.filter_cons_of_neg (by simp [hhole]), List.filter_nil, List.append_nil, hsome]
        | true =>
          rw [List.filter_cons_of_pos hhole, List.filter_nil, firstRepeated?_concat, hsome]
          rfl
      · have hlt := (List.getElem?_eq_some_iff.1 hrepeated.1).1
        rcases repeatedAt_concat.1 h with h | ⟨rfl, -⟩
        · exact hfirst j hj n h
        · omega

end Holes

namespace NodeTable

variable {ns : List Node} {k : Nat} {m : Node}

lemma repeats_iff :
    (ofForest ns).Repeats k m ↔ ∃ n, RepeatedAt (nodesAll ns) k n ∧ n.alone = m := by
  simp only [Repeats, RepeatedAt, node?_ofForest, Option.map_eq_some_iff]
  constructor
  · rintro ⟨⟨n, hn, rfl⟩, hhole, i, hi, -, ⟨a, ha, rfl⟩, hhole', hname⟩
    rw [isHole_alone] at hhole hhole'
    rw [slotName_alone, slotName_alone] at hname
    exact ⟨n, ⟨hn, hhole, i, hi, a, ha, hhole', hname⟩, rfl⟩
  · rintro ⟨n, ⟨hn, hhole, i, hi, a, ha, hhole', hname⟩, rfl⟩
    refine ⟨⟨n, hn, rfl⟩, ?_, i, hi, a.alone, ⟨a, ha, rfl⟩, ?_, ?_⟩
    · rwa [isHole_alone]
    · rwa [isHole_alone]
    · rwa [slotName_alone, slotName_alone]

/-- Of two holes with one name, one repeats the name of the other. -/
lemma exists_repeats_iff {d : NodeTable} : (∃ k m, d.Repeats k m) ↔ ∃ i j n m, i ≠ j ∧
    d.node? i = some n ∧ d.node? j = some m ∧ isHole n = true ∧ isHole m = true ∧
      slotName n = slotName m := by
  constructor
  · rintro ⟨k, m, hm, hhole, i, hi, n, hn, hhole', hname⟩
    exact ⟨i, k, n, m, hi.ne, hn, hm, hhole', hhole, hname⟩
  · rintro ⟨i, j, n, m, hne, hn, hm, hhole, hhole', hname⟩
    rcases Nat.lt_or_gt_of_ne hne with hlt | hgt
    · exact ⟨j, m, hm, hhole', i, hlt, n, hn, hhole, hname⟩
    · exact ⟨i, n, hn, hhole, j, hgt, m, hm, hhole', hname.symm⟩

end NodeTable

/-- How loading fails at a hole that repeats a name. -/
def repeatedHole (t : Template) (m : Node) : Failure :=
  ⟨.misuse .duplicateSlotName (repeatedMessage .hole (slotName m)), [t.place m]⟩

/-- Loading a text that is read as these nodes fails at the first hole that repeats a name, and only
there. -/
lemma fst_exec_loadTemplate {keep : Bool} {source : Text} {s : Store} {ns : List Node}
    (hread : (exec (parseKept keep source) s).1 = .ok (.ok ns)) (file : Option Text) :
    (exec (loadTemplate keep file source) s).1 =
      match firstRepeated? [] ((nodesAll ns).filter isHole) with
      | none => .ok ⟨file, ns⟩
      | some m => .error (.failed (repeatedHole ⟨file, ns⟩ m)) := by
  rw [loadTemplate, exec_bind]
  rcases hrun : exec (parseKept keep source) s with ⟨r, t⟩
  rw [hrun] at hread
  cases hread
  change (exec (checkHoles ⟨file, ns⟩ >>= fun _ => pure (⟨file, ns⟩ : Template)) t).1 = _
  rw [exec_bind, checkHoles]
  cases firstRepeated? [] ((nodesAll ns).filter isHole) <;> rfl

/-- Either no hole repeats a name, or loading fails at the first one that does. -/
lemma fst_exec_loadTemplate_cases {keep : Bool} {source : Text} {s : Store} {ns : List Node}
    (hread : (exec (parseKept keep source) s).1 = .ok (.ok ns)) (file : Option Text) :
    let d := NodeTable.ofForest ns
    let loaded := (exec (loadTemplate keep file source) s).1
    (loaded = .ok ⟨file, ns⟩ ∧ ∀ k m, ¬ d.Repeats k m) ∨
      ∃ k m, loaded = .error (.failed (repeatedHole ⟨file, ns⟩ m)) ∧ d.Repeats k m ∧
        ∀ j < k, ∀ n, ¬ d.Repeats j n := by
  intro d loaded
  have hloaded : loaded = _ := fst_exec_loadTemplate hread file
  rcases firstRepeated?_holes (nodesAll ns) with ⟨hnone, hfresh⟩ | ⟨k, m, hsome, hrepeated, hfirst⟩
  · rw [hnone] at hloaded
    refine .inl ⟨hloaded, fun k m h => ?_⟩
    obtain ⟨n, hn, -⟩ := NodeTable.repeats_iff.1 h
    exact hfresh k n hn
  · rw [hsome] at hloaded
    refine .inr ⟨k, m.alone, ?_, NodeTable.repeats_iff.2 ⟨m, hrepeated, rfl⟩, fun j hj n h => ?_⟩
    · rw [hloaded, repeatedHole, slotName_alone, place_alone]
      rfl
    · obtain ⟨n, hn, -⟩ := NodeTable.repeats_iff.1 h
      exact hfirst j hj n hn

/-! ### Children that an inclusion may not have -/

namespace Node

/-- An element among the children is no fill, or two fills have one name. -/
def Misfilled (n : Node) : Prop :=
  (∃ m ∈ n.children, m.isElement = true ∧ isFill m = false) ∨
    ∃ (i j : Nat) (m m' : Node), i < j ∧ n.children[i]? = some m ∧ n.children[j]? = some m' ∧
      isFill m = true ∧ isFill m' = true ∧ slotName m = slotName m'

variable {before ns : List Node} {m n : Node} {f : Fault}

lemma exists_firstUnfit {a b : List Node} (hns : ns = a ++ m :: b) (h : Unfit (before ++ a) m f) :
    ∃ m f, FirstUnfit before ns m f := by
  subst hns
  induction a generalizing before with
  | nil =>
    rw [List.append_nil] at h
    exact ⟨m, f, .here h⟩
  | cons n a ih =>
    by_cases hn : ∃ g, Unfit before n g
    · obtain ⟨g, hg⟩ := hn
      exact ⟨n, g, .here hg⟩
    · rw [← List.singleton_append, ← List.append_assoc] at h
      obtain ⟨m', f', h'⟩ := ih h
      exact ⟨m', f', .later (not_exists.1 hn) h'⟩

lemma Misfilled.exists_firstUnfit (h : n.Misfilled) : ∃ m f, FirstUnfit [] n.children m f := by
  rcases h with ⟨m, hm, helement, hfill⟩ | ⟨i, j, m, m', hlt, hm, hm', hfill, hfill', hname⟩
  · obtain ⟨a, b, hsplit⟩ := List.append_of_mem hm
    exact Node.exists_firstUnfit hsplit (.stray helement hfill)
  · obtain ⟨hj, rfl⟩ := List.getElem?_eq_some_iff.1 hm'
    have hsplit : n.children = n.children.take j ++ n.children[j] :: n.children.drop (j + 1) := by
      rw [List.getElem_cons_drop, List.take_append_drop]
    have hmem : m ∈ n.children.take j :=
      List.mem_of_getElem? ((List.getElem?_take_of_lt hlt).trans hm)
    refine Node.exists_firstUnfit hsplit (.repeated hfill' ?_)
    exact List.mem_map.2 ⟨m, List.mem_filter.2 ⟨hmem, hfill⟩, hname⟩

end Node

section Inclusion

variable {setup : Setup} {walk : Walk} {t : Template} {n m : Node} {scope : Scope} {f : Fault}

lemma renderInclusion_of_missing (h : n.attributes.get? "file" = none) :
    renderInclusion setup walk t n scope = throw (.failed (.ofFault (.misuse .missingAttribute
      ("Missing attribute \"file\" for " ++ n.tag)))) := by
  rw [renderInclusion, demand, h]
  rfl

lemma renderInclusion_of_firstUnfit {file : Text} (hfile : n.attributes.get? "file" = some file)
    (h : FirstUnfit [] n.children m f) :
    renderInclusion setup walk t n scope = throw (.failed ⟨f, [t.place m]⟩) := by
  have hfills : fillsOf t n = throw (.failed ⟨f, [t.place m]⟩) := h.fillsFrom_eq t
  rw [renderInclusion, demand, hfile, hfills]
  rfl

lemma exec_render_of_renderInclusion (htag : Directive.ofTag? n.tag = some .inclusion)
    {e : Failure} (h : renderInclusion setup walk t n scope = throw (.failed e))
    (taken : Option Bool) (s : Store) :
    exec (Node.render setup walk t scope n taken) s =
      (.error (.failed (e.through (t.place n))), s) := by
  have helement : renderElement setup walk t n scope (taken.getD false) = throw (.failed e) := by
    rw [renderElement, htag]
    change (do return mark setup _ (← renderInclusion setup walk t n scope)) = _
    rw [h]
    rfl
  cases n with
  | leaf kind raw line => cases htag
  | element head closed children =>
    rw [Node.render, Render.exec_within, helement]
    rfl

end Inclusion

/-- **A template has one hole of a name, and an inclusion one fill.** Loading a text that is read
as a document fails exactly if two holes of the document have one name, and it fails at the first
hole in document order that has the name of an earlier one. Rendering an inclusion with an element
that is no fill, or with two fills of one name, is one failure whatever files there are; nothing is
read. -/
theorem slots_checked {keep : Bool} {source : Text} {s : Store} {ns : List Node}
    (hread : (exec (parseKept keep source) s).1 = .ok (.ok ns)) (file : Option Text) :
    let d := NodeTable.ofForest ns
    let loaded := (exec (loadTemplate keep file source) s).1
    ((∃ message places, loaded = .error (.failed ⟨.misuse .duplicateSlotName message, places⟩)) ↔
        ∃ i j n m, i ≠ j ∧ d.node? i = some n ∧ d.node? j = some m ∧ isHole n = true ∧
          isHole m = true ∧ slotName n = slotName m) ∧
      (∀ k m, d.Repeats k m → (∀ j < k, ∀ n, ¬ d.Repeats j n) →
        loaded = .error (.failed (repeatedHole ⟨file, ns⟩ m))) ∧
      ((∀ k m, ¬ d.Repeats k m) → loaded = .ok ⟨file, ns⟩) ∧
      ∀ (t : Template) (n : Node), Directive.ofTag? n.tag = some .inclusion → n.Misfilled →
        ∃ failure : Failure,
          (∀ setup walk scope taken s,
            exec (Node.render setup walk t scope n taken) s = (.error (.failed failure), s)) ∧
          (n.attributes.get? "file" = none → failure = ⟨.misuse .missingAttribute
            ("Missing attribute \"file\" for " ++ n.tag), [t.place n]⟩) ∧
          ∀ file, n.attributes.get? "file" = some file →
            ∃ m f, FirstUnfit [] n.children m f ∧ failure = ⟨f, [t.place m, t.place n]⟩ := by
  intro d loaded
  have hcases : (loaded = .ok ⟨file, ns⟩ ∧ ∀ k m, ¬ d.Repeats k m) ∨
      ∃ k m, loaded = .error (.failed (repeatedHole ⟨file, ns⟩ m)) ∧ d.Repeats k m ∧
        ∀ j < k, ∀ n, ¬ d.Repeats j n := fst_exec_loadTemplate_cases hread file
  refine ⟨?names, ?first, ?fresh, ?fills⟩
  case names =>
    rw [← NodeTable.exists_repeats_iff]
    rcases hcases with ⟨hok, hfresh⟩ | ⟨k, m, herror, hrepeats, -⟩
    · refine ⟨fun ⟨message, places, h⟩ => ?_, fun ⟨k, m, h⟩ => absurd h (hfresh k m)⟩
      rw [hok] at h
      cases h
    · exact ⟨fun _ => ⟨k, m, hrepeats⟩, fun _ => ⟨_, _, herror⟩⟩
  case first =>
    intro k m hk hfirst
    rcases hcases with ⟨-, hfresh⟩ | ⟨k', m', herror, hk', hfirst'⟩
    · exact absurd hk (hfresh k m)
    · rcases Nat.lt_trichotomy k k' with hlt | rfl | hgt
      · exact absurd hk (hfirst' k hlt m)
      · obtain rfl : m' = m := Option.some.inj (hk'.1.symm.trans hk.1)
        exact herror
      · exact absurd hk' (hfirst k' hgt m')
  case fresh =>
    intro hfresh
    rcases hcases with ⟨hok, -⟩ | ⟨k, m, -, h, -⟩
    · exact hok
    · exact absurd h (hfresh k m)
  case fills =>
    intro t n htag hmisfilled
    cases hfile : n.attributes.get? "file" with
    | none =>
      refine ⟨_, fun setup walk scope taken s => exec_render_of_renderInclusion htag
        (renderInclusion_of_missing hfile) taken s, fun _ => rfl, nofun⟩
    | some file =>
      obtain ⟨m, f, hfirst⟩ := hmisfilled.exists_firstUnfit
      refine ⟨_, fun setup walk scope taken s => exec_render_of_renderInclusion htag
        (renderInclusion_of_firstUnfit hfile hfirst) taken s, nofun, fun _ _ => ⟨m, f, hfirst, rfl⟩⟩

/-- A text that the cache has nothing for is parsed. -/
lemma fst_exec_parseKept {keep : Bool} {source : Text} {s : Store} {ns : List Node}
    (hparse : parseTemplate source = .ok ns)
    (hcache : s.cache.entries.get? (Digest.ofText source) = none) :
    (exec (parseKept keep source) s).1 = .ok (.ok ns) := by
  cases keep with
  | false => exact congrArg Except.ok hparse
  | true =>
    have hfetch : (s.cache.fetch source).1.map StoredTree.nodes = .ok ns := by
      rw [TemplateCache.fetch, hcache, hparse]
      rfl
    exact congrArg Except.ok hfetch

/-- A hole without a name, and further in one with the empty name; and an inclusion with two fills
of one name around a text. -/
theorem slots_checked_unnamed :
    let source : Text := "<t-hole></t-hole>\n<p><t-hole name=\"\"></t-hole></p><t-hole name=a>"
    let s : Store := ⟨.empty 1, .empty, .empty, []⟩
    let fill (name : Text) : Node := .element ⟨"t-fill", [("name", name)], "<f>", 2, false⟩ true []
    let n : Node := .element ⟨"t-include", [("file", "b")], "<i>", 1, false⟩ true
      [fill "x", .leaf .text "y" 1, fill "x", .element ⟨"p", [], "<p>", 3, false⟩ true []]
    (∃ ns, parseTemplate source = .ok ns) ∧
      (exec (loadTemplate true (some "m") source) s).1 =
        .error (.failed ⟨.misuse .duplicateSlotName "Duplicate default t-hole",
          [⟨some "m", 2, "<t-hole name=\"\">"⟩]⟩) ∧
      n.Misfilled ∧ ∀ setup walk scope,
        exec (Node.render setup walk ⟨some "m", [n]⟩ scope n none) s = (.error (.failed
          ⟨.misuse .duplicateSlotName "Duplicate t-fill name \"x\"",
            [⟨some "m", 2, "<f>"⟩, ⟨some "m", 1, "<i>"⟩]⟩), s) := by
  intro source s fill n
  obtain ⟨ns, hns, hfacts⟩ := exists_of_parseTemplate source
    (f := fun ns =>
      let d := NodeTable.ofForest ns
      ((List.range 4).map fun k => (d.node? k).map isHole,
        (d.node? 0).map slotName, (d.node? 3).map slotName,
        (d.node? 3).map (repeatedHole ⟨some "m", ns⟩)))
    (a := ([some true, some false, some false, some true], some [], some [],
      some ⟨.misuse .duplicateSlotName "Duplicate default t-hole",
        [⟨some "m", 2, "<t-hole name=\"\">"⟩]⟩)) (by decide +kernel)
  obtain ⟨hkinds, hrest⟩ := Prod.mk.inj hfacts
  obtain ⟨hname, hrest⟩ := Prod.mk.inj hrest
  obtain ⟨hname', hfailure⟩ := Prod.mk.inj hrest
  have hread : (exec (parseKept true source) s).1 = .ok (.ok ns) := fst_exec_parseKept hns rfl
  obtain ⟨-, hholes, -, hfills⟩ := slots_checked hread (some "m")
  have hmisfilled : n.Misfilled :=
    .inr ⟨0, 2, fill "x", fill "x", by decide, rfl, rfl, rfl, rfl, rfl⟩
  refine ⟨⟨ns, hns⟩, ?_, hmisfilled, fun setup walk scope => ?_⟩
  · have hkind (k : Nat) (hk : k < 4) :
        ((NodeTable.ofForest ns).node? k).map isHole =
          [some true, some false, some false, some true][k] := by
      simp only [← hkinds, List.getElem_map, List.getElem_range]
    obtain ⟨l, hl, hhole⟩ := Option.map_eq_some_iff.1 (hkind 0 (by omega))
    obtain ⟨m, hm, hhole'⟩ := Option.map_eq_some_iff.1 (hkind 3 (by omega))
    rw [hl] at hname
    rw [hm] at hname' hfailure
    have hsame : slotName l = slotName m :=
      (Option.some.inj hname).trans (Option.some.inj hname').symm
    have hrepeats : (NodeTable.ofForest ns).Repeats 3 m :=
      ⟨hm, hhole', 0, by omega, l, hl, hhole, hsame⟩
    refine (hholes 3 m hrepeats fun j hj x hx => ?_).trans ?_
    · obtain ⟨hx, hfound, i, hi, -⟩ := hx
      have hj' := hkind j (by omega)
      rw [hx, Option.map_some, hfound] at hj'
      match j, hj with
      | 0, _ => omega
      | 1, _ | 2, _ => cases hj'
    · rw [Option.some.inj hfailure]
  · obtain ⟨failure, hfails, -⟩ := hfills ⟨some "m", [n]⟩ n (by decide) hmisfilled
    have hrun : exec (Node.render ⟨fun _ => .unread, false, false⟩ (fun _ _ _ => pure [])
        ⟨some "m", [n]⟩ (.ofContext .empty) n none) s = (.error (.failed
          ⟨.misuse .duplicateSlotName "Duplicate t-fill name \"x\"",
            [⟨some "m", 2, "<f>"⟩, ⟨some "m", 1, "<i>"⟩]⟩), s) := rfl
    rw [hfails] at hrun
    rw [hfails]
    exact hrun

end HtmlTemplate
