import HtmlTemplate.Proofs.Markup.Whole

/-!
Nothing hidden is left in a template.

A segment is resolved over the table that the segments before it have left, and takes its own
spans out of it. What it resolves to is the same as over the table of the whole template: each
segment finds all that is hidden in it and leaves what is hidden in others, so that no token is
left in a node, no span in the table, and no text is lost.
-/

namespace HtmlTemplate

open Node

namespace Node

/-- A node by itself, before it is closed and before anything stands below it. -/
def stem : Node → Node
  | leaf kind raw line => leaf kind raw line
  | element head _ _ => element head false []

/-- A node in which nothing is hidden. -/
structure Clear (n : Node) : Prop where
  tag : tokenOpening ∉ n.tag
  attributes : ∀ a ∈ n.attributes, tokenOpening ∉ a.1 ∧ tokenOpening ∉ a.2
  raw : tokenOpening ∉ n.raw

variable {n : Node}

@[simp] lemma raw_stem (n : Node) : n.stem.raw = n.raw := by
  cases n <;> rfl

lemma clear_of_stem (h : n.stem.Clear) : n.Clear := by
  cases n with
  | leaf kind raw line => exact h
  | element head closed children => exact ⟨h.tag, h.attributes, h.raw⟩

end Node

/-! ### The nodes of brackets -/

namespace Bracket

/-- The nodes that a bracket is in the tree, each by itself. -/
def stems : Bracket → List Node
  | leaf n => (nodes n).map stem
  | opens head => [.element head false []]
  | closes => []

variable {w : List Bracket} {ns : List Node}

lemma Forest.map_stem (h : Forest w ns) : (nodesAll ns).map stem = w.flatMap stems := by
  induction h with
  | nil => rfl
  | leaf n _ ih => rw [nodesAll, List.map_append, ih, List.flatMap_cons, stems]
  | element head _ _ ihinside ihrest =>
    rw [nodesAll_element, List.map_cons, List.map_append, ihinside, ihrest]
    simp [stems, stem]

lemma OpenForest.map_stem (h : OpenForest w ns) : (nodesAll ns).map stem = w.flatMap stems := by
  induction h with
  | forest all => exact all.map_stem
  | element head before _ ih =>
    rw [nodesAll_append, List.map_append, before.map_stem, nodesAll_element, List.map_cons,
      List.map_append, ih]
    simp [stems, stem, nodesAll]

/-- A document has the nodes of its brackets, in their order. -/
lemma Document.map_stem (h : Document w ns) : (nodesAll ns).map stem = w.flatMap stems := by
  induction h with
  | last all => exact all.map_stem
  | stray before _ ih =>
    rw [nodesAll_append, List.map_append, before.map_stem, ih]
    simp [stems]

end Bracket

/-! ### Segments by themselves -/

namespace Scanned

/-- The node that a segment makes by itself, resolved over the table of the whole template. A
closing tag makes none. -/
def madeOf (scanned : Scanned) (e : Segment) : Option Node :=
  let opening := Builder.opening scanned.placeholders e.raw (scanned.decoded e) e.line
  match e.kind with
  | .leaf k => some (.leaf k (scanned.decoded e) e.line)
  | .tag .opens => some (.element (opening false) false [])
  | .tag .selfCloses => some (.element (opening true) false [])
  | .tag .closes => none

end Scanned

/-- The text of segments that are resolved one after the other: what a closing tag is decoded to,
and what the next node keeps of any other segment. -/
def weave : Placeholders → List Segment → List Node → Text
  | _, [], _ => []
  | p, e :: es, ns =>
    let (decoded, p) := p.take e.raw
    if e.kind = .tag .closes then decoded ++ weave p es ns
    else (ns.head?.elim [] Node.raw) ++ weave p es ns.tail

section Segments

open HtmlTemplate.Bracket

variable {p q : Placeholders} {r : Nested} {rs : List Nested} {e : Segment} {es : List Segment}
  {scanned : Scanned}

/-- A bracket is what its segment makes by itself. -/
lemma flatMap_stems_ofSegment? (he : e.raw = r.shown) (hp : p.Holds r)
    (hs : scanned.placeholders.Holds r) (once : r.numbers.Nodup) :
    (ofSegment? p e).toList.flatMap stems = (scanned.madeOf e).toList := by
  have hdecoded : (p.take e.raw).1 = scanned.decoded e := by
    rw [Scanned.decoded, he, hp.take once, hs.decode once]
  have hopening (selfClosing : Bool) :
      Builder.opening p e.raw (scanned.decoded e) e.line selfClosing =
        Builder.opening scanned.placeholders e.raw (scanned.decoded e) e.line selfClosing := by
    have hwhole : r.Whole e.raw := he ▸ .shown r
    unfold Builder.opening Builder.resolveTag
    rw [(Segment.whole_writtenName hwhole).1.lower.decode_eq once hp hs,
      Attributes.ofTag_eq hwhole once hp hs]
  unfold ofSegment? Scanned.madeOf
  dsimp only
  rw [hdecoded]
  rcases e.kind with (_ | _ | _) | k
  · simp [stems, hopening]
  · dsimp only
    split_ifs <;> rfl
  · simp [stems, stem, hopening, nodes, nodesAll]
  · simp [stems, stem, nodes]

/-- So are the brackets of segments that follow each other. -/
lemma flatMap_stems_ofSegments (hraws : es.map Segment.raw = rs.map Nested.shown)
    (hready : p.Ready rs) (hs : ∀ r ∈ rs, scanned.placeholders.Holds r) :
    (ofSegments p es).flatMap stems = es.filterMap scanned.madeOf := by
  induction rs generalizing p es with
  | nil =>
    obtain rfl := List.map_eq_nil_iff.1 hraws
    rfl
  | cons r rs ih =>
    obtain ⟨e, es, rfl, he, hes⟩ := List.map_eq_cons_iff.1 hraws
    obtain ⟨hsr, hsrs⟩ := List.forall_mem_cons.1 hs
    obtain ⟨hp, once⟩ := hready.head
    obtain ⟨htake, hrest⟩ := hready.take
    rw [ofSegments, List.flatMap_append, flatMap_stems_ofSegment? he hp hsr once, he, htake,
      ih hes hrest hsrs, List.filterMap_cons]
    cases scanned.madeOf e <;> rfl

/-- What a segment makes keeps its text. -/
lemma raw_of_madeOf {n : Node} (hn : scanned.madeOf e = some n) : n.raw = scanned.decoded e := by
  unfold Scanned.madeOf at hn
  dsimp only at hn
  rcases hk : e.kind with (_ | _ | _) | k <;> rw [hk] at hn <;> cases hn <;> rfl

lemma madeOf_eq_none_iff : scanned.madeOf e = none ↔ e.kind = .tag .closes := by
  unfold Scanned.madeOf
  rcases e.kind with (_ | _ | _) | k <;> simp

/-- Nothing is hidden in what a segment makes. -/
lemma clear_of_madeOf {n : Node} (he : e.raw = r.shown) (hs : scanned.placeholders.Holds r)
    (once : r.numbers.Nodup) (hn : scanned.madeOf e = some n) : n.Clear := by
  have hraw : tokenOpening ∉ n.raw := by
    rw [raw_of_madeOf hn, Scanned.decoded, he, hs.decode once]
    exact r.not_mem_source
  have hwhole : r.Whole e.raw := he ▸ .shown r
  have htag := (Segment.whole_writtenName hwhole).1.lower.not_mem_decode once hs
  have hattributes := Attributes.not_mem_ofTag hwhole once hs
  unfold Scanned.madeOf at hn
  dsimp only at hn
  rcases hk : e.kind with (_ | _ | _) | k <;> rw [hk] at hn <;> cases hn
  · exact ⟨htag, hattributes, hraw⟩
  · exact ⟨htag, hattributes, hraw⟩
  · exact ⟨List.not_mem_nil, fun _ ha => absurd ha List.not_mem_nil, hraw⟩

/-- No text is lost: nodes and closing tags in turn make up the source. -/
lemma weave_eq {ns : List Node} (hraws : es.map Segment.raw = rs.map Nested.shown)
    (hready : p.Ready rs) (hs : ∀ r ∈ rs, scanned.placeholders.decode r.shown = r.source)
    (hns : ns.map stem = es.filterMap scanned.madeOf) :
    weave p es ns = (Nested.join rs).source := by
  induction rs generalizing p es ns with
  | nil =>
    obtain rfl := List.map_eq_nil_iff.1 hraws
    rfl
  | cons r rs ih =>
    obtain ⟨e, es, rfl, he, hes⟩ := List.map_eq_cons_iff.1 hraws
    obtain ⟨hsr, hsrs⟩ := List.forall_mem_cons.1 hs
    obtain ⟨htake, hrest⟩ := hready.take
    rw [weave, he, htake, Nested.join_cons, Nested.source_append]
    dsimp only
    split
    · next hcloses =>
      rw [List.filterMap_cons_none (madeOf_eq_none_iff.2 hcloses)] at hns
      rw [ih hes hrest hsrs hns]
    · next hcloses =>
      obtain ⟨m, hm⟩ := Option.ne_none_iff_exists'.1 (mt madeOf_eq_none_iff.1 hcloses)
      rw [List.filterMap_cons_some hm] at hns
      obtain ⟨n, ns, rfl, rfl, hrest'⟩ := List.map_eq_cons_iff.1 hns
      have hraw : n.raw = r.source := by
        rw [← raw_stem, raw_of_madeOf hm, Scanned.decoded, he, hsr]
      rw [List.tail_cons, ih hes hrest hsrs hrest', List.head?_cons, Option.elim_some, hraw]

/-- Segments taken in leave the table without what is hidden in them. -/
lemma placeholders_of_pushAll {b b' : Builder} (h : b.pushAll es = .ok b')
    (hraws : es.map Segment.raw = rs.map Nested.shown) (hready : b.placeholders.Ready rs) :
    b'.placeholders = b.placeholders.without (Nested.join rs).numbers := by
  induction rs generalizing b es with
  | nil =>
    obtain rfl := List.map_eq_nil_iff.1 hraws
    obtain rfl := Except.ok.inj h
    exact (Placeholders.without_nil _).symm
  | cons r rs ih =>
    obtain ⟨e, es, rfl, he, hes⟩ := List.map_eq_cons_iff.1 hraws
    obtain ⟨htake, hrest⟩ := hready.take
    have hcloses := Builder.closesByName_of_pushAll h e List.mem_cons_self
    obtain ⟨b₁, hpush, hp, -⟩ := Builder.exists_push (b := b) hcloses
    rw [Builder.pushAll, List.foldlM_cons, hpush] at h
    rw [he, htake] at hp
    change b₁.placeholders = b.placeholders.without r.numbers at hp
    rw [← hp] at hrest
    rw [ih h hes hrest, hp, Placeholders.without_without, Nested.join_cons,
      Nested.numbers_append]

end Segments

/-- **Nothing hidden is left.** The nodes of a template that can be parsed are what its segments
make by themselves, in document order. No token is left in them, the table is empty behind the
last segment, and the texts of nodes and closing tags in turn are the template. -/
theorem resolved_of_parseTemplate (source : Text) (ns : List Node) (plain : tokenOpening ∉ source)
    (h : parseTemplate source = .ok ns) :
    let scanned := Scanned.ofSource source
    (nodesAll ns).map stem = scanned.segments.filterMap scanned.madeOf ∧
      (∀ n ∈ nodesAll ns, n.Clear) ∧
      (∃ b, (Builder.ofPlaceholders scanned.placeholders).pushAll scanned.segments = .ok b ∧
        b.forest = ns ∧ b.placeholders.entries = []) ∧
      weave scanned.placeholders scanned.segments (nodesAll ns) = source := by
  intro scanned
  obtain ⟨r, hshown, hsource, hbacks⟩ := Placeholders.exists_backs_hideAll plain
  obtain ⟨rs, hrs, rfl⟩ := Nested.exists_segments hshown
  have hraws : scanned.segments.map Segment.raw = rs.map Nested.shown := by
    rw [hrs]
    exact map_raw_numberLines _ 1 _
  have hready : scanned.placeholders.Ready rs := ⟨hbacks.holds, hbacks.once⟩
  have hholds : ∀ r ∈ rs, scanned.placeholders.Holds r := fun r hr => hbacks.holds.of_join hr
  have hstems : (nodesAll ns).map stem = scanned.segments.filterMap scanned.madeOf := by
    rw [(document_of_parseTemplate h).map_stem, flatMap_stems_ofSegments hraws hready hholds]
  refine ⟨hstems, ?clear, ?emptied, ?text⟩
  case clear =>
    intro n hn
    have hstem : n.stem ∈ scanned.segments.filterMap scanned.madeOf :=
      hstems ▸ List.mem_map_of_mem hn
    obtain ⟨e, he, hmade⟩ := List.mem_filterMap.1 hstem
    obtain ⟨r, hr, hre⟩ := List.mem_map.1 (hraws ▸ List.mem_map_of_mem he)
    exact clear_of_stem (clear_of_madeOf hre.symm (hholds r hr) (hready.nodup_of_mem hr) hmade)
  case emptied =>
    obtain ⟨b, hpush, rfl⟩ := exists_pushAll_of_parseTemplate h
    refine ⟨b, hpush, rfl, ?_⟩
    rw [placeholders_of_pushAll hpush hraws hready]
    exact congrArg Placeholders.entries hbacks.without_numbers
  case text => rw [weave_eq hraws hready hbacks.decode_join hstems, hsource]

/-- Expressions in the name of a tag, in the name and the value of an attribute, in a closing tag
and in one that is dropped. -/
theorem resolved_of_parseTemplate_hidden :
    let source : Text := "<A\x7b\x7b1\x7d\x7d x\x7b\x7b2\x7d\x7d=\"<\x7b\x7b3\x7d\x7d\">" ++
      "\x7b\x7b4\x7d\x7d</a \x7b\x7b5\x7d\x7d></br \x7b\x7b6\x7d\x7d>"
    let attributes : Attributes := [("x\x7b\x7b2\x7d\x7d", "<\x7b\x7b3\x7d\x7d")]
    let scanned := Scanned.ofSource source
    ∃ ns, parseTemplate source = .ok ns ∧ (nodesAll ns).flatMap Node.attributes = attributes ∧
      (∀ n ∈ nodesAll ns, n.Clear) ∧
      weave scanned.placeholders scanned.segments (nodesAll ns) = source := by
  intro source attributes scanned
  obtain ⟨ns, hns, hcomputed⟩ := exists_of_parseTemplate source
    (f := fun ns => (nodesAll ns).flatMap Node.attributes) (a := attributes) (by decide +kernel)
  obtain ⟨-, hclear, -, htext⟩ := resolved_of_parseTemplate source ns (by decide +kernel) hns
  exact ⟨ns, hns, hcomputed, hclear, htext⟩

end HtmlTemplate
