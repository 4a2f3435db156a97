import HtmlTemplate.Proofs.Markup.Brackets
import HtmlTemplate.Proofs.Markup.Item

/-!
Printing a tree and parsing the text gives the tree back.

The text of a tree is a row of tags and texts, which the scanner gives back as segments. Along the
tree, the segments of a forest read as the brackets of that forest, each resolved by its own
placeholders; what is not printed, the lines and the texts of opening tags, is left out of account.
-/

namespace HtmlTemplate

open Attributes Placeholders Text

/-! ### What is printed and what is not -/

/-- An opening tag that is read back. -/
@[mk_iff]
structure Opening.Plain (head : Opening) : Prop where
  name : isName head.tag = true
  notRaw : head.tag ∉ Span.rawElements
  attributes : head.attributes.Plain

instance : DecidablePred Opening.Plain := fun head => decidable_of_iff' _ (head.plain_iff)

namespace Node

mutual

/-- A tree without what its markup does not tell: lines, and the texts of opening tags. -/
def bare : Node → Node
  | leaf kind raw _ => leaf kind raw 0
  | element head closed children =>
    element { head with raw := [], line := 0 } closed (bareAll children)

def bareAll : List Node → List Node
  | [] => []
  | n :: ns => bare n :: bareAll ns

end

mutual

/-- The tags and texts that a tree is printed as. -/
def items : Node → List Item
  | leaf _ raw _ => [.text raw]
  | element head _ children =>
    .opens head.tag head.attributes ::
      if head.selfClosing && children.isEmpty then []
      else itemsAll children ++ [.closes head.tag]

def itemsAll : List Node → List Item
  | [] => []
  | n :: ns => items n ++ itemsAll ns

end

/-- Trees of texts and elements that are read back: the elements without content close
themselves, all others are closed, and no text follows another. -/
inductive Printable : List Node → Prop
  | nil : Printable []
  | text {raw : Text} {line : Nat} {ns : List Node} (plain : PlainText raw)
      (next : ∀ n ∈ ns.head?, n.isElement = true) (rest : Printable ns) :
      Printable (.leaf .text raw line :: ns)
  | void {head : Opening} {ns : List Node} (plain : head.Plain) (void : isVoid head.tag = true)
      (selfClosing : head.selfClosing = true) (rest : Printable ns) :
      Printable (.element head false [] :: ns)
  | element {head : Opening} {cs ns : List Node} (plain : head.Plain)
      (notVoid : isVoid head.tag = false) (selfClosing : head.selfClosing = false)
      (inside : Printable cs) (rest : Printable ns) : Printable (.element head true cs :: ns)

variable {ns ms : List Node} {is : List Item}

lemma itemsAll_void {head : Opening} (h : head.selfClosing = true) (closed : Bool)
    (ns : List Node) :
    itemsAll (.element head closed [] :: ns) = .opens head.tag head.attributes :: itemsAll ns := by
  simp [itemsAll, items, h]

lemma itemsAll_element {head : Opening} (h : head.selfClosing = false) (closed : Bool)
    (cs ns : List Node) :
    itemsAll (.element head closed cs :: ns) = .opens head.tag head.attributes ::
      (itemsAll cs ++ .closes head.tag :: itemsAll ns) := by
  simp [itemsAll, items, h]

lemma printAll_itemsAll (ns : List Node) : Item.printAll (itemsAll ns) = printAll ns := by
  induction ns using forest_induction with
  | nil => rfl
  | leaf kind raw line ns ih =>
    rw [itemsAll, items, printAll, print, Item.printAll_append, ih]
    simp [Item.print]
  | element head closed children ns ihc ihn =>
    rw [itemsAll, items, printAll, print, Item.printAll_append, ihn, Item.printAll_cons]
    split
    · simp [Item.print]
    · simp [Item.print, ihc]

/-- Printable trees give a written row, also with another one behind that a tag begins. -/
lemma Printable.written (h : Printable ns) (his : Written is)
    (next : ∀ i ∈ is.head?, i.isTag = true) : Written (itemsAll ns ++ is) := by
  induction h generalizing is with
  | nil => exact his
  | @text raw line ns plain hnext _ ih =>
    refine .text plain ?_ (ih his next)
    cases ns with
    | nil => exact next
    | cons n ns =>
      cases n with
      | leaf kind raw line => cases hnext _ rfl
      | element head closed cs =>
        rintro i hi
        obtain rfl : _ = i := Option.some.inj hi
        rfl
  | void plain _ selfClosing _ ih =>
    rw [itemsAll_void selfClosing]
    exact .opens plain.name plain.notRaw plain.attributes (ih his next)
  | @element head cs ns plain _ selfClosing _ _ ihc ihn =>
    have hrest : Written (.closes head.tag :: (itemsAll ns ++ is)) :=
      .closes plain.name (ihn his next)
    have hinside := ihc hrest (by simp [Item.isTag])
    rw [itemsAll_element selfClosing, List.cons_append, List.append_assoc]
    exact .opens plain.name plain.notRaw plain.attributes hinside

/-! ### The table without what is not printed -/

@[simp] lemma count_bareAll (ns : List Node) : count (bareAll ns) = count ns := by
  induction ns using forest_induction with
  | nil => rfl
  | leaf kind raw line ns ih => simp [bareAll, bare, ih]
  | element head closed children ns ihc ihn => simp [bareAll, bare, ihc, ihn]

lemma numbers_bareAll (start : Nat) (ns : List Node) :
    numbers start (bareAll ns) = numbers start ns := by
  induction ns using forest_induction generalizing start with
  | nil => rfl
  | leaf kind raw line ns ih => simp [bareAll, bare, ih]
  | element head closed children ns _ ihn => simp [bareAll, bare, ihn]

end Node

open Node

/-- A row without what the markup does not tell. -/
def Row.bare (r : Row) : Row := { r with node := r.node.bare }

def NodeTable.bare (t : NodeTable) : NodeTable := { t with rows := t.rows.map Row.bare }

lemma forestRows_bareAll (parent : Option Nat) (start index : Nat) (ns : List Node) :
    forestRows parent start index (bareAll ns) =
      (forestRows parent start index ns).map Row.bare := by
  induction ns using forest_induction generalizing parent start index with
  | nil => simp [bareAll]
  | leaf kind raw line ns ih => simp [bareAll, Node.bare, Row.bare, ih]
  | element head closed children ns ihc ihn =>
    simp [bareAll, Node.bare, Row.bare, numbers_bareAll, ihc, ihn]

lemma NodeTable.bare_ofForest (ns : List Node) : (ofForest ns).bare = ofForest (bareAll ns) := by
  rw [NodeTable.bare, ofForest, ofForest, forestRows_bareAll, numbers_bareAll]

/-! ### Segments of printed markup as brackets -/

variable {n : Nat} {as : Attributes} {is : List Item} {ns : List Node} {p : Placeholders}
  {e : Segment} {segs : List Segment} {head : Opening}

/-- A hidden opening tag is read as the one that was printed. -/
lemma Opening.Plain.opening_eq (h : head.Plain) (hp : Held p n head.attributes) (decoded : Text)
    (line : Nat) (selfClosing : Bool) :
    Builder.opening p (Segment.hiddenOpening n head.tag head.attributes) decoded line selfClosing =
      ⟨head.tag, head.attributes, decoded, line, selfClosing⟩ := by
  rw [Builder.opening, Segment.writtenName_hiddenOpening h.name,
    Builder.resolveTag_of_isName h.name, ofTag_hiddenOpening h.name h.attributes hp]

/-- All closing tags of printed markup have names. -/
lemma Written.closesByName (h : Written is) (hsegs : segs.map Segment.raw = Item.hiddenAll n is) :
    ∀ e ∈ segs, e.ClosesByName := by
  induction h generalizing n segs with
  | nil =>
    obtain rfl := List.map_eq_nil_iff.1 hsegs
    simp
  | @opens tag as is name _ plain _ ih =>
    obtain ⟨e, segs, rfl, he, hrest⟩ := List.map_eq_cons_iff.1 hsegs
    refine List.forall_mem_cons.2 ⟨fun hk => ?_, ih hrest⟩
    rw [Segment.kind, he, Item.hidden, Segment.kindOf_hiddenOpening name] at hk
    split at hk <;> cases hk
  | @closes tag is name _ ih =>
    obtain ⟨e, segs, rfl, he, hrest⟩ := List.map_eq_cons_iff.1 hsegs
    refine List.forall_mem_cons.2 ⟨fun _ => ?_, ih hrest⟩
    rw [he, Item.hidden, Builder.closingName_printClosing name]
    exact ne_nil_of_isName name
  | @text t is plain _ _ ih =>
    obtain ⟨e, segs, rfl, he, hrest⟩ := List.map_eq_cons_iff.1 hsegs
    refine List.forall_mem_cons.2 ⟨fun hk => ?_, ih hrest⟩
    rw [Segment.kind, he, Item.hidden, Segment.kindOf_text plain.bracket] at hk
    cases hk

/-- A printed opening tag as it is read back. -/
def Opening.reread (head : Opening) (line : Nat) : Opening :=
  { head with raw := Node.printOpening head.tag head.attributes, line := line }

lemma Node.bareAll_reread {cs cs' ns' : List Node} (hcs : bareAll cs = bareAll cs')
    (hns : bareAll ns' = bareAll ns) (line : Nat) (closed : Bool) :
    bareAll (.element (head.reread line) closed cs :: ns') =
      bareAll (.element head closed cs' :: ns) := by
  simp [bareAll, bare, Opening.reread, hcs, hns]

/-! #### One segment -/

lemma ofSegments_void (h : head.Plain) (hvoid : isVoid head.tag = true)
    (hself : head.selfClosing = true) (hp : Held p n head.attributes)
    (he : e.raw = Segment.hiddenOpening n head.tag head.attributes) (es : List Segment) :
    Bracket.ofSegments p (e :: es) = .leaf (.element (head.reread e.line) false []) ::
      Bracket.ofSegments (p.without (held n head.attributes)) es := by
  rw [Bracket.ofSegments, Bracket.ofSegment?, Segment.kind, he,
    Segment.kindOf_hiddenOpening h.name, hvoid, take_hiddenOpening h.name h.attributes hp,
    Opening.reread, hself]
  simp [h.opening_eq hp]

lemma ofSegments_opens (h : head.Plain) (hvoid : isVoid head.tag = false)
    (hself : head.selfClosing = false) (hp : Held p n head.attributes)
    (he : e.raw = Segment.hiddenOpening n head.tag head.attributes) (es : List Segment) :
    Bracket.ofSegments p (e :: es) = .opens (head.reread e.line) ::
      Bracket.ofSegments (p.without (held n head.attributes)) es := by
  rw [Bracket.ofSegments, Bracket.ofSegment?, Segment.kind, he,
    Segment.kindOf_hiddenOpening h.name, hvoid, take_hiddenOpening h.name h.attributes hp,
    Opening.reread, hself]
  simp [h.opening_eq hp]

lemma ofSegments_closes {tag : Text} (hname : isName tag = true) (hvoid : isVoid tag = false)
    (he : e.raw = Node.printClosing tag) (es : List Segment) :
    Bracket.ofSegments p (e :: es) = .closes :: Bracket.ofSegments p es := by
  have hplain : tokenOpening ∉ Node.printClosing tag := by
    simp only [Node.printClosing, List.cons_append, List.mem_cons, List.mem_append,
      List.not_mem_nil, or_false, not_or]
    exact ⟨by decide, by decide, not_mem_of_isName hname rfl, by decide⟩
  rw [Bracket.ofSegments, Bracket.ofSegment?, Segment.kind, he, Segment.kindOf_printClosing,
    take_of_not_mem p hplain]
  simp [Builder.closingName_printClosing hname, Builder.resolveTag_of_isName hname, hvoid]

lemma ofSegments_text (h : PlainText e.raw) (es : List Segment) :
    Bracket.ofSegments p (e :: es) =
      .leaf (.leaf .text e.raw e.line) :: Bracket.ofSegments p es := by
  rw [Bracket.ofSegments, Bracket.ofSegment?, Segment.kind, Segment.kindOf_text h.bracket,
    take_of_not_mem p h.token]
  rfl

/-! #### A forest -/

/-- The segments of printed trees are the brackets of those trees, and use up their own values. -/
lemma Node.Printable.exists_forest (h : Printable ns)
    (hsegs : segs.map Segment.raw = Item.hiddenAll n (itemsAll ns))
    (hp : Held p n (Item.attributesAll (itemsAll ns))) :
    ∃ w ms, Bracket.Forest w ms ∧ bareAll ms = bareAll ns ∧ ∀ es,
      Bracket.ofSegments p (segs ++ es) =
        w ++ Bracket.ofSegments (p.without (held n (Item.attributesAll (itemsAll ns)))) es := by
  induction h generalizing n p segs with
  | nil =>
    obtain rfl := List.map_eq_nil_iff.1 hsegs
    exact ⟨[], [], .nil, rfl, fun es => by simp [itemsAll, Item.attributesAll, held, stored]⟩
  | @text raw line ns plain _ _ ih =>
    obtain ⟨e, segs, rfl, rfl, hrest⟩ := List.map_eq_cons_iff.1 hsegs
    obtain ⟨w, ms, hforest, hbare, hread⟩ := ih hrest hp
    refine ⟨_, _, .leaf (.leaf .text e.raw e.line) hforest, ?_, fun es => ?_⟩
    · simp [bareAll, bare, hbare]
    · rw [List.cons_append, ofSegments_text plain, hread]
      rfl
  | @void head ns plain void selfClosing _ ih =>
    rw [itemsAll_void selfClosing, Item.hiddenAll_opens] at hsegs
    rw [itemsAll_void selfClosing, Item.attributesAll_opens, held_append_iff] at hp
    obtain ⟨hphead, hprest⟩ := hp
    obtain ⟨e, segs, rfl, he, hrest⟩ := List.map_eq_cons_iff.1 hsegs
    obtain ⟨w, ms, hforest, hbare, hread⟩ := ih hrest (hprest.without (Nat.le_refl _))
    refine ⟨_, _, .leaf (.element (head.reread e.line) false []) hforest,
      bareAll_reread rfl hbare _ _, fun es => ?_⟩
    rw [List.cons_append, ofSegments_void plain void selfClosing hphead he, hread,
      without_without, ← held_append, itemsAll_void selfClosing, Item.attributesAll_opens]
    rfl
  | @element head cs ns plain notVoid selfClosing _ _ ihc ihn =>
    rw [itemsAll_element selfClosing, Item.hiddenAll_opens, Item.hiddenAll_append,
      Item.hiddenAll_closes] at hsegs
    rw [itemsAll_element selfClosing, Item.attributesAll_opens, Item.attributesAll_append,
      Item.attributesAll_closes, held_append_iff, held_append_iff] at hp
    obtain ⟨hphead, hpinside, hprest⟩ := hp
    obtain ⟨e, segs, rfl, he, hsegs⟩ := List.map_eq_cons_iff.1 hsegs
    obtain ⟨inside, segs, rfl, hinside, hsegs⟩ := List.map_eq_append_iff.1 hsegs
    obtain ⟨f, rest, rfl, hf, hrest⟩ := List.map_eq_cons_iff.1 hsegs
    -- each part is read once the values of the parts before it are used up
    obtain ⟨v, cs', hv, hbarec, hreadc⟩ := ihc hinside (hpinside.without (Nat.le_refl _))
    have hpopened : Held (p.without (held n head.attributes)) _ _ :=
      hprest.without (Nat.le_add_right _ _)
    obtain ⟨w, ns', hw, hbaren, hreadn⟩ := ihn hrest (hpopened.without (Nat.le_refl _))
    refine ⟨_, _, .element (head.reread e.line) hv hw, bareAll_reread hbarec hbaren _ _,
      fun es => ?_⟩
    rw [List.cons_append, List.append_assoc, List.cons_append,
      ofSegments_opens plain notVoid selfClosing hphead he, hreadc,
      ofSegments_closes plain.name notVoid hf, hreadn, without_without, without_without,
      itemsAll_element selfClosing, Item.attributesAll_opens, Item.attributesAll_append,
      Item.attributesAll_closes, held_append, held_append]
    simp

namespace Node

/-- **Printed trees are parsed back.** Kinds, tags, attributes in their order, texts, marks and
nesting are those of the trees printed, both in the trees that are parsed and in the table of
nodes that is built in place of the same segments. -/
theorem parseTemplate_printAll (h : Printable ns) :
    let scanned := Scanned.ofSource (printAll ns)
    let table := ((Arena.ofPlaceholders scanned.placeholders).pushEach scanned.segments).table
    ∃ ms, parseTemplate (printAll ns) = .ok ms ∧ bareAll ms = bareAll ns ∧
      table = NodeTable.ofForest ms ∧ table.bare = (NodeTable.ofForest ns).bare := by
  intro scanned table
  have hwritten : Written (itemsAll ns) := by
    simpa using h.written .nil (by simp)
  have hhidden := hwritten.hideAll
  rw [printAll_itemsAll] at hhidden
  have hplaceholders : scanned.placeholders = empty.store (Item.attributesAll (itemsAll ns)) :=
    congrArg Prod.snd hhidden
  have hraws : scanned.segments.map Segment.raw = Item.hiddenAll 0 (itemsAll ns) := by
    have hescaped : (empty.hideAll (printAll ns)).1 = (Item.hiddenAll 0 (itemsAll ns)).flatten :=
      congrArg Prod.fst hhidden
    rw [← hwritten.segmentTexts 0, ← hescaped]
    exact map_raw_numberLines _ 1 _
  have hheld : Held scanned.placeholders 0 (Item.attributesAll (itemsAll ns)) := by
    rw [hplaceholders]
    exact held_store _
  obtain ⟨w, ms, hforest, hbare, hread⟩ := h.exists_forest hraws hheld
  -- what is left behind the segments is nothing
  have hbrackets : Bracket.ofSegments scanned.placeholders scanned.segments = w := by
    simpa [Bracket.ofSegments] using hread []
  obtain ⟨b, hpush, hb⟩ := Builder.exists_pushAll (b := .ofPlaceholders scanned.placeholders)
    (hwritten.closesByName hraws)
  have hms : b.forest = ms := by
    rw [hb]
    change Bracket.nest [] [] (Bracket.ofSegments scanned.placeholders scanned.segments) = ms
    rw [hbrackets]
    exact (Bracket.Document.last (.forest hforest)).nest_eq []
  have htable : table = NodeTable.ofForest ms := by
    change ((Arena.ofPlaceholders scanned.placeholders).pushEach scanned.segments).table = _
    rw [Arena.ofPlaceholders_eq, Arena.pushEach_ofBuilder, Builder.pushEach_of_pushAll hpush,
      ← hms]
    rfl
  refine ⟨ms, ?_, hbare, htable, ?_⟩
  · rw [parseTemplate, hpush, ← hms]
    rfl
  · rw [htable, NodeTable.bare_ofForest, NodeTable.bare_ofForest, hbare]

/-- A value with markup, a line feed and both kinds of quotes, one with a single kind, and an
element without content between two texts. -/
theorem parseTemplate_printAll_quotes :
    let ns : List Node := [
      .element ⟨"a-1", [("title", "x <b>=\n\"it's\""), ("id", "\"")], [], 0, false⟩ true [
        .leaf .text "1 > 0" 0, .element ⟨"br", [("c", "'")], [], 0, true⟩ false [],
        .leaf .text "\x7d\x7d\n" 0],
      .leaf .text "end" 0]
    let scanned := Scanned.ofSource (printAll ns)
    let table := ((Arena.ofPlaceholders scanned.placeholders).pushEach scanned.segments).table
    Printable ns ∧
      ∃ ms, parseTemplate (printAll ns) = .ok ms ∧ bareAll ms = bareAll ns ∧
        table = NodeTable.ofForest ms ∧ table.bare = (NodeTable.ofForest ns).bare := by
  intro ns
  have hinside : Printable [.leaf .text "1 > 0" 0,
      .element ⟨"br", [("c", "'")], [], 0, true⟩ false [], .leaf .text "\x7d\x7d\n" 0] :=
    .text (by decide) (by simp [isElement])
      (.void (by decide) (by decide) rfl (.text (by decide) (by simp) .nil))
  have h : Printable ns :=
    .element (by decide) (by decide) rfl hinside (.text (by decide) (by simp) .nil)
  exact ⟨h, parseTemplate_printAll h⟩

end Node

end HtmlTemplate
