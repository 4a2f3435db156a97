import HtmlTemplate.Proofs.Markup.HiddenTag
import HtmlTemplate.Proofs.Markup.Scan

/-!
Printed markup as a row of tags and texts.

Each pass over such a row is followed piece by piece: the first three find nothing, the last hides
exactly the attribute values, and the scanner cuts the row into its tags and texts again. Every
segment is then resolved by its own placeholders.
-/

namespace HtmlTemplate

open Placeholders Attributes HtmlTemplate.Span Text

/-- A text that is printed as it stands and read back. -/
@[mk_iff]
structure PlainText (t : Text) : Prop where
  nonempty : t ≠ []
  bracket : '<' ∉ t
  equals : '=' ∉ t
  backslash : '\\' ∉ t
  token : tokenOpening ∉ t
  braces : ¬ openBraces <:+: t

instance : DecidablePred PlainText := fun t => decidable_of_iff' _ (plainText_iff t)

/-- A tag or a text of printed markup. -/
inductive Item where
  | opens (tag : Text) (attributes : Attributes)
  | closes (tag : Text)
  | text (t : Text)

namespace Item

def isTag : Item → Bool
  | opens .. => true
  | closes _ => true
  | text _ => false

def print : Item → Text
  | opens tag attributes => Node.printOpening tag attributes
  | closes tag => Node.printClosing tag
  | text t => t

def attributes : Item → Attributes
  | opens _ attributes => attributes
  | closes _ => []
  | text _ => []

/-- The text of an item once its values are hidden, when `issued` tokens have been given out
before. -/
def hidden (issued : Nat) : Item → Text
  | opens tag attributes => Segment.hiddenOpening issued tag attributes
  | closes tag => Node.printClosing tag
  | text t => t

def printAll (is : List Item) : Text := is.flatMap print

def attributesAll (is : List Item) : Attributes := is.flatMap attributes

def hiddenAll : (issued : Nat) → List Item → List Text
  | _, [] => []
  | issued, i :: is => i.hidden issued :: hiddenAll (issued + i.attributes.length) is

@[simp] lemma printAll_nil : printAll [] = [] := rfl

@[simp] lemma printAll_cons (i : Item) (is : List Item) :
    printAll (i :: is) = i.print ++ printAll is := rfl

@[simp] lemma printAll_append (is js : List Item) :
    printAll (is ++ js) = printAll is ++ printAll js := List.flatMap_append

@[simp] lemma attributesAll_cons (i : Item) (is : List Item) :
    attributesAll (i :: is) = i.attributes ++ attributesAll is := rfl

@[simp] lemma attributesAll_append (is js : List Item) :
    attributesAll (is ++ js) = attributesAll is ++ attributesAll js := List.flatMap_append

lemma hiddenAll_opens (n : Nat) (tag : Text) (as : Attributes) (is : List Item) :
    hiddenAll n (.opens tag as :: is) =
      Segment.hiddenOpening n tag as :: hiddenAll (n + as.length) is := rfl

lemma hiddenAll_closes (n : Nat) (tag : Text) (is : List Item) :
    hiddenAll n (.closes tag :: is) = Node.printClosing tag :: hiddenAll n is := rfl

lemma attributesAll_opens (tag : Text) (as : Attributes) (is : List Item) :
    attributesAll (.opens tag as :: is) = as ++ attributesAll is := rfl

lemma attributesAll_closes (tag : Text) (is : List Item) :
    attributesAll (.closes tag :: is) = attributesAll is := rfl

lemma hiddenAll_append (n : Nat) (is js : List Item) :
    hiddenAll n (is ++ js) =
      hiddenAll n is ++ hiddenAll (n + (attributesAll is).length) js := by
  induction is generalizing n with
  | nil => rfl
  | cons i is ih =>
    rw [List.cons_append, hiddenAll, hiddenAll, ih, attributesAll_cons, List.length_append,
      Nat.add_assoc, List.cons_append]

end Item

open Item

/-- Items that are read back; no two texts follow each other. -/
inductive Written : List Item → Prop
  | nil : Written []
  | opens {tag : Text} {as : Attributes} {is : List Item} (name : isName tag = true)
      (notRaw : tag ∉ rawElements) (plain : as.Plain) (rest : Written is) :
      Written (.opens tag as :: is)
  | closes {tag : Text} {is : List Item} (name : isName tag = true) (rest : Written is) :
      Written (.closes tag :: is)
  | text {t : Text} {is : List Item} (plain : PlainText t)
      (next : ∀ i ∈ is.head?, i.isTag = true) (rest : Written is) : Written (.text t :: is)

variable {n : Nat} {t w : Text} {c : Char} {as : Attributes} {is : List Item} {p : Placeholders}

/-! ### What the first three passes find -/

/-- A character that tags are not written with, and that is in no value and no text, is nowhere. -/
lemma Written.not_mem (h : Written is) (hc : inAttribute c = false) (htag : c ∉ ['<', '>', '/'])
    (hvalue : ∀ v, Quiet v → c ∉ v) (htext : ∀ t, PlainText t → c ∉ t) : c ∉ printAll is := by
  simp only [List.mem_cons, List.not_mem_nil, or_false, not_or] at htag
  obtain ⟨hopen, hclose, hslash⟩ := htag
  obtain ⟨hchar, -⟩ := not_inAttribute hc
  induction h with
  | nil => exact List.not_mem_nil
  | @opens tag as is name _ plain _ ih =>
    have hvalues : c ∉ as.text := by
      intro hm
      obtain ⟨a, ha, hca⟩ := mem_value_of_mem_text hm plain.names hc
      exact hvalue _ (quiet_quotedText (plain.values a ha).toQuiet) hca
    simp [print, printOpening_eq, hopen, hclose, not_mem_of_isName name hchar, hvalues, ih]
  | closes name _ ih =>
    simp [print, Node.printClosing, hopen, hclose, hslash, not_mem_of_isName name hchar, ih]
  | text plain _ _ ih => simp [print, htext _ plain, ih]

/-- A row of items ends, or goes on with a tag, where no text stands in front. -/
lemma head_of_isTag (h : ∀ i ∈ is.head?, i.isTag = true) :
    printAll is = [] ∨ ∃ u, printAll is = '<' :: u := by
  cases is with
  | nil => exact .inl rfl
  | cons i is =>
    have hi := h i (by simp)
    cases i with
    | opens tag as => exact .inr ⟨_, rfl⟩
    | closes tag => exact .inr ⟨_, rfl⟩
    | text t => cases hi

lemma text_nil_or_blank (as : Attributes) : as.text = [] ∨ ∃ u, as.text = ' ' :: u := by
  cases as with
  | nil => exact .inl rfl
  | cons a as => exact .inr ⟨_, text_cons a as⟩

lemma noRawElement_text (ht : NoRawElement t) (h : as.Plain) : NoRawElement (as.text ++ t) := by
  induction as with
  | nil => exact ht
  | cons a as ih =>
    obtain ⟨hname, hvalue⟩ := h.head
    have hrest := (ih h.tail).append_value (quiet_quotedText hvalue.toQuiet)
      (isQuote_quoteMark a.2)
    simpa [text_cons] using hrest.append_of_not_mem (not_mem_front hname rfl)

lemma Written.noRawElement (h : Written is) : NoRawElement (Item.printAll is) := by
  induction h with
  | nil => exact noRawElement_of_not_mem List.not_mem_nil
  | @opens tag as is name notRaw plain _ ih =>
    have htext := noRawElement_text (ih.append_of_not_mem (w := ['>']) (by decide)) plain
    have hprint : Item.printAll (.opens tag as :: is) =
        '<' :: (tag ++ (as.text ++ ['>'] ++ Item.printAll is)) := by
      simp [Item.print, printOpening_eq]
    rw [hprint, List.append_assoc]
    rcases text_nil_or_blank as with he | ⟨u, he⟩
    · rw [he] at htext ⊢
      exact htext.append_isName name notRaw rfl
    · rw [he] at htext ⊢
      exact htext.append_isName name notRaw rfl
  | @closes tag is name _ ih =>
    have hfront : '<' ∉ tag ++ ['>'] := by
      simp [not_mem_of_isName name (d := '<') rfl]
    simpa [Item.print, Node.printClosing] using (ih.append_of_not_mem hfront).append_slash
  | text plain _ _ ih => exact ih.append_of_not_mem plain.bracket

lemma not_braces_text (ht : ¬ openBraces <:+: t) (h : as.Plain) :
    ¬ openBraces <:+: as.text ++ t := by
  induction as with
  | nil => exact ht
  | cons a as ih =>
    obtain ⟨hname, hvalue⟩ := h.head
    have hmark : quoteMark a.2 ≠ '{' := Ne.symm (ne_quoteMark rfl a.2)
    have hrest := not_braces_append_cons hmark (quiet_quotedText hvalue.toQuiet).braces (ih h.tail)
    simpa [text_cons] using not_braces_append (not_mem_front hname rfl) hrest

lemma Written.not_braces (h : Written is) : ¬ openBraces <:+: Item.printAll is := by
  induction h with
  | nil => decide
  | @opens tag as is name _ plain _ ih =>
    have hend : ¬ openBraces <:+: '>' :: Item.printAll is :=
      not_braces_append (w := ['>']) (by decide) ih
    have hfront : '{' ∉ '<' :: tag := by
      simp [not_mem_of_isName name (d := '{') rfl]
    simpa [Item.print, printOpening_eq] using
      not_braces_append hfront (not_braces_text hend plain)
  | @closes tag is name _ ih =>
    have hfront : '{' ∉ Node.printClosing tag := by
      simp [Node.printClosing, not_mem_of_isName name (d := '{') rfl]
    exact not_braces_append hfront ih
  | text plain next _ ih =>
    rcases head_of_isTag next with he | ⟨u, he⟩
    · simpa [he, Item.print] using plain.braces
    · rw [he] at ih
      rw [printAll_cons, he]
      exact not_braces_append_cons (by decide) plain.braces fun hi => ih (List.infix_cons hi)

/-! ### What the last pass hides -/

/-- The table once the values of attributes are hidden. -/
def Placeholders.store (p : Placeholders) (as : Attributes) : Placeholders :=
  ⟨(stored p.issued as).reverse ++ p.entries, p.issued + as.length⟩

lemma store_cons (p : Placeholders) (a : Text × Text) (as : Attributes) :
    p.store (a :: as) = (p.insert (quotedText a.2)).2.store as := by
  simp [store, stored, Placeholders.insert, Nat.add_assoc, Nat.add_comm 1]

lemma store_append (p : Placeholders) (as bs : Attributes) :
    p.store (as ++ bs) = (p.store as).store bs := by
  simp [store, stored_append, Nat.add_assoc]

lemma hide_text (hnames : ∀ a ∈ as, isName a.1 = true) (p : Placeholders) (t : Text) :
    p.hide (quotedValues (as.text ++ t)) =
      (as.hidden p.issued ++ ((p.store as).hide (quotedValues t)).1,
        ((p.store as).hide (quotedValues t)).2) := by
  induction as generalizing p with
  | nil => rfl
  | cons a as ih =>
    obtain ⟨hname, hnames⟩ := List.forall_mem_cons.1 hnames
    have hfront : '=' ∉ ' ' :: a.1 := by
      simp [not_mem_of_isName hname (d := '=') rfl]
    have htext : Attributes.text (a :: as) ++ t = (' ' :: a.1) ++ '=' :: quoteMark a.2 ::
        (quotedText a.2 ++ quoteMark a.2 :: (Attributes.text as ++ t)) := by
      simp [text_cons, front]
    have hvalue := hide_quotedValues_value (w := []) (by simp) (isQuote_quoteMark a.2)
      (quoteMark_not_mem a.2) p (Attributes.text as ++ t)
    rw [List.nil_append, List.nil_append] at hvalue
    rw [htext, hide_quotedValues_append hfront, hvalue, ih hnames, ← store_cons]
    simp [Attributes.hidden, front, Placeholders.insert]

lemma Written.hide_quotedValues (h : Written is) (p : Placeholders) :
    p.hide (quotedValues (Item.printAll is)) =
      ((hiddenAll p.issued is).flatten, p.store (attributesAll is)) := by
  induction h generalizing p with
  | nil => simp [quotedValues, hide, hiddenAll, attributesAll, store, stored]
  | @opens tag as is name _ plain _ ih =>
    have hfront : '=' ∉ '<' :: tag := by
      simp [not_mem_of_isName name (d := '=') rfl]
    have hprint : Item.printAll (.opens tag as :: is) =
        ('<' :: tag) ++ (as.text ++ (['>'] ++ Item.printAll is)) := by
      simp [Item.print, printOpening_eq]
    rw [hprint, hide_quotedValues_append hfront, hide_text plain.names,
      hide_quotedValues_append (by decide), ih, attributesAll_cons, Item.attributes, store_append]
    simp [hiddenAll, Item.hidden, Segment.hiddenOpening, Item.attributes, store]
  | @closes tag is name _ ih =>
    have hfront : '=' ∉ Node.printClosing tag := by
      simp [Node.printClosing, not_mem_of_isName name (d := '=') rfl]
    rw [printAll_cons, Item.print, hide_quotedValues_append hfront, ih]
    rfl
  | text plain next _ ih =>
    rw [printAll_cons, Item.print, hide_quotedValues_append plain.equals, ih]
    rfl

/-- The table that remembers the values of attributes has them. -/
lemma held_store (as : Attributes) : Held (empty.store as) 0 as := by
  have hnumbered : (empty.store as).Numbered := by
    rw [Numbered, store, empty, List.append_nil, List.map_reverse, Nat.zero_add]
    exact congrArg List.reverse (held_eq 0 as)
  intro e he
  exact lookup_of_mem hnumbered.nodup (by simpa [store, empty] using he)

/-- Hiding printed markup hides its attribute values. -/
lemma Written.hideAll (h : Written is) : empty.hideAll (Item.printAll is) =
    ((hiddenAll 0 is).flatten, empty.store (attributesAll is)) := by
  have hbackslash : '\\' ∉ Item.printAll is :=
    h.not_mem rfl (by decide) (fun v hv => hv.backslash) fun t ht => ht.backslash
  rw [Placeholders.hideAll, hide_backslashes_of_not_mem hbackslash]
  simp only [hide_rawText_of_noRawElement h.noRawElement,
    hide_expressions_of_not_infix h.not_braces]
  exact h.hide_quotedValues empty

/-! ### What the scanner cuts -/

lemma head_hiddenAll (h : ∀ i ∈ is.head?, i.isTag = true) (n : Nat) :
    (hiddenAll n is).flatten = [] ∨ ∃ u, (hiddenAll n is).flatten = '<' :: u := by
  cases is with
  | nil => exact .inl rfl
  | cons i is =>
    have hi := h i (by simp)
    cases i with
    | opens tag as => exact .inr ⟨_, rfl⟩
    | closes tag => exact .inr ⟨_, rfl⟩
    | text t => cases hi

lemma closeTag_append (hopen : '<' ∉ w) (hclose : '>' ∉ w) (t : Text) :
    closeTag (w ++ '>' :: t) = (w ++ ['>'], t) := by
  induction w with
  | nil => simp [closeTag]
  | cons c w ih =>
    rw [List.mem_cons, not_or] at hopen hclose
    rw [List.cons_append, closeTag, if_neg (Ne.symm hopen.1), if_neg (Ne.symm hclose.1),
      ih hopen.2 hclose.2]
    rfl

/-- A tag without brackets within is cut off. -/
lemma segmentTexts_append_tag (hopen : '<' ∉ w) (hclose : '>' ∉ w) (t : Text) :
    segmentTexts ('<' :: (w ++ '>' :: t)) = ('<' :: (w ++ ['>'])) :: segmentTexts t := by
  rw [segmentTexts_tag, closeTag_append hopen hclose]

/-- A text is cut off before the next tag. -/
lemma segmentTexts_append_text (hne : w ≠ []) (hw : '<' ∉ w)
    (ht : t = [] ∨ ∃ u, t = '<' :: u) : segmentTexts (w ++ t) = w :: segmentTexts t := by
  obtain ⟨c, w, rfl⟩ := List.exists_cons_of_ne_nil hne
  rw [List.mem_cons, not_or] at hw
  have hrun : ∀ d ∈ w, (d != '<') = true := by
    intro d hd
    rw [bne_iff_ne]
    rintro rfl
    exact hw.2 hd
  rw [List.cons_append, segmentTexts_run (Ne.symm hw.1)]
  rcases ht with rfl | ⟨u, rfl⟩
  · rw [List.append_nil, List.takeWhile_eq_self_iff.2 hrun, List.dropWhile_eq_nil_iff.2 hrun]
  · rw [takeWhile_append_cons hrun rfl, dropWhile_append_cons hrun rfl]

/-- Printed markup falls into the tags and texts that it was printed from. -/
lemma Written.segmentTexts (h : Written is) (n : Nat) :
    segmentTexts (hiddenAll n is).flatten = hiddenAll n is := by
  induction h generalizing n with
  | nil => exact segmentTexts_nil
  | @opens tag as is name _ plain _ ih =>
    have hbracket (c : Char) (hc : inAttribute c = false) (ht : inToken c = false) :
        c ∉ tag ++ as.hidden n := by
      rw [List.mem_append, not_or]
      exact ⟨not_mem_of_isName name (not_inAttribute hc).1, not_mem_hidden plain.names hc ht⟩
    have hcut := segmentTexts_append_tag (hbracket '<' rfl rfl) (hbracket '>' rfl rfl)
      (hiddenAll (n + as.length) is).flatten
    rw [ih] at hcut
    simpa [hiddenAll, Item.hidden, Item.attributes, Segment.hiddenOpening] using hcut
  | @closes tag is name _ ih =>
    have hbracket (c : Char) (hc : isNameChar c = false) (hs : c ≠ '/') : c ∉ '/' :: tag := by
      rw [List.mem_cons, not_or]
      exact ⟨hs, not_mem_of_isName name hc⟩
    have hcut := segmentTexts_append_tag (hbracket '<' rfl (by decide))
      (hbracket '>' rfl (by decide)) (hiddenAll n is).flatten
    rw [ih] at hcut
    simpa [hiddenAll, Item.hidden, Item.attributes, Node.printClosing] using hcut
  | @text t is plain next _ ih =>
    have hcut := segmentTexts_append_text plain.nonempty plain.bracket (head_hiddenAll next n)
    rw [ih] at hcut
    exact hcut

end HtmlTemplate
