import HtmlTemplate.Proofs.Markup.Whole
import HtmlTemplate.Proofs.Markup.WrittenTag

/-!
The grammar of opening tags.

A written tag is parsed to one element. Its attributes are set from left to right, so that a name
stands where it was first written and has the value that was written last.
-/

namespace HtmlTemplate

open Placeholders Attributes HtmlTemplate.Span Text

variable {c : Char} {t w : Text} {a : WrittenAttribute}
  {bs : List (WrittenAttribute × Nat)} {tag : WrittenTag} {p : Placeholders}

/-! ### Attributes -/

namespace Attributes

/-- A value with its references to quotes read in one go. -/
def readRefs : Text → Text
  | '&' :: 'q' :: 'u' :: 'o' :: 't' :: ';' :: t => '"' :: readRefs t
  | '&' :: '#' :: '3' :: '9' :: ';' :: t => '\'' :: readRefs t
  | c :: t => c :: readRefs t
  | [] => []

/-- What the text put in place of another does not hold stood there before. -/
lemma prefix_of_prefix_replace {old new : Text} (ho : old ≠ [])
    (hnew : ∃ d u, new = d :: u ∧ d ∉ w) (h : w <+: replace old new t) : w <+: t := by
  induction w generalizing t with
  | nil => exact List.nil_prefix
  | cons c w ih =>
    obtain ⟨d, u, hnew, hd⟩ := hnew
    rw [List.mem_cons, not_or] at hd
    by_cases hfound : old <+: t
    · obtain ⟨v, rfl⟩ := hfound
      rw [replace_append ho, hnew, List.cons_append, List.cons_prefix_cons] at h
      exact absurd h.1.symm hd.1
    · cases t with
      | nil => exact absurd (List.eq_nil_of_prefix_nil h) (List.cons_ne_nil c w)
      | cons e t =>
        rw [replace_cons hfound, List.cons_prefix_cons] at h
        obtain ⟨rfl, hrest⟩ := h
        exact List.cons_prefix_cons.2 ⟨rfl, ih ⟨d, u, hnew, hd.2⟩ hrest⟩

/-- Reading the references to one kind of quote makes none to the other. -/
lemma unquoteRefs_eq_readRefs (t : Text) : unquoteRefs t = readRefs t := by
  have hdouble : doubleQuoteRef ≠ [] := by decide
  have hsingle : singleQuoteRef ≠ [] := by decide
  have hne {c : Char} {u : Text} (hc : c ≠ '&') : ¬ singleQuoteRef <+: c :: u :=
    fun hp => hc (List.cons_prefix_cons.1 hp).1.symm
  unfold unquoteRefs
  fun_induction readRefs t with
  | case1 t ih =>
    have hfront : replace doubleQuoteRef ['"'] (doubleQuoteRef ++ t) =
        '"' :: replace doubleQuoteRef ['"'] t := replace_append hdouble _ t
    have hstart : '&' :: 'q' :: 'u' :: 'o' :: 't' :: ';' :: t = doubleQuoteRef ++ t := rfl
    rw [hstart, hfront, replace_cons (hne (by decide)), ih]
  | case2 t ih =>
    have hstart : '&' :: '#' :: '3' :: '9' :: ';' :: t = singleQuoteRef ++ t := rfl
    have hkept : replace doubleQuoteRef ['"'] (singleQuoteRef ++ t) =
        singleQuoteRef ++ replace doubleQuoteRef ['"'] t := by
      have hother : ¬ doubleQuoteRef <+: singleQuoteRef ++ t := fun hp =>
        absurd (List.cons_prefix_cons.1 (List.cons_prefix_cons.1 hp).2).1 (by decide)
      exact (replace_cons hother).trans
        (congrArg (List.cons '&') (replace_append_left (w := "#39;") (by decide) _ t))
    rw [hstart, hkept, replace_append hsingle, ih]
    rfl
  | case3 c t hnotdouble hnotsingle ih =>
    have hkept : ¬ doubleQuoteRef <+: c :: t := by
      rintro ⟨u, hu⟩
      obtain ⟨rfl, rfl⟩ := List.cons.inj hu
      exact hnotdouble _ rfl rfl
    rw [replace_cons hkept, replace_cons, ih]
    intro hp
    obtain ⟨hc, hrest⟩ := List.cons_prefix_cons.1 hp
    obtain ⟨u, rfl⟩ := prefix_of_prefix_replace hdouble ⟨'"', [], rfl, by decide⟩ hrest
    exact hnotsingle _ hc.symm rfl
  | case4 => rfl

lemma readPairs_of_trimStart (h : trimStart t = []) : readPairs t = [] := by
  rw [readPairs.eq_def]
  split
  · rfl
  · next h' =>
    rw [h] at h'
    cases h'

end Attributes

namespace WrittenAttribute

/-- A name is read with the token behind its equals sign. -/
lemma readPairs_front (ha : a.WellFormed) (n : Nat) (ht : ∀ c ∈ t.head?, isGap c = true) :
    readPairs (a.front ++ (token n ++ a.mark :: t)) = (a.name, token n) :: readPairs t := by
  obtain ⟨⟨hbefore, hbeforeSign⟩, hafterSign⟩ := ha.spaces
  obtain ⟨c, u, hname⟩ := List.exists_cons_of_ne_nil ha.named
  have hbare := ha.name
  rw [hname, List.forall_mem_cons] at hbare
  set behind := a.afterSign ++ a.mark :: (token n ++ a.mark :: t) with hbehind
  have hfirst : trimStart (a.front ++ (token n ++ a.mark :: t)) =
      c :: (u ++ (a.beforeSign ++ '=' :: behind)) := by
    have hfront : a.front ++ (token n ++ a.mark :: t) =
        a.before ++ c :: (u ++ (a.beforeSign ++ '=' :: behind)) := by
      simp [front, hname, hbehind]
    rw [hfront]
    exact dropWhile_append_cons hbefore (isSpace_of_isBare hbare.1)
  have hu : ∀ d ∈ u, (!endsName d) = true := by
    intro d hd
    rw [endsName_of_isBare (hbare.2 d hd)]
    rfl
  -- the name ends before the equals sign, or before the white space in front of it
  obtain ⟨d, v, hdv, hd⟩ : ∃ d v, a.beforeSign ++ '=' :: behind = d :: v ∧ endsName d = true := by
    cases hsign : a.beforeSign with
    | nil => exact ⟨'=', behind, rfl, rfl⟩
    | cons d v =>
      refine ⟨d, v ++ '=' :: behind, rfl, ?_⟩
      rw [endsName, hbeforeSign d (by simp [hsign]), Bool.true_or]
  have htake : (u ++ (a.beforeSign ++ '=' :: behind)).takeWhile (fun c => !endsName c) = u := by
    rw [hdv]
    exact takeWhile_append_cons hu (by simp [hd])
  have hdrop : afterName (u ++ (a.beforeSign ++ '=' :: behind)) =
      a.beforeSign ++ '=' :: behind := by
    rw [hdv]
    exact dropWhile_append_cons hu (by simp [hd])
  have hafter : trimStart (afterName (u ++ (a.beforeSign ++ '=' :: behind))) = '=' :: behind := by
    rw [hdrop]
    exact dropWhile_append_cons hbeforeSign rfl
  have hvalue := readValue_token hafterSign ha.mark n fun c hc => isSpace_of_isGap (ht c hc)
  rw [readPairs_cons hfirst (ne_of_isBare hbare.1 rfl) hafter, htake, hbehind, hvalue, hname]

/-- The names are read, each with its token, also with white space behind. -/
lemma readPairs_hidden (h : ∀ b ∈ bs, b.1.WellFormed) (hw : ∀ c ∈ w, isGap c = true) :
    readPairs (hidden bs ++ w) = bs.map fun (a, n) => (a.name, token n) := by
  induction bs with
  | nil =>
    refine readPairs_of_trimStart (List.dropWhile_eq_nil_iff.2 fun c hc => ?_)
    exact isSpace_of_isGap (hw c hc)
  | cons b bs ih =>
    obtain ⟨hb, hbs⟩ := List.forall_mem_cons.1 h
    have hcons : hidden (b :: bs) ++ w =
        b.1.front ++ (token b.2 ++ b.1.mark :: (hidden bs ++ w)) := by
      simp [hidden]
    rw [hcons, readPairs_front hb b.2 (head_hidden hbs hw), ih hbs, List.map_cons]

lemma not_mem_hidden (h : ∀ b ∈ bs, b.1.WellFormed) (hc : inTag c = false)
    (ht : inToken c = false) : c ∉ hidden bs := by
  rw [hidden, List.mem_flatMap]
  rintro ⟨b, hb, hm⟩
  have hquote : isQuote c = false := (Bool.or_eq_false_iff.1 hc).2
  simp only [List.mem_append, List.mem_singleton] at hm
  rcases hm with hm | hm | rfl
  · exact (h b hb).not_mem_front hc hm
  · exact not_mem_token ht _ hm
  · exact ne_of_isQuote (h b hb).mark hquote rfl

/-- Attributes are empty or end with a quote. -/
lemma hidden_eq_nil_or (h : ∀ b ∈ bs, b.1.WellFormed) :
    hidden bs = [] ∨ ∃ t q, isQuote q = true ∧ hidden bs = t ++ [q] := by
  rcases List.eq_nil_or_concat bs with rfl | ⟨bs, b, rfl⟩
  · exact .inl rfl
  · refine .inr ⟨hidden bs ++ (b.1.front ++ token b.2), b.1.mark, (h b (by simp)).mark, ?_⟩
    simp [hidden]

/-- What the tokens stand for is set, each under its name. -/
lemma foldl_readPair (h : ∀ b ∈ bs, b.1.WellFormed)
    (hp : ∀ b ∈ bs, p.find? b.2 = some b.1.value) (acc : Attributes) :
    (bs.map fun (a, n) => (a.name, token n)).foldl (readPair p) acc =
      acc.setAll (bs.map fun b => (b.1.name, unquoteRefs b.1.value)) := by
  induction bs generalizing acc with
  | nil => rfl
  | cons b bs ih =>
    obtain ⟨hb, hbs⟩ := List.forall_mem_cons.1 h
    obtain ⟨hpb, hpbs⟩ := List.forall_mem_cons.1 hp
    have hset : readPair p acc (b.1.name, token b.2) =
        acc.set b.1.name (unquoteRefs b.1.value) := by
      rw [readPair, get?_token, hpb, decode_of_not_mem p (not_mem_of_isBare hb.name rfl),
        decode_token hpb hb.value.token]
      rfl
    rw [List.map_cons, List.foldl_cons, hset, ih hbs hpbs]
    rfl

end WrittenAttribute

/-! ### Tags -/

namespace WrittenTag.WellFormed

open WrittenAttribute

lemma numbered (h : tag.WellFormed) : ∀ b ∈ tag.attributes.zipIdx 1, b.1.WellFormed := by
  rintro ⟨a, n⟩ hb
  exact h.attributes a (List.fst_mem_of_mem_zipIdx hb)

lemma not_mem_hiddenAttributes (h : tag.WellFormed) (hc : inTag c = false)
    (ht : inToken c = false) : c ∉ tag.hiddenAttributes :=
  not_mem_hidden h.numbered hc ht

/-- A character that tags are not written with stands at most at the end of one. -/
lemma not_mem_front (h : tag.WellFormed) (hc : inTag c = false) (ht : inToken c = false) :
    c ∉ tag.name ++ (tag.hiddenAttributes ++ tag.space) := by
  have hattributes := h.not_mem_hiddenAttributes hc ht
  simp only [inTag, Bool.or_eq_false_iff] at hc
  have hspace : c ∉ tag.space := by
    intro hm
    rw [h.space c hm] at hc
    cases hc.1.1.1
  simp [not_mem_of_isBare h.name hc.1.1.2, hattributes, hspace]

/-- The name is told apart from what stands behind it. -/
lemma span_hidden (h : tag.WellFormed) :
    Segment.writtenName tag.hidden = tag.name ∧
      (Segment.tagBody tag.hidden).dropWhile (fun c => !Segment.endsTagName c) =
        tag.hiddenAttributes ++ tag.close := by
  have hgap : ∀ c ∈ tag.hiddenAttributes.head?, isGap c = true := by
    simpa [hiddenAttributes] using head_hidden (w := []) h.numbered (by simp)
  obtain ⟨c, u, hcu, hc⟩ := h.exists_cons_behind hgap
  have hends : (!Segment.endsTagName c) = false := by
    rcases hc with hc | rfl | rfl
    · simp [Segment.endsTagName, isSpace_of_isGap hc]
    · rfl
    · rfl
  have hname : ∀ d ∈ tag.name, (!Segment.endsTagName d) = true := by
    intro d hd
    rw [endsTagName_of_isBare (h.name d hd)]
    rfl
  have hbody : Segment.tagBody tag.hidden =
      tag.name ++ (tag.hiddenAttributes ++ tag.close) := by
    simp [Segment.tagBody, WrittenTag.hidden, after?]
  rw [Segment.writtenName, hbody, hcu]
  exact ⟨takeWhile_append_cons hname hends, dropWhile_append_cons hname hends⟩

/-- A slash at the end, the closing bracket and line breaks before it are no part of attributes. -/
lemma exists_attributePart (h : tag.WellFormed) : ∃ w, (∀ c ∈ w, isGap c = true) ∧
    attributePart tag.hidden = tag.hiddenAttributes ++ w := by
  rw [attributePart, h.span_hidden.2]
  cases hs : tag.slash with
  | true =>
    refine ⟨tag.space, h.space, ?_⟩
    have hbody : tag.hiddenAttributes ++ tag.close =
        tag.hiddenAttributes ++ tag.space ++ ['/'] ++ ['>'] := by simp [close, hs]
    rw [hbody, dropEndWhile_append_pos _ rfl, dropEndWhile_append_neg _ rfl, before?_append,
      if_pos (by simp)]
    rfl
  | false =>
    have hend : tag.hiddenAttributes = [] ∨ ∃ t q,
        (q == '>' || q == '\r' || q == '\n') = false ∧ tag.hiddenAttributes = t ++ [q] := by
      refine (hidden_eq_nil_or h.numbered).imp_right ?_
      rintro ⟨t, q, hq, he⟩
      refine ⟨t, q, ?_, he⟩
      rcases isQuote_iff.1 hq with rfl | rfl <;> rfl
    obtain ⟨w, hw, hdrop⟩ := exists_dropEndWhile hend tag.space
    have hgap : ∀ c ∈ w, isGap c = true := fun c hc => h.space c (hw.subset hc)
    refine ⟨w, hgap, ?_⟩
    have hbody : tag.hiddenAttributes ++ tag.close =
        tag.hiddenAttributes ++ tag.space ++ ['>'] := by simp [close, hs]
    have hshort : (tag.hiddenAttributes ++ w).length <
        (tag.hiddenAttributes ++ tag.space ++ ['>']).length := by
      have hle := hw.length_le
      simp only [List.length_append, List.length_singleton]
      omega
    have hslash : ¬ ['/'] <:+ tag.hiddenAttributes ++ w := by
      intro hs
      rcases List.mem_append.1 (hs.subset List.mem_cons_self) with hm | hm
      · exact h.not_mem_hiddenAttributes rfl rfl hm
      · exact absurd (hgap _ hm) (by decide)
    rw [hbody, dropEndWhile_append_pos _ rfl, hdrop, if_pos hshort,
      before?_eq_none_iff.2 hslash]
    rfl

/-- A tag is one segment. -/
lemma segmentTexts_hidden (h : tag.WellFormed) : segmentTexts tag.hidden = [tag.hidden] := by
  obtain ⟨w, hw, hopen, hclose⟩ : ∃ w, tag.hidden = '<' :: (w ++ ['>']) ∧ '<' ∉ w ∧ '>' ∉ w := by
    refine ⟨tag.name ++ (tag.hiddenAttributes ++ tag.space) ++ if tag.slash then ['/'] else [],
      ?_, ?_, ?_⟩
    · cases hs : tag.slash <;> simp [WrittenTag.hidden, close, hs]
    · rw [List.mem_append, not_or]
      exact ⟨h.not_mem_front rfl rfl, by split <;> decide⟩
    · rw [List.mem_append, not_or]
      exact ⟨h.not_mem_front rfl rfl, by split <;> decide⟩
  have hcut := segmentTexts_append_tag hopen hclose []
  rwa [segmentTexts_nil, ← hw] at hcut

/-- Only a slash, or the name of an element without content, makes a tag close itself. -/
lemma kindOf_hidden (h : tag.WellFormed) : Segment.kindOf tag.hidden =
    .tag (if tag.slash || isVoid tag.name.lowerAscii then .selfCloses else .opens) := by
  have hslash : endsWith tag.hidden ['/', '>'] = tag.slash := by
    cases hs : tag.slash with
    | true =>
      refine endsWith_iff.2 ⟨'<' :: (tag.name ++ (tag.hiddenAttributes ++ tag.space)), ?_⟩
      simp [WrittenTag.hidden, close, hs]
    | false =>
      rw [← Bool.not_eq_true, endsWith_iff]
      rintro ⟨u, hu⟩
      have hend : u ++ ['/'] ++ ['>'] =
          '<' :: (tag.name ++ (tag.hiddenAttributes ++ tag.space)) ++ ['>'] := by
        simpa [WrittenTag.hidden, close, hs] using hu
      have hfront := List.append_cancel_right hend
      have hm : '/' ∈ '<' :: (tag.name ++ (tag.hiddenAttributes ++ tag.space)) :=
        hfront ▸ by simp
      exact h.not_mem_front rfl rfl ((List.mem_cons.1 hm).resolve_left (by decide))
  have hname := h.span_hidden.1
  obtain ⟨c, u, hcu⟩ := List.exists_cons_of_ne_nil (l := tag.name) (by
    rintro hnil
    have hletter := h.letter
    rw [hnil] at hletter
    cases hletter)
  have hletter : c.isAlpha = true := by simpa [hcu] using h.letter
  have hne : '/' ≠ c := by
    rintro rfl
    cases hletter
  have hcloses : startsWith tag.hidden ['<', '/'] = false := by
    simp [WrittenTag.hidden, hcu, startsWith, after?, hne]
  have hkind : Segment.kindOf tag.hidden = .tag (Segment.tagRole tag.hidden) := by
    rw [WrittenTag.hidden, hcu]
    exact Segment.kindOf_of_startsTag (by simp [Segment.startsTag, hletter]) _
  rw [hkind, Segment.tagRole, hcloses, hslash, hname]
  rfl

end WrittenTag.WellFormed

/-- An opening tag alone, whether it closes itself or is never closed. -/
lemma Builder.forest_pushAll_tag {e : Segment} {selfClosing : Bool}
    (hk : e.kind = .tag (if selfClosing then .selfCloses else .opens)) :
    ((ofPlaceholders p).pushAll [e]).map forest =
      .ok [.element (opening p e.raw (p.take e.raw).1 e.line selfClosing) false []] := by
  rw [pushAll, List.foldlM_cons]
  cases selfClosing with
  | true =>
    rw [push_selfCloses hk]
    rfl
  | false =>
    rw [push_opens hk]
    rfl

namespace WrittenTag

/-- The names and values of a tag, as often as they are written. -/
def pairs (tag : WrittenTag) : Attributes :=
  tag.attributes.map fun a => (a.name, readRefs a.value)

/-- The table with the values of a tag. -/
def table (tag : WrittenTag) : Placeholders :=
  (empty.insertAll (tag.attributes.map WrittenAttribute.value)).2

lemma WellFormed.ofTag_hidden (h : tag.WellFormed) :
    ofTag tag.table tag.hidden = Record.setAll [] tag.pairs := by
  have hfound : ∀ b ∈ tag.attributes.zipIdx 1, tag.table.find? b.2 = some b.1.value := by
    rintro ⟨a, n⟩ hb
    refine find?_insertAll ?_
    rw [List.zipIdx_map]
    exact List.mem_map_of_mem hb
  obtain ⟨w, hw, hpart⟩ := h.exists_attributePart
  have hpairs := WrittenAttribute.foldl_readPair h.numbered hfound []
  rw [ofTag, hpart, hiddenAttributes, WrittenAttribute.readPairs_hidden h.numbered hw]
  refine hpairs.trans (congrArg _ ?_)
  rw [pairs]
  conv_rhs => rw [← List.zipIdx_map_fst 1 tag.attributes, List.map_map]
  refine List.map_congr_left fun b _ => ?_
  rw [unquoteRefs_eq_readRefs]
  rfl

lemma WellFormed.opening_hidden (h : tag.WellFormed) (line : Nat) (selfClosing : Bool) :
    Builder.opening tag.table tag.hidden tag.text line selfClosing =
      ⟨tag.name.lower, Record.setAll [] tag.pairs, tag.text, line, selfClosing⟩ := by
  have hname := not_mem_of_isBare h.name (c := tokenOpening) rfl
  rw [Builder.opening, h.span_hidden.1, h.ofTag_hidden, Builder.resolveTag,
    decode_of_not_mem (t := tag.name.lower) _ (not_mem_lowerFrom [] hname)]

/-- **A written tag is one element.** Its name is in lower case, and its attributes are those
written, set from left to right: each name once, where it was written first, with the value that
was written last. -/
theorem parseTemplate_writtenTag (tag : WrittenTag) (h : tag.WellFormed) :
    let attributes := Record.setAll [] tag.pairs
    parseTemplate tag.text = .ok [.element
        ⟨tag.name.lower, attributes, tag.text, if '\n' ∈ tag.text then 2 else 1,
          tag.slash || isVoid tag.name.lowerAscii⟩ false []] ∧
      attributes.names = tag.pairs.names.eraseDups ∧
      ∀ name, attributes.get? name = Record.get? tag.pairs.reverse name := by
  intro attributes
  refine ⟨?_, Record.names_setAll _, Record.get?_setAll _⟩
  have hplain : tokenOpening ∉ tag.text := h.not_mem_text rfl (by decide) fun v hv => hv.token
  set scanned := Scanned.ofSource tag.text with hscanned
  have hplaceholders : scanned.placeholders = tag.table := congrArg Prod.snd h.hideAll
  have hraws : scanned.segments.map Segment.raw = [tag.hidden] := by
    have hescaped : (empty.hideAll tag.text).1 = tag.hidden := congrArg Prod.fst h.hideAll
    rw [← h.segmentTexts_hidden, ← hescaped]
    exact map_raw_numberLines _ 1 _
  obtain ⟨e, es, hsegments, he, hes⟩ := List.map_eq_cons_iff.1 hraws
  obtain rfl := List.map_eq_nil_iff.1 hes
  have hdecoded : scanned.decoded e = tag.text := by
    have htexts := Scanned.flatten_decoded hplain
    rw [← hscanned] at htexts
    simpa [hsegments] using htexts
  have hline : e.line = if '\n' ∈ tag.text then 2 else 1 := by
    have hlines := Scanned.line_ofSource hplain [] e [] hsegments
    rw [← hscanned] at hlines
    rw [hlines, hdecoded]
    split <;> rfl
  have htake : (tag.table.take e.raw).1 = tag.text := by
    have hround := take_hideAll hplain
    rw [h.hideAll] at hround
    rw [he]
    exact congrArg Prod.fst hround
  have hkind := (congrArg Segment.kindOf he).trans h.kindOf_hidden
  have hforest := Builder.forest_pushAll_tag (p := tag.table) hkind
  rw [htake, hline, he, h.opening_hidden] at hforest
  rw [← hforest, parseTemplate, ← hscanned, ← hsegments, ← hplaceholders]

/-- Attributes in rows, with markup, equals signs, references and the other quote in their values,
and a name that is written twice. -/
theorem parseTemplate_writtenTag_rows :
    let tag : WrittenTag := ⟨"A-1", [
      ⟨"\n\t", "x", " ", "\r\n", '"', "<b c='1'> = &quot;&#39;"⟩,
      ⟨" ", "Y:z", "", "", '\'', "\"/>\n"⟩,
      ⟨"  ", "x", "\t", "", '\'', "last"⟩], "\n", true⟩
    let attributes : Attributes := [("x", "last"), ("Y:z", "\"/>\n")]
    tag.WellFormed ∧
      parseTemplate tag.text = .ok [.element ⟨"a-1", attributes, tag.text, 2, true⟩ false []] ∧
      attributes.names = tag.pairs.names.eraseDups ∧
      ∀ name, attributes.get? name = Record.get? tag.pairs.reverse name := by
  intro tag attributes
  have h : tag.WellFormed := by decide +kernel
  have hattributes : Record.setAll [] tag.pairs = attributes := by decide +kernel
  obtain ⟨hparse, hnames, hvalues⟩ := parseTemplate_writtenTag tag h
  rw [hattributes] at hparse hnames hvalues
  exact ⟨h, hparse, hnames, hvalues⟩

end WrittenTag

end HtmlTemplate
