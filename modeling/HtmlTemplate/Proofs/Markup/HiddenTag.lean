import HtmlTemplate.Markup.Builder
import HtmlTemplate.Proofs.Markup.Quoting
import HtmlTemplate.Proofs.Markup.RoundTrip
import HtmlTemplate.Proofs.Record
import HtmlTemplate.Proofs.Text.Ends

/-!
Reading a printed tag.

Once its values are hidden, a printed opening tag is a name and, for each attribute, a blank, a
name, an equals sign and a token between quotes. Each reader of tags is run on that form: the
name, the kind of the segment, and the attributes come out as they were printed.
-/

namespace HtmlTemplate

open Placeholders Attributes Text

namespace Attributes

/-- Attributes that can be printed and read back. -/
@[mk_iff]
structure Plain (as : Attributes) : Prop where
  names : ∀ a ∈ as, isName a.1 = true
  values : ∀ a ∈ as, Quotable a.2
  distinct : as.names.Nodup

instance : DecidablePred Plain := fun as => decidable_of_iff' _ (plain_iff as)

variable {n : Nat} {c : Char} {t : Text} {a : Text × Text} {as bs : Attributes} {p : Placeholders}

lemma Plain.head (h : Plain (a :: as)) : isName a.1 = true ∧ Quotable a.2 :=
  ⟨h.names a List.mem_cons_self, h.values a List.mem_cons_self⟩

lemma Plain.tail (h : Plain (a :: as)) : Plain as where
  names _ hb := h.names _ (List.mem_cons_of_mem _ hb)
  values _ hb := h.values _ (List.mem_cons_of_mem _ hb)
  distinct := (List.nodup_cons.1 h.distinct).2

/-! ### Attributes with their values hidden -/

/-- Attributes as they stand in a tag. -/
def text (as : Attributes) : Text :=
  as.flatMap fun (name, value) => ' ' :: name ++ '=' :: quote value

/-- An attribute up to its value. -/
def front (a : Text × Text) : Text := ' ' :: (a.1 ++ '=' :: [quoteMark a.2])

/-- Attributes once their values are hidden, when `issued` tokens have been given out before. -/
def hidden : (issued : Nat) → Attributes → Text
  | _, [] => []
  | issued, a :: as =>
    front a ++ (token (issued + 1) ++ quoteMark a.2 :: hidden (issued + 1) as)

/-- What is hidden then, with the numbers of the tokens. -/
def stored : (issued : Nat) → Attributes → List (Nat × Text)
  | _, [] => []
  | issued, a :: as => (issued + 1, quotedText a.2) :: stored (issued + 1) as

/-- The numbers of those tokens. -/
def held (issued : Nat) (as : Attributes) : List Nat := (stored issued as).map Prod.fst

/-- The names and tokens. -/
def tokenPairs : (issued : Nat) → Attributes → List (Text × Text)
  | _, [] => []
  | issued, a :: as => (a.1, token (issued + 1)) :: tokenPairs (issued + 1) as

lemma text_cons (a : Text × Text) (as : Attributes) :
    text (a :: as) = front a ++ (quotedText a.2 ++ quoteMark a.2 :: text as) := by
  simp [text, front, quote_eq]

lemma stored_append (n : Nat) (as bs : Attributes) :
    stored n (as ++ bs) = stored n as ++ stored (n + as.length) bs := by
  induction as generalizing n with
  | nil => rfl
  | cons a as ih =>
    rw [List.cons_append, stored, stored, ih, List.length_cons, List.cons_append,
      Nat.add_assoc n, Nat.add_comm 1]

lemma held_eq (n : Nat) (as : Attributes) : held n as = List.range' (n + 1) as.length := by
  induction as generalizing n with
  | nil => rfl
  | cons a as ih =>
    rw [List.length_cons, List.range'_succ, ← ih]
    rfl

lemma held_append (n : Nat) (as bs : Attributes) :
    held n (as ++ bs) = held n as ++ held (n + as.length) bs := by
  rw [held, stored_append, List.map_append]
  rfl

/-- The characters that attributes are written with, their values apart. -/
def inAttribute (c : Char) : Bool := isNameChar c || Span.isQuote c || c == ' ' || c == '='

lemma not_inAttribute (h : inAttribute c = false) :
    isNameChar c = false ∧ Span.isQuote c = false ∧ c ≠ ' ' ∧ c ≠ '=' := by
  simpa [inAttribute, and_assoc] using h

lemma not_mem_front (hname : isName a.1 = true) (hc : inAttribute c = false) : c ∉ front a := by
  obtain ⟨hchar, hquote, hblank, hequals⟩ := not_inAttribute hc
  simp [front, hblank, hequals, not_mem_of_isName hname hchar, ne_quoteMark hquote a.2]

lemma mem_value_of_mem_text (h : c ∈ as.text) (hnames : ∀ a ∈ as, isName a.1 = true)
    (hc : inAttribute c = false) : ∃ a ∈ as, c ∈ quotedText a.2 := by
  induction as with
  | nil => cases h
  | cons a as ih =>
    obtain ⟨hname, hnames⟩ := List.forall_mem_cons.1 hnames
    have hfront := not_mem_front hname hc
    have hmark := ne_quoteMark (not_inAttribute hc).2.1 a.2
    rw [text_cons] at h
    simp only [List.mem_cons, List.mem_append, hfront, hmark, false_or] at h
    rcases h with h | h
    · exact ⟨a, List.mem_cons_self, h⟩
    · obtain ⟨b, hb, h⟩ := ih h hnames
      exact ⟨b, List.mem_cons_of_mem _ hb, h⟩

lemma not_mem_hidden (h : ∀ a ∈ as, isName a.1 = true) (hc : inAttribute c = false)
    (ht : inToken c = false) : c ∉ hidden n as := by
  induction as generalizing n with
  | nil => exact List.not_mem_nil
  | cons a as ih =>
    obtain ⟨hname, hnames⟩ := List.forall_mem_cons.1 h
    have hmark := ne_quoteMark (not_inAttribute hc).2.1 a.2
    simp only [hidden, List.mem_cons, List.mem_append, not_or]
    exact ⟨not_mem_front hname hc, not_mem_token ht _, hmark, ih hnames⟩

/-- Attributes end with a quote. -/
lemma hidden_eq_nil_or (n : Nat) (as : Attributes) :
    hidden n as = [] ∨ ∃ t q, Span.isQuote q = true ∧ hidden n as = t ++ [q] := by
  induction as generalizing n with
  | nil => exact .inl rfl
  | cons a as ih =>
    refine .inr ?_
    rcases ih (n + 1) with h | ⟨t, q, hq, h⟩
    · exact ⟨front a ++ token (n + 1), _, isQuote_quoteMark a.2, by simp [hidden, h]⟩
    · exact ⟨front a ++ (token (n + 1) ++ quoteMark a.2 :: t), _, hq, by simp [hidden, h]⟩

/-! ### Reading attributes -/

lemma endsName_of_isNameChar (h : isNameChar c = true) : endsName c = false := by
  have hne : c ≠ '=' := ne_of_isNameChar h rfl
  simp [endsName, isSpace_of_isNameChar h, hne]

lemma isSpace_of_mem_token (h : c ∈ token n) : isSpace c = false := by
  have hin := inToken_of_mem h
  simp only [inToken, Bool.or_eq_true, beq_iff_eq] at hin
  rcases hin with (rfl | rfl) | hd
  · decide
  · decide
  · exact isSpace_of_isNameChar (by simp [isNameChar, hd])

/-- A token between quotes is read up to the next white space. -/
lemma readValue_token {w : Text} {q : Char} (hw : ∀ c ∈ w, isSpace c = true)
    (hq : Span.isQuote q = true) (n : Nat) (ht : ∀ c ∈ t.head?, isSpace c = true) :
    readValue (w ++ q :: (token n ++ q :: t)) = (token n, t) := by
  have hquote := Span.not_isSpace_of_isQuote hq
  have hword : ∀ c ∈ token n ++ [q], (!isSpace c) = true := by
    intro c hc
    rw [List.mem_append, List.mem_singleton] at hc
    rcases hc with hc | rfl
    · simp [isSpace_of_mem_token hc]
    · simp [hquote]
  have hassoc : token n ++ q :: t = token n ++ [q] ++ t := by simp
  have htrim : trimStart (w ++ q :: (token n ++ q :: t)) = q :: (token n ++ q :: t) :=
    dropWhile_append_cons hw hquote
  have htake : (token n ++ q :: t).takeWhile (fun c => !isSpace c) = token n ++ [q] := by
    rw [hassoc]
    cases t with
    | nil => rw [List.append_nil, List.takeWhile_eq_self_iff.2 hword]
    | cons c u => exact takeWhile_append_cons hword (by simp [ht c rfl])
  have hdrop : (token n ++ q :: t).dropWhile (fun c => !isSpace c) = t := by
    rw [hassoc]
    cases t with
    | nil => rw [List.append_nil, List.dropWhile_eq_nil_iff.2 hword]
    | cons c u => exact dropWhile_append_cons hword (by simp [ht c rfl])
  simp [readValue, htrim, hq, htake, hdrop, before?_append]

lemma hidden_nil_or_blank (n : Nat) (as : Attributes) :
    hidden n as = [] ∨ ∃ u, hidden n as = ' ' :: u := by
  cases as with
  | nil => exact .inl rfl
  | cons a as => exact .inr ⟨_, rfl⟩

lemma readPairs_cons {u v : Text} (h : trimStart t = c :: u) (hc : c ≠ '=')
    (hv : trimStart (afterName u) = '=' :: v) :
    readPairs t =
      (c :: u.takeWhile (fun c => !endsName c), (readValue v).1) :: readPairs (readValue v).2 := by
  rw [readPairs.eq_def]
  split
  · next h' =>
    rw [h] at h'
    cases h'
  · next c' u' h' =>
    rw [h, List.cons.injEq] at h'
    obtain ⟨rfl, rfl⟩ := h'
    rw [if_neg hc]
    split
    · next v' hv' =>
      rw [hv, List.cons.injEq] at hv'
      rw [hv'.2]
    · next hne => exact absurd hv (hne v)

/-- The names are read, each with its token. -/
lemma readPairs_hidden (h : ∀ a ∈ as, isName a.1 = true) (n : Nat) :
    readPairs (hidden n as) = tokenPairs n as := by
  induction as generalizing n with
  | nil =>
    rw [hidden, readPairs]
    rfl
  | cons a as ih =>
    obtain ⟨name, value⟩ := a
    obtain ⟨hname, hnames⟩ := List.forall_mem_cons.1 h
    obtain ⟨c, u, rfl, -, hall⟩ := isName_iff.1 hname
    obtain ⟨hc, hu⟩ := List.forall_mem_cons.1 hall
    set rest := token (n + 1) ++ quoteMark value :: hidden (n + 1) as with hrest
    have hfirst : trimStart (hidden n ((c :: u, value) :: as)) =
        c :: (u ++ '=' :: quoteMark value :: rest) := by
      have hblank : hidden n ((c :: u, value) :: as) =
          ' ' :: c :: (u ++ '=' :: quoteMark value :: rest) := by
        simp [hidden, front, hrest]
      rw [hblank]
      exact trimStart_cons (isSpace_of_isNameChar hc) _
    have hu' : ∀ d ∈ u, (!endsName d) = true := by
      intro d hd
      rw [endsName_of_isNameChar (hu d hd)]
      rfl
    have hafter : trimStart (afterName (u ++ '=' :: quoteMark value :: rest)) =
        '=' :: quoteMark value :: rest := by
      rw [afterName, dropWhile_append_cons hu' rfl]
      exact trimStart_cons rfl _
    have hne : c ≠ '=' := ne_of_isNameChar hc rfl
    have hblank : ∀ c ∈ (hidden (n + 1) as).head?, isSpace c = true := by
      rcases hidden_nil_or_blank (n + 1) as with he | ⟨v, he⟩
      · simp [he]
      · simp [he, isSpace]
    have hvalue := readValue_token (w := []) (by simp) (isQuote_quoteMark value) (n + 1) hblank
    rw [List.nil_append] at hvalue
    rw [readPairs_cons hfirst hne hafter, takeWhile_append_cons hu' rfl, hrest, hvalue, ih hnames]
    rfl

/-- The table has the values hidden in attributes. -/
def Held (p : Placeholders) (n : Nat) (as : Attributes) : Prop :=
  ∀ e ∈ stored n as, p.find? e.1 = some e.2

lemma held_cons_iff : Held p n (a :: as) ↔
    p.find? (n + 1) = some (quotedText a.2) ∧ Held p (n + 1) as :=
  List.forall_mem_cons

lemma held_append_iff : Held p n (as ++ bs) ↔ Held p n as ∧ Held p (n + as.length) bs := by
  rw [Held, stored_append, List.forall_mem_append]
  rfl

/-- Forgetting the values of earlier attributes keeps those of later ones. -/
lemma Held.without {m : Nat} (h : Held p m as) (hm : n + bs.length ≤ m) :
    Held (p.without (held n bs)) m as := by
  intro e he
  have hlate : e.1 ∈ held m as := List.mem_map_of_mem he
  have hout : e.1 ∉ held n bs := by
    rw [held_eq, List.mem_range'_1] at hlate ⊢
    omega
  rw [find?_without hout]
  exact h e he

/-- Hidden attributes as a nested text. -/
lemma exists_nested_hidden (h : as.Plain) (n : Nat) :
    ∃ r : Nested, r.shown = hidden n as ∧ r.source = text as ∧ r.entries = stored n as := by
  induction as generalizing n with
  | nil => exact ⟨.nil, rfl, rfl, rfl⟩
  | cons a as ih =>
    obtain ⟨hname, hvalue⟩ := h.head
    obtain ⟨r, hshown, hsource, hentries⟩ := ih h.tail (n + 1)
    have hmark : quoteMark a.2 ≠ tokenOpening := Ne.symm (ne_quoteMark (by decide) a.2)
    refine ⟨.ofText _ (not_mem_front hname (by decide)) ++ .token (n + 1)
      (.ofText _ (quiet_quotedText hvalue.toQuiet).token) (.char _ hmark r), ?_, ?_, ?_⟩
    · simp [Nested.shown, hidden, hshown]
    · simp [Nested.source, text_cons, hsource]
    · simp [Nested.entries, stored, hentries]

/-- What a pair of name and token sets. -/
def readPair (p : Placeholders) (as : Attributes) (pair : Text × Text) : Attributes :=
  if (p.get? pair.2).isSome then as.set (p.decode pair.1) (unquoteRefs (p.decode pair.2)) else as

lemma foldl_tokenPairs (h : Plain as) (hp : Held p n as) (acc : Attributes)
    (hacc : ∀ a ∈ as, a.1 ∉ acc.names) :
    (tokenPairs n as).foldl (readPair p) acc = acc ++ as := by
  induction as generalizing n acc with
  | nil => simp [tokenPairs]
  | cons a as ih =>
    obtain ⟨name, value⟩ := a
    obtain ⟨hfind, hrest⟩ := held_cons_iff.1 hp
    obtain ⟨hname, hvalue⟩ := h.head
    obtain ⟨hnew, hnews⟩ := List.forall_mem_cons.1 hacc
    have hset : readPair p acc (name, token (n + 1)) = acc ++ [(name, value)] := by
      rw [readPair, get?_token, hfind, decode_of_not_mem p (not_mem_of_isName hname rfl),
        decode_token hfind (quiet_quotedText hvalue.toQuiet).token,
        unquoteRefs_quotedText hvalue]
      exact Record.set_of_get?_eq_none (Record.get?_eq_none_iff.2 hnew)
    rw [tokenPairs, List.foldl_cons, hset, ih h.tail hrest]
    · simp
    · intro b hb
      have hne : b.1 ≠ name := fun he =>
        (List.nodup_cons.1 h.distinct).1 (List.mem_map.2 ⟨b, hb, he⟩)
      simpa [Record.names, hne] using hnews b hb

end Attributes

/-! ### Reading tags -/

namespace Segment

variable {n : Nat} {tag t : Text} {as : Attributes}

/-- A printed opening tag with its values hidden. -/
def hiddenOpening (n : Nat) (tag : Text) (as : Attributes) : Text :=
  '<' :: (tag ++ (hidden n as ++ ['>']))

lemma tagBody_hiddenOpening (n : Nat) (tag : Text) (as : Attributes) :
    tagBody (hiddenOpening n tag as) = tag ++ (hidden n as ++ ['>']) := by
  simp [tagBody, hiddenOpening, after?]

lemma exists_cons_hidden (n : Nat) (as : Attributes) :
    ∃ c u, hidden n as ++ ['>'] = c :: u ∧ endsTagName c = true := by
  rcases hidden_nil_or_blank n as with h | ⟨u, h⟩
  · exact ⟨'>', [], by rw [h, List.nil_append], rfl⟩
  · exact ⟨' ', u ++ ['>'], by rw [h, List.cons_append], rfl⟩

lemma endsTagName_of_isNameChar {c : Char} (h : isNameChar c = true) : endsTagName c = false := by
  have hslash : c ≠ '/' := ne_of_isNameChar h rfl
  have hend : c ≠ '>' := ne_of_isNameChar h rfl
  simp [endsTagName, isSpace_of_isNameChar h, hslash, hend]

lemma endsTagName_of_isName (h : isName tag = true) : ∀ c ∈ tag, (!endsTagName c) = true := by
  intro c hc
  rw [endsTagName_of_isNameChar (isNameChar_of_mem h hc)]
  rfl

lemma writtenName_hiddenOpening (h : isName tag = true) (n : Nat) (as : Attributes) :
    writtenName (hiddenOpening n tag as) = tag := by
  obtain ⟨c, u, hcu, hc⟩ := exists_cons_hidden n as
  rw [writtenName, tagBody_hiddenOpening, hcu]
  exact takeWhile_append_cons (endsTagName_of_isName h) (by simp [hc])

/-- What is before the end of a printed opening tag does not end with a slash. -/
lemma not_suffix_slash (h : isName tag = true) (n : Nat) (as : Attributes) :
    ¬ ['/', '>'] <:+ hiddenOpening n tag as := by
  intro hs
  have hslash : ['/'] <:+ '<' :: (tag ++ hidden n as) := by
    obtain ⟨a, ha⟩ := hs
    have hassoc : a ++ ['/'] ++ ['>'] = '<' :: (tag ++ hidden n as) ++ ['>'] := by
      simpa [hiddenOpening] using ha
    exact ⟨a, List.append_cancel_right hassoc⟩
  rcases hidden_eq_nil_or n as with he | ⟨u, q, hq, he⟩
  · rw [he, List.append_nil] at hslash
    rcases List.suffix_cons_iff.1 hslash with hall | htag
    · exact ne_nil_of_isName h (List.cons.inj hall).2.symm
    · exact not_mem_of_isName h rfl (htag.subset List.mem_cons_self)
  · refine not_suffix_singleton (t := '<' :: (tag ++ u)) (Span.ne_of_isQuote (c := '/') hq rfl) ?_
    simpa [he] using hslash

/-- The kind of what does not begin with one of two marks. -/
lemma kindOf_of_unmarked (t : Text) : ¬ ['<', '!'] <+: t → ¬ ['<', '?'] <+: t →
    kindOf t = match t with
      | '<' :: c :: _ => if startsTag c then .tag (tagRole t) else .leaf .text
      | _ => .leaf .text := by
  -- the conditions stand behind the colon, out of reach of the match
  intro hbang hmark
  have hstarts (w : Text) : startsWith t ('<' :: '!' :: w) = false := by
    rw [← Bool.not_eq_true, startsWith_iff]
    rintro ⟨u, rfl⟩
    exact hbang ⟨_, rfl⟩
  have hcomment : startsWith t "<!--" = false := hstarts "--"
  have hcdata : startsWith t "<!CDATA[[" = false := hstarts "CDATA[["
  have hcdata' : startsWith t "<![CDATA[" = false := hstarts "[CDATA["
  have hinstruction : startsWith t ['<', '?'] = false := by
    rw [← Bool.not_eq_true, startsWith_iff]
    exact hmark
  have hdoctype : Span.afterAnyCase? "<!doctype " t = none := by
    rw [Option.eq_none_iff_forall_ne_some]
    intro rest hr
    obtain ⟨w, rfl, hlower⟩ := Span.afterAnyCase?_eq_some_iff.1 hr
    have hliteral : ("<!doctype " : Text) = '<' :: '!' :: ("doctype " : Text) := rfl
    rw [hliteral] at hlower
    obtain ⟨d, w, rfl, hd, hlower⟩ := List.map_eq_cons_iff.1 hlower
    obtain ⟨e, w, rfl, he, -⟩ := List.map_eq_cons_iff.1 hlower
    rw [Span.eq_of_toLower hd rfl, Span.eq_of_toLower he rfl] at hbang
    exact hbang ⟨_, rfl⟩
  rw [kindOf.eq_def, hcomment, hcdata, hcdata', hinstruction, hdoctype]
  rfl

lemma kindOf_of_startsTag {c : Char} (hs : startsTag c = true) (t : Text) :
    kindOf ('<' :: c :: t) = .tag (tagRole ('<' :: c :: t)) := by
  have hne (d : Char) (hd : startsTag d = false) : ¬ ['<', d] <+: '<' :: c :: t := by
    rintro ⟨u, hu⟩
    obtain rfl : d = c := (List.cons.inj (List.cons.inj hu).2).1
    rw [hs] at hd
    cases hd
  rw [kindOf_of_unmarked _ (hne '!' rfl) (hne '?' rfl)]
  exact if_pos hs

lemma kindOf_hiddenOpening (h : isName tag = true) (n : Nat) (as : Attributes) :
    kindOf (hiddenOpening n tag as) = .tag (if isVoid tag then .selfCloses else .opens) := by
  have hslash : endsWith (hiddenOpening n tag as) ['/', '>'] = false := by
    rw [← Bool.not_eq_true, endsWith_iff]
    exact not_suffix_slash h n as
  have hlower : tag.lowerAscii = tag := map_toLower_of_isName h
  have hname := writtenName_hiddenOpening h n as
  obtain ⟨c, u, rfl, hc, -⟩ := isName_iff.1 h
  have hne : '/' ≠ c := by
    rintro rfl
    cases hc
  have hcloses : startsWith (hiddenOpening n (c :: u) as) ['<', '/'] = false := by
    simp [hiddenOpening, startsWith, after?, hne]
  have halpha : c.isAlpha = (c.isUpper || c.isLower) := rfl
  have hstarts : startsTag c = true := by
    simp [startsTag, halpha, hc]
  rw [hiddenOpening, List.cons_append, kindOf_of_startsTag hstarts, ← List.cons_append,
    ← hiddenOpening, tagRole, hcloses, hslash, hname, hlower]
  rfl

lemma kindOf_printClosing (tag : Text) : kindOf (Node.printClosing tag) = .tag .closes := by
  have hkind : kindOf (Node.printClosing tag) = .tag (tagRole (Node.printClosing tag)) :=
    kindOf_of_startsTag rfl _
  rw [hkind]
  rfl

/-- What has no opening bracket is text. -/
lemma kindOf_text (h : '<' ∉ t) : kindOf t = .leaf .text := by
  have hne (w : Text) : ¬ '<' :: w <+: t := fun hp => h (hp.subset List.mem_cons_self)
  rw [kindOf_of_unmarked _ (hne _) (hne _)]
  split
  · exact absurd List.mem_cons_self h
  · rfl

end Segment

namespace Builder

variable {n : Nat} {tag : Text} {as : Attributes} {p : Placeholders}

lemma closingName_printClosing (h : isName tag = true) :
    closingName (Node.printClosing tag) = tag := by
  have hend : ∀ c ∈ tag, (c != '>') = true := by
    intro c hc
    rw [bne_iff_ne]
    exact ne_of_isNameChar (isNameChar_of_mem h hc) rfl
  have hname : closingName (Node.printClosing tag) = trim tag := by
    have hwhile : (tag ++ ['>']).takeWhile (· != '>') = tag := takeWhile_append_cons hend rfl
    simp [closingName, Node.printClosing, after?, hwhile]
  have hstart : trimStart tag = tag := by
    obtain ⟨c, u, rfl, -, hall⟩ := isName_iff.1 h
    exact trimStart_cons (isSpace_of_isNameChar (hall c List.mem_cons_self)) u
  have hlast := isNameChar_of_mem h (List.getLast_mem (ne_nil_of_isName h))
  rw [hname, trim, hstart]
  conv_lhs => rw [← List.dropLast_append_getLast (ne_nil_of_isName h)]
  rw [dropEndWhile_append_neg _ (isSpace_of_isNameChar hlast), List.dropLast_append_getLast]

lemma resolveTag_of_isName (h : isName tag = true) (p : Placeholders) : resolveTag p tag = tag := by
  rw [resolveTag, lower_of_isName h, decode_of_not_mem p (not_mem_of_isName h rfl)]

end Builder

lemma printOpening_eq (tag : Text) (as : Attributes) :
    Node.printOpening tag as = '<' :: (tag ++ (as.text ++ ['>'])) := by
  simp [Node.printOpening, Attributes.text]

namespace Placeholders

variable {n : Nat} {tag : Text} {as : Attributes} {p : Placeholders}

/-- A hidden opening tag is resolved to the printed one, which uses up its own values. -/
lemma take_hiddenOpening (htag : isName tag = true) (h : as.Plain) (hp : Held p n as) :
    p.take (Segment.hiddenOpening n tag as) =
      (Node.printOpening tag as, p.without (held n as)) := by
  obtain ⟨r, hshown, hsource, hentries⟩ := exists_nested_hidden h n
  have hname : tokenOpening ∉ '<' :: tag := by
    rw [List.mem_cons, not_or]
    exact ⟨by decide, not_mem_of_isName htag rfl⟩
  set whole := Nested.ofText _ hname ++ r ++ Nested.ofText ['>'] (by decide) with hwhole
  have hwentries : whole.entries = stored n as := by
    simp [hwhole, hentries]
  have hholds : p.Holds whole := by
    intro e he
    exact hp e (hwentries ▸ he)
  have hnumbers : whole.numbers = held n as := by
    rw [Nested.numbers, hwentries]
    rfl
  have honce : whole.numbers.Nodup := by
    rw [hnumbers, held_eq]
    exact List.nodup_range'
  have htake := hholds.take honce
  rw [hnumbers] at htake
  simpa [hwhole, hshown, hsource, Segment.hiddenOpening, printOpening_eq] using htake

end Placeholders

namespace Attributes

variable {n : Nat} {tag : Text} {as : Attributes} {p : Placeholders}

lemma attributePart_hiddenOpening (h : isName tag = true) (n : Nat) (as : Attributes) :
    attributePart (Segment.hiddenOpening n tag as) = hidden n as := by
  have hbody : (Segment.tagBody (Segment.hiddenOpening n tag as)).dropWhile
      (fun c => !Segment.endsTagName c) = hidden n as ++ ['>'] := by
    obtain ⟨c, u, hcu, hc⟩ := Segment.exists_cons_hidden n as
    rw [Segment.tagBody_hiddenOpening, hcu]
    exact dropWhile_append_cons (Segment.endsTagName_of_isName h) (by simp [hc])
  rw [attributePart, hbody, dropEndWhile_append_pos _ rfl]
  rcases hidden_eq_nil_or n as with he | ⟨u, q, hq, he⟩
  · rw [he]
    rfl
  · have hend : (q == '>' || q == '\r' || q == '\n') = false := by
      rcases Span.isQuote_iff.1 hq with rfl | rfl <;> rfl
    have hslash : '/' ≠ q := Span.ne_of_isQuote hq rfl
    rw [he, dropEndWhile_append_neg _ hend]
    simp [before?_eq_none_iff.2 (not_suffix_singleton hslash)]

/-- **Attributes are read back.** -/
theorem ofTag_hiddenOpening (htag : isName tag = true) (h : Plain as) (hp : Held p n as) :
    ofTag p (Segment.hiddenOpening n tag as) = as := by
  rw [ofTag, attributePart_hiddenOpening htag, readPairs_hidden h.names]
  exact foldl_tokenPairs h hp [] (by simp [Record.names])

end Attributes

end HtmlTemplate
