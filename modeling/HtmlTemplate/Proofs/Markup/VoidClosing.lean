import HtmlTemplate.Proofs.Markup.Arena
import HtmlTemplate.Proofs.Markup.Whole
import HtmlTemplate.Proofs.Text.Space
import HtmlTemplate.Proofs.Text.Trim

/-!
Closing tags of elements without content.

The name of an opening tag ends at the first blank, slash or bracket, and the builder reads the name
of a closing tag up to the bracket and takes the white space off. So a closing tag that names an
element without content has the name that an opening one would have, and is passed over, exactly if
nothing but white space stands between that name and the bracket. With anything else there, a slash
for one, its name is no name of an element, and it closes what is open.
-/

namespace HtmlTemplate

open Text

/-! ### Lower case -/

namespace Text

variable {c : Char} {t w : Text}

/-- A character that is its own lower case stays. -/
lemma mem_lowerFrom (hc : c.toNat ≠ 0x3A3 ∧ lowerChar c = [c]) (passed : Text) (ht : c ∈ t) :
    c ∈ lowerFrom passed t := by
  induction t generalizing passed with
  | nil => cases ht
  | cons d t ih =>
    rw [lowerFrom, List.mem_append]
    rcases List.mem_cons.1 ht with rfl | ht
    · rw [if_neg hc.1, hc.2]
      exact .inl List.mem_cons_self
    · exact .inr (ih _ ht)

/-- What stands before it has no tokens in lower case if it has none. -/
lemma exists_lowerFrom_append (hc : c.toNat ≠ 0x3A3 ∧ lowerChar c = [c]) (hw : tokenOpening ∉ w)
    (passed t : Text) : ∃ low rest, lowerFrom passed (w ++ c :: t) = low ++ c :: rest ∧
      tokenOpening ∉ low := by
  induction w generalizing passed with
  | nil =>
    refine ⟨[], lowerFrom (c :: passed) t, ?_, List.not_mem_nil⟩
    rw [List.nil_append, lowerFrom, if_neg hc.1, hc.2]
    rfl
  | cons d w ih =>
    rw [List.mem_cons, not_or] at hw
    obtain ⟨first, hfirst, hplain⟩ :=
      exists_lowerFrom_plain passed (Ne.symm hw.1) (w ++ c :: t)
    obtain ⟨low, rest, hlow, hlowplain⟩ := ih hw.2 (d :: passed)
    refine ⟨first ++ low, rest, ?_, by simp [hplain, hlowplain]⟩
    rw [List.cons_append, hfirst, hlow, List.append_assoc]

end Text

namespace Segment

variable {c : Char} {raw t w : Text}

lemma lowerChar_of_endsTagName (h : endsTagName c = true) :
    c.toNat ≠ 0x3A3 ∧ lowerChar c = [c] := by
  simp only [endsTagName, Bool.or_eq_true, beq_iff_eq] at h
  rcases h with (hspace | rfl) | rfl
  · exact lowerChar_of_isSpace hspace
  · decide
  · decide

/-! ### The name of a closing tag -/

/-- What stands after the angle bracket and the slash. -/
def closingBody (raw : Text) : Text := (Text.after? ['<', '/'] raw).getD raw

/-- The name in a closing tag, read like that of an opening one. -/
def closingWritten (raw : Text) : Text := (closingBody raw).takeWhile fun c => !endsTagName c

/-- What stands between that name and the bracket that ends the tag. -/
def closingTail (raw : Text) : Text :=
  ((closingBody raw).dropWhile fun c => !endsTagName c).takeWhile (· != '>')

lemma endsTagName_of_mem_closingWritten (h : c ∈ closingWritten raw) : endsTagName c = false := by
  simpa using List.mem_takeWhile_imp h

lemma isSpace_of_mem_closingWritten (h : c ∈ closingWritten raw) : isSpace c = false := by
  have hends := endsTagName_of_mem_closingWritten h
  simp only [endsTagName, Bool.or_eq_false_iff] at hends
  exact hends.1.1

lemma closingName_eq (raw : Text) :
    Builder.closingName raw = trim (closingWritten raw ++ closingTail raw) := by
  have hbody : (closingBody raw).takeWhile (· != '>') = closingWritten raw ++ closingTail raw := by
    conv_lhs =>
      rw [← List.takeWhile_append_dropWhile (p := fun c => !endsTagName c) (l := closingBody raw)]
    refine List.takeWhile_append_of_pos fun c hc => ?_
    have hends := endsTagName_of_mem_closingWritten hc
    simp only [endsTagName, Bool.or_eq_false_iff] at hends
    simpa using hends.2
  rw [Builder.closingName, ← closingBody, hbody]

/-- A name without content in lower case has no token. -/
lemma not_mem_of_isVoid_lower (h : isVoid t.lower = true) : tokenOpening ∉ t := by
  intro ht
  exact absurd (isLower_of_isVoid h _ (mem_lowerFrom (by decide) [] ht)) (by decide)

/-- So there is nothing in it to decode. -/
lemma isVoid_resolveTag (p : Placeholders) (h : isVoid t.lower = true) :
    isVoid (Builder.resolveTag p t) = true := by
  rwa [Builder.resolveTag, Placeholders.decode_of_not_mem]
  exact fun ht => absurd (isLower_of_isVoid h _ ht) (by decide)

/-- Neither has any text in which a character other than a letter stands before the first token. -/
lemma isVoid_resolveTag_append {p : Placeholders} (hw : tokenOpening ∉ w)
    (hc : endsTagName c = true) : isVoid (Builder.resolveTag p (w ++ c :: t)) = false := by
  have hplain : c ≠ tokenOpening := by
    rintro rfl
    exact absurd hc (by decide)
  obtain ⟨low, rest, hlow, hlowplain⟩ :=
    exists_lowerFrom_append (lowerChar_of_endsTagName hc) hw [] t
  by_contra h
  rw [Bool.not_eq_false, Builder.resolveTag, lower, hlow, Placeholders.decode,
    Placeholders.decodeWithin_append _ _ hlowplain, Placeholders.decodeWithin_char _ _ hplain] at h
  have hletter := isLower_of_isVoid h c (by simp)
  simp only [endsTagName, Bool.or_eq_true, beq_iff_eq] at hc
  rcases hc with (hspace | rfl) | rfl
  · rw [of_isSpace (P := fun c => c.isLower = false) (by decide) hspace] at hletter
    cases hletter
  · cases hletter
  · cases hletter

/-- The name that is compared is this name with what stands behind it, less white space. -/
lemma closingName_eq_append (hne : closingWritten raw ≠ []) : Builder.closingName raw =
    closingWritten raw ++ dropEndWhile isSpace (closingTail raw) := by
  rw [closingName_eq, trim_append hne fun c hc => isSpace_of_mem_closingWritten hc]

/-- What stands behind a name begins with the character that ends it. -/
lemma endsTagName_of_closingTail (h : closingTail raw = c :: t) : endsTagName c = true := by
  cases hrest : (closingBody raw).dropWhile fun c => !endsTagName c with
  | nil =>
    rw [closingTail, hrest] at h
    cases h
  | cons d rest =>
    have hends := List.head?_dropWhile_not (fun c => !endsTagName c) (closingBody raw)
    rw [hrest] at hends
    rw [closingTail, hrest, List.takeWhile_cons] at h
    split at h
    · obtain rfl := (List.cons.inj h).1
      simpa using hends
    · cases h

/-- A closing tag is made of its brackets, this name and what stands behind it. -/
lemma exists_closing {e : Segment} (hk : e.kind = .tag .closes) :
    ∃ rest, e.raw = '<' :: '/' :: (closingWritten e.raw ++ closingTail e.raw ++ rest) ∧
      (rest = [] ∨ ∃ u, rest = '>' :: u) := by
  have hrole := (eq_of_kindOf_tag hk).choose_spec.2
  unfold tagRole at hrole
  have hstart : e.raw.startsWith ['<', '/'] = true := by
    split_ifs at hrole
    assumption
  obtain ⟨body, hbody⟩ := startsWith_iff.1 hstart
  have hclosing : closingBody e.raw = body := by
    rw [closingBody, ← hbody, after?_append, Option.getD_some]
  refine ⟨((closingBody e.raw).dropWhile fun c => !endsTagName c).dropWhile (· != '>'), ?_, ?_⟩
  · rw [closingTail, List.append_assoc, List.takeWhile_append_dropWhile, closingWritten,
      List.takeWhile_append_dropWhile, hclosing, ← hbody]
    rfl
  · cases hrest : ((closingBody e.raw).dropWhile fun c => !endsTagName c).dropWhile (· != '>') with
    | nil => exact .inl rfl
    | cons d u =>
      have hfirst := List.head?_dropWhile_not (· != '>')
        ((closingBody e.raw).dropWhile fun c => !endsTagName c)
      rw [hrest] at hfirst
      exact .inr ⟨u, by simpa using hfirst⟩

/-- Nothing follows the bracket that ends a scanned tag, so with nothing but white space in front of
it such a closing tag has no token. -/
lemma not_mem_of_mem_scan {e : Segment} {p : Placeholders} (hk : e.kind = .tag .closes)
    (he : e ∈ scan p t) (hname : tokenOpening ∉ closingWritten e.raw)
    (hblank : isBlank (closingTail e.raw) = true) : tokenOpening ∉ e.raw := by
  have hraw : e.raw ∈ segmentTexts t := by
    rw [← map_raw_numberLines p 1 (segmentTexts t)]
    exact List.mem_map_of_mem he
  obtain ⟨d, u, hu, -, hlast⟩ := isSegment_of_mem hraw
  obtain ⟨rest, hclosing, hrest⟩ := exists_closing hk
  have htail : tokenOpening ∉ closingTail e.raw := fun hm =>
    absurd (isBlank_iff.1 hblank _ hm) (by decide)
  have hend : tokenOpening ∉ rest := by
    obtain ⟨rfl, hu'⟩ := List.cons.inj (hu.symm.trans hclosing)
    rcases hrest with rfl | ⟨v, rfl⟩
    · exact List.not_mem_nil
    · cases v with
      | nil => decide
      | cons x v =>
        refine absurd ?_ (hlast rfl)
        rw [hu', ← List.cons_append, List.dropLast_append_of_ne_nil (by simp)]
        simp
  rw [hclosing]
  simp only [List.mem_cons, List.mem_append, not_or]
  exact ⟨by decide, by decide, ⟨hname, htail⟩, hend⟩

end Segment

namespace Arena

variable {a : Arena} {e : Segment}

/-- A closing tag with a name resolves what is hidden in it, and closes an element or does not. -/
lemma push_closes (hk : e.kind = .tag .closes) (hname : Builder.closingName e.raw ≠ []) :
    a.push e = (.ok (), if isVoid (Builder.resolveTag a.placeholders (Builder.closingName e.raw))
      then (a.take e.raw).2 else (a.take e.raw).2.closeElement) := by
  rw [push, hk]
  exact if_neg hname

/-- **A closing tag that names an element without content is passed over** if nothing but white
space stands between the name and the bracket: no node and no open element changes, and the segments
that follow come to the same as without it. With anything else there it closes the innermost open
element. -/
theorem push_closes_void (a : Arena) (e : Segment) (hk : e.kind = .tag .closes)
    (hvoid : isVoid (Segment.closingWritten e.raw).lower = true) :
    (a.push e).1 = .ok () ∧
      (isBlank (Segment.closingTail e.raw) = true →
        (a.push e).2.table = a.table ∧ (a.push e).2.openIds = a.openIds ∧
          ((∃ p t, e ∈ scan p t) ∨ tokenOpening ∉ e.raw →
            ∀ es, a.pushEach (e :: es) = a.pushEach es)) ∧
      (isBlank (Segment.closingTail e.raw) = false →
        (a.push e).2 = (a.take e.raw).2.closeElement) := by
  have hwritten : Segment.closingWritten e.raw ≠ [] := by
    intro hnil
    rw [hnil] at hvoid
    cases hvoid
  have hplain := Segment.not_mem_of_isVoid_lower hvoid
  have happend := Segment.closingName_eq_append hwritten
  have hname : Builder.closingName e.raw ≠ [] := by
    rw [happend]
    exact List.append_ne_nil_of_left_ne_nil hwritten _
  rw [push_closes hk hname]
  refine ⟨rfl, fun hblank => ?_, fun hblank => ?_⟩
  · rw [dropEndWhile_eq_nil_iff.2 (isBlank_iff.1 hblank), List.append_nil] at happend
    rw [happend, if_pos (Segment.isVoid_resolveTag _ hvoid)]
    refine ⟨rfl, rfl, fun hsource es => ?_⟩
    have htoken : tokenOpening ∉ e.raw := hsource.elim
      (fun ⟨_, _, he⟩ => Segment.not_mem_of_mem_scan hk he hplain hblank) id
    -- the table of placeholders stays too, since the tag has none of its tokens
    have hpush : (a.push e).2 = a := by
      rw [push_closes hk hname, happend, if_pos (Segment.isVoid_resolveTag _ hvoid), take,
        Placeholders.take_of_not_mem _ htoken]
    rw [pushEach, List.foldl_cons, hpush, pushEach]
  · cases hend : dropEndWhile isSpace (Segment.closingTail e.raw) with
    | nil =>
      rw [isBlank_iff.2 (dropEndWhile_eq_nil_iff.1 hend)] at hblank
      cases hblank
    | cons c t =>
      -- the name goes on with the character that ended the written one
      obtain ⟨rest, hrest⟩ := dropEndWhile_prefix isSpace (Segment.closingTail e.raw)
      rw [hend, List.cons_append] at hrest
      have hends := Segment.endsTagName_of_closingTail hrest.symm
      rw [happend, hend, Segment.isVoid_resolveTag_append hplain hends]
      rfl

/-- In upper case and with a line feed before the bracket, inside an element that is open. -/
theorem push_closes_void_upper :
    let a := ((ofPlaceholders .empty).push ⟨"<p>", 1⟩).2
    let e : Segment := ⟨"</BR\n>", 2⟩
    a.openIds = [0] ∧ (a.push e).2.openIds = [0] ∧
      ∀ es, a.pushEach (e :: es) = a.pushEach es := by
  intro a e
  obtain ⟨-, hblank, -⟩ := push_closes_void a e (by decide +kernel) (by decide +kernel)
  obtain ⟨-, hopen, hrest⟩ := hblank (by decide +kernel)
  exact ⟨by decide +kernel, hopen, hrest (.inr (by decide +kernel))⟩

/-- With a slash behind the name it closes the element, and the text after it stands outside. -/
theorem push_closes_void_slash :
    let a := ((ofPlaceholders .empty).push ⟨"<p>", 1⟩).2
    let e : Segment := ⟨"</br/>", 1⟩
    e.kind = .tag .closes ∧ isVoid (Segment.closingWritten e.raw).lower = true ∧
      a.openIds = [0] ∧ (a.push e).2.openIds = [] ∧
      (a.pushEach [⟨"x", 1⟩]).table.roots = [0] ∧
      (a.pushEach [e, ⟨"x", 1⟩]).table.roots = [0, 1] := by
  decide +kernel

end Arena

end HtmlTemplate
