import HtmlTemplate.Proofs.Markup.HiddenTag
import HtmlTemplate.Proofs.Markup.Origin
import HtmlTemplate.Proofs.Text.Lower

/-!
Elements without content.

Whether a tag names such an element is decided twice: the scanner puts the ASCII letters of the
written name in lower case, and the builder puts all letters in lower case and fills in what was
hidden. A name that is one of those in the end has no token in it, since what could be hidden in a
name shows by a character that no name has; so the two differ only for the Kelvin sign, whose lower
case is a letter.
-/

namespace HtmlTemplate

open Node Text

/-! ### Names with hidden parts -/

namespace Placeholders

lemma lowerFrom_token (n : Nat) (passed t : Text) :
    lowerFrom passed (token n ++ t) = token n ++ lowerFrom ((token n).reverse ++ passed) t := by
  refine lowerFrom_append (fun c hc => ?_) passed t
  have hin := inToken_of_mem hc
  simp only [inToken, Bool.or_eq_true, beq_iff_eq] at hin
  rcases hin with (rfl | rfl) | hdigit
  · decide
  · decide
  · exact lowerChar_of_isNameChar (by simp [isNameChar, hdigit])

lemma tokenOpening_not_mem_lowerChar {c : Char} (hc : c ≠ tokenOpening) :
    tokenOpening ∉ lowerChar c := by
  have hopening : tokenOpening.toNat = 0xE000 := rfl
  by_cases hascii : c.toNat < 128
  · have hlower : lowerChar c = [c.toLower] := by
      unfold lowerChar
      exact if_pos hascii
    rw [hlower, List.mem_singleton]
    exact fun h => hc (Span.eq_of_toLower h.symm rfl)
  · rcases lowerChar_cases (c := c) (by omega) with he | he | ⟨r, hr, hfirst, hlast, he⟩
    · rw [he]
      decide
    · rw [he, List.mem_singleton]
      exact Ne.symm hc
    · rw [he, List.mem_singleton]
      intro h
      have hn := congrArg Char.toNat h
      have hbounds := (caseRuns_bounds r hr).2
      rcases toNat_ofNat (c.toNat + r.shift).toNat with hn' | hn' <;> omega

lemma decodeWithin_append (p : Placeholders) (d : Nat) {w : Text} (hw : tokenOpening ∉ w)
    (t : Text) : p.decodeWithin d (w ++ t) = w ++ p.decodeWithin d t := by
  induction w with
  | nil => rfl
  | cons c w ih =>
    rw [List.mem_cons, not_or] at hw
    rw [List.cons_append, decodeWithin_char p d (Ne.symm hw.1), ih hw.2, List.cons_append]

/-- **A text that comes to lower case letters has nothing hidden in it**, and is lowered letter by
letter, if it is without the Kelvin sign. -/
lemma decodeWithin_lowerFrom {p : Placeholders} {r : Nested} {d : Nat} (passed : Text)
    (hd : r.depth ≤ d) (h : p.Holds r) (hr : r.Guarded false) (hkelvin : kelvinSign ∉ r.source)
    (hletters : ∀ c ∈ p.decodeWithin d (lowerFrom passed r.shown), c.isLower = true) :
    p.decodeWithin d (lowerFrom passed r.shown) = r.shown.map Char.toLower := by
  induction r generalizing d passed with
  | nil => cases d <;> simp [decodeWithin, Nested.shown, lowerFrom, pieces]
  | char c plain r ih =>
    rw [Nested.source, List.mem_cons, not_or] at hkelvin
    rw [Nested.shown] at hletters ⊢
    obtain ⟨low, hlow, hforms⟩ := exists_lowerFrom_cons passed c r.shown
    have htoken : tokenOpening ∉ low := by
      rcases hforms with rfl | rfl | rfl
      · exact tokenOpening_not_mem_lowerChar plain
      · decide
      · decide
    rw [hlow, decodeWithin_append p d htoken] at hletters ⊢
    obtain ⟨hlowletters, hletters⟩ := List.forall_mem_append.1 hletters
    have hlowered : low = [c.toLower] := by
      rcases hforms with rfl | rfl | rfl
      · have hascii := toNat_lt_of_lowerChar (Ne.symm hkelvin.1) hlowletters
        unfold lowerChar
        exact if_pos hascii
      · exact absurd (hlowletters _ (List.mem_singleton_self _)) (by decide)
      · exact absurd (hlowletters _ (List.mem_singleton_self _)) (by decide)
    have hlower : c.toLower.isLower = true := hlowletters _ (by simp [hlowered])
    have hfree : Span.freeAfter c = false := by
      by_contra hfree
      simp only [Span.freeAfter, Span.isQuote, Bool.not_eq_false, Bool.or_eq_true,
        beq_iff_eq] at hfree
      rcases hfree with rfl | rfl | rfl <;> cases hlower
    rw [Nested.Guarded, hfree] at hr
    rw [ih _ hd h hr hkelvin.2 hletters, hlowered, List.map_cons, List.singleton_append]
  | token n i r _ _ =>
    simp only [Nested.depth] at hd
    obtain ⟨d, rfl⟩ := Nat.exists_eq_add_one.2 (show 0 < d by omega)
    obtain ⟨c, t, hsource, hc⟩ := hr.1.resolve_left (by simp)
    rw [Nested.shown, lowerFrom_token, decodeWithin_token h.find?,
      decodeWithin_shown (by omega) h.inside, hsource] at hletters
    have hlower := hletters c (by simp)
    simp only [Span.startsSpan, Bool.or_eq_true, beq_iff_eq] at hc
    rcases hc with (rfl | rfl) | rfl <;> cases hlower

end Placeholders

namespace Nested

/-- A cut at the first character of a kind that no token holds. -/
lemma exists_takeWhile {q : Char → Bool} (hq : ∀ c, inToken c = true → q c = true) (r : Nested) :
    ∃ r₁ r₂, r = r₁ ++ r₂ ∧ r₁.shown = r.shown.takeWhile q := by
  induction r with
  | nil => exact ⟨nil, nil, rfl, rfl⟩
  | char c plain r ih =>
    obtain ⟨r₁, r₂, rfl, h⟩ := ih
    cases hc : q c with
    | true =>
      refine ⟨char c plain r₁, r₂, rfl, ?_⟩
      rw [shown, shown, h, List.takeWhile_cons_of_pos hc]
    | false =>
      refine ⟨nil, char c plain (r₁ ++ r₂), rfl, ?_⟩
      rw [shown, shown, List.takeWhile_cons_of_neg (by simp [hc])]
  | token n i r _ ih =>
    obtain ⟨r₁, r₂, rfl, h⟩ := ih
    refine ⟨token n i r₁, r₂, rfl, ?_⟩
    have htoken : ∀ c ∈ Placeholders.token n, q c = true :=
      fun c hc => hq c (Placeholders.inToken_of_mem hc)
    rw [shown, shown, h, List.takeWhile_append_of_pos htoken]

lemma guarded_of_join {r : Nested} {rs : List Nested} {free : Bool}
    (h : Guarded free (join rs)) (hr : r ∈ rs) : ∃ free, Guarded free r := by
  induction rs generalizing free with
  | nil => cases hr
  | cons s rs ih =>
    rw [join_cons, guarded_append] at h
    rcases List.mem_cons.1 hr with rfl | hr
    · exact ⟨free, h.1⟩
    · exact ih h.2 hr

end Nested

namespace Segment

lemma endsTagName_of_inToken {c : Char} (h : inToken c = true) : endsTagName c = false := by
  simp only [inToken, Bool.or_eq_true, beq_iff_eq] at h
  rcases h with (rfl | rfl) | hdigit
  · decide
  · decide
  · exact endsTagName_of_isNameChar (by simp [isNameChar, hdigit])

/-- Only what begins with an angle bracket is a tag, and its role is read off all of it. -/
lemma eq_of_kindOf_tag {raw : Text} {role : TagRole} (h : kindOf raw = .tag role) :
    ∃ t, raw = '<' :: t ∧ tagRole raw = role := by
  unfold kindOf at h
  split_ifs at h
  split at h
  · split_ifs at h
    cases h
    exact ⟨_, rfl, rfl⟩
  · cases h

end Segment

lemma isLower_of_isVoid {tag : Text} (h : isVoid tag = true) : ∀ c ∈ tag, c.isLower = true := by
  have hall : voidElements.all (fun tag => tag.all Char.isLower) = true := by decide
  exact List.all_eq_true.1 (List.all_eq_true.1 hall tag (List.contains_iff_mem.1 h))

/-- A written name that names an element without content in the end does so from the start. -/
lemma isVoid_writtenName {p : Placeholders} {r : Nested} {free : Bool} {t : Text}
    (hp : p.Holds r) (once : r.numbers.Nodup) (hr : r.Guarded free) (hopen : r.shown = '<' :: t)
    (hkelvin : kelvinSign ∉ r.source)
    (hvoid : isVoid (Builder.resolveTag p (Segment.writtenName r.shown)) = true) :
    isVoid (Segment.writtenName r.shown).lowerAscii = true := by
  cases r with
  | nil => cases hopen
  | token n i r => exact absurd (List.cons.inj hopen).1 (by decide)
  | char c plain r =>
    obtain ⟨rfl, rfl⟩ := List.cons.inj hopen
    have hq : ∀ c, inToken c = true → (!Segment.endsTagName c) = true := by
      intro c hc
      rw [Segment.endsTagName_of_inToken hc]
      rfl
    obtain ⟨r₁, r₂, rfl, hname⟩ := Nested.exists_takeWhile hq r
    have hwritten : Segment.writtenName (Nested.char '<' plain (r₁ ++ r₂)).shown = r₁.shown :=
      hname.symm
    have hp₁ : p.Holds r₁ := (Placeholders.holds_append.1 hp).1
    have honce : r₁.numbers.Nodup := by
      rw [Nested.numbers_char, Nested.numbers_append] at once
      exact (List.nodup_append.1 once).1
    have hguarded : r₁.Guarded false := (Nested.guarded_append.1 hr).1
    have hkelvin₁ : kelvinSign ∉ r₁.source := fun hm => hkelvin (by simp [Nested.source, hm])
    rw [hwritten] at hvoid ⊢
    have hlowered := Placeholders.decodeWithin_lowerFrom [] (hp₁.depth_le honce) hp₁
      hguarded hkelvin₁ (isLower_of_isVoid hvoid)
    rwa [Builder.resolveTag, Placeholders.decode, lower, hlowered] at hvoid

/-! ### Elements -/

/-- What an element without content comes of is a tag that closes itself. -/
lemma Bracket.Yields.selfClosing {p : Placeholders} {r : Nested} {e : Segment} {b : Bracket}
    {n : Node} {free : Bool} (h : b.Yields n) (hb : ofSegment? p e = some b) (he : e.raw = r.shown)
    (hp : p.Holds r) (once : r.numbers.Nodup) (hr : r.Guarded free)
    (hvoid : isVoid n.tag = true) (hkelvin : kelvinSign ∉ n.raw) :
    n.selfClosing = true ∧ n.children = [] := by
  have htake := hp.take once
  rw [← he] at htake
  rw [ofSegment?, htake] at hb
  rcases hk : e.kind with role | k
  · rw [hk] at hb
    obtain ⟨t, ht, hrole⟩ := Segment.eq_of_kindOf_tag hk
    cases role with
    | opens =>
      obtain rfl := Option.some.inj hb
      cases h with
      | opens head closed children =>
        rw [he] at ht hrole
        change isVoid (Builder.resolveTag p (Segment.writtenName e.raw)) = true at hvoid
        rw [he] at hvoid
        have hname := isVoid_writtenName hp once hr ht hkelvin hvoid
        unfold Segment.tagRole at hrole
        rw [hname, Bool.or_true, if_pos rfl] at hrole
        split_ifs at hrole
    | selfCloses =>
      obtain rfl := Option.some.inj hb
      cases h with
      | leaf hm =>
        rw [nodes, nodesAll, List.mem_singleton] at hm
        subst hm
        exact ⟨rfl, rfl⟩
    | closes =>
      dsimp only at hb
      split_ifs at hb
      obtain rfl := Option.some.inj hb
      cases h
  · rw [hk] at hb
    obtain rfl := Option.some.inj hb
    cases h with
    | leaf hm =>
      rw [nodes, List.mem_singleton] at hm
      subst hm
      cases hvoid

/-- **Elements without content have none**, unless there is a Kelvin sign in their tags: they close
themselves, and nothing stands below them for rendering to leave out. -/
theorem selfClosing_of_isVoid (source : Text) (ns : List Node) (plain : tokenOpening ∉ source)
    (h : parseTemplate source = .ok ns) :
    ∀ n ∈ nodesAll ns, isVoid n.tag = true → kelvinSign ∉ n.raw →
      n.selfClosing = true ∧ n.children = [] := by
  intro n hn hvoid hkelvin
  obtain ⟨r, hshown, -, hentries, hguarded⟩ := Placeholders.exists_hideAll plain
  have hbacks := (Placeholders.numbered_empty.hideAll source).backs hentries
  obtain ⟨rs, hrs, rfl⟩ := Nested.exists_segments hshown
  have hraws : (Scanned.ofSource source).segments.map Segment.raw = rs.map Nested.shown := by
    rw [hrs]
    exact map_raw_numberLines _ 1 _
  obtain ⟨b, hb, hyields⟩ := (document_of_parseTemplate h).exists_yields hn
  obtain ⟨r, hr, e, he, p, hp, honce, hbracket⟩ :=
    Bracket.exists_ofSegment? hraws ⟨hbacks.holds, hbacks.once⟩ hb
  obtain ⟨free, hfree⟩ := Nested.guarded_of_join hguarded hr
  exact hyields.selfClosing hbracket he hp honce hfree hvoid hkelvin

/-- An element without content in upper case, one with a hidden value, and one that closes itself,
inside an element that is left open. -/
theorem selfClosing_of_isVoid_upper :
    let source : Text := "<p><BR><img alt=\"\x7b\x7b br \x7d\x7d\"><hr/></br>\\<i>"
    ∃ ns, parseTemplate source = .ok ns ∧
      (∀ n ∈ nodesAll ns, isVoid n.tag = true → n.selfClosing = true ∧ n.children = []) ∧
      ((nodesAll ns).filter fun n => isVoid n.tag).map tag = ["br", "img", "hr"] := by
  intro source
  obtain ⟨ns, hns, hcomputed⟩ := exists_of_parseTemplate source
    (f := fun ns => ((nodesAll ns).all fun n => !n.raw.contains kelvinSign,
      ((nodesAll ns).filter fun n => isVoid n.tag).map tag)) (a := (true, ["br", "img", "hr"]))
    (by decide +kernel)
  obtain ⟨hall, htags⟩ := Prod.mk.inj hcomputed
  refine ⟨ns, hns, fun n hn hvoid => ?_, htags⟩
  have hkelvin : kelvinSign ∉ n.raw := by simpa using List.all_eq_true.1 hall n hn
  exact selfClosing_of_isVoid source ns (by decide +kernel) hns n hn hvoid hkelvin

/-- With a Kelvin sign in its tag an element is named like one without content, but is open: what
follows stands below it. -/
theorem selfClosing_of_isVoid_kelvin :
    let source : Text := "a<lin" ++ kelvinSign :: ">x</link>y"
    tokenOpening ∉ source ∧ ∃ ns, parseTemplate source = .ok ns ∧ ∃ n ∈ nodesAll ns,
      isVoid n.tag = true ∧ n.selfClosing = false ∧ n.children.map raw = ["x", "y"] := by
  intro source
  refine ⟨by decide +kernel, ?_⟩
  obtain ⟨ns, hns, hcomputed⟩ := exists_of_parseTemplate source
    (f := fun ns => (nodesAll ns).any fun n =>
      isVoid n.tag && !n.selfClosing && n.children.map raw == ["x", "y"]) (a := true)
    (by decide +kernel)
  obtain ⟨n, hn, hfound⟩ := List.any_eq_true.1 hcomputed
  exact ⟨ns, hns, n, hn, by simpa [and_assoc] using hfound⟩

end HtmlTemplate
