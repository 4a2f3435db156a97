import Mathlib.Data.List.Perm.Subperm
import Mathlib.Logic.Relation
import HtmlTemplate.Proofs.Markup.Token

/-!
Tables whose entries do not refer to each other in a circle.

The walks over a text go as deep into spans as the table has entries. In a table without circles
a way from span to span meets no entry twice, so it ends within that depth: the walks follow their
unbounded recursion, and that recursion is well-founded. What is counted then differs from the line
feeds of the decoded text only by those inside of tokens that decoding leaves in place.
-/

namespace HtmlTemplate

/-- The text that a piece is. -/
def Piece.text : Piece → Text
  | char c => [c]
  | token t => t

/-- Taking a text apart loses nothing. -/
lemma flatMap_text_pieces (t : Text) : (pieces t).flatMap Piece.text = t := by
  induction t using pieces.induct with
  | case1 => rw [pieces, List.flatMap_nil]
  | case2 t body rest h _ ih =>
    rw [Placeholders.pieces_of_close h, List.flatMap_cons, ih, Piece.text, List.cons_append,
      append_closeToken? h]
  | case3 t h ih =>
    rw [Placeholders.pieces_of_open h, List.flatMap_cons, ih, Piece.text, List.singleton_append]
  | case4 c t hc ih =>
    rw [Placeholders.pieces_char hc, List.flatMap_cons, ih, Piece.text, List.singleton_append]

lemma infix_of_mem_pieces {k t : Text} (h : .token k ∈ pieces t) : k <:+: t := by
  obtain ⟨before, after, hsplit⟩ := List.append_of_mem h
  rw [← flatMap_text_pieces t, hsplit, List.flatMap_append, List.flatMap_cons]
  exact List.infix_append' _ _ _

namespace Placeholders

variable {p : Placeholders} {d n : Nat} {k span t : Text}

/-- The span of the one entry has the token of the other in it. -/
def Refers (p : Placeholders) (m n : Nat) : Prop :=
  ∃ span, p.find? m = some span ∧ .token (token n) ∈ pieces span

/-- No entry leads back to itself. -/
def Acyclic (p : Placeholders) : Prop := ∀ n, ¬ Relation.TransGen p.Refers n n

/-- Decoding the text enters the span. -/
def Opens (p : Placeholders) (span t : Text) : Prop :=
  ∃ k, .token k ∈ pieces t ∧ p.get? k = some span

/-! ### One round of a walk -/

/-- Decodes a piece; `inside` decodes the span that a token stands for. -/
def decodePiece (inside : Text → Text) (p : Placeholders) : Piece → Text
  | .char c => [c]
  | .token k =>
    match p.get? k with
    | some span => inside span
    | none => k

lemma decodePiece_known {f : Text → Text} (h : p.get? k = some span) :
    p.decodePiece f (.token k) = f span := by
  rw [decodePiece, h]

lemma decodePiece_unknown {f : Text → Text} (h : p.get? k = none) :
    p.decodePiece f (.token k) = k := by
  rw [decodePiece, h]

/-- Decodes a text piece by piece. -/
def decodeBy (inside : Text → Text) (p : Placeholders) (t : Text) : Text :=
  (pieces t).flatMap (p.decodePiece inside)

lemma newlinesBy_char {f : Text → Nat} (c : Char) (xs : List Piece) :
    p.newlinesBy f (.char c :: xs) = Text.newlines [c] + p.newlinesBy f xs := by
  simp [newlinesBy, Text.newlines, List.count_singleton]

lemma newlinesBy_known {f : Text → Nat} (h : p.get? k = some span) (xs : List Piece) :
    p.newlinesBy f (.token k :: xs) = f span + p.newlinesBy f xs := by
  rw [newlinesBy, h]

lemma newlinesBy_unknown {f : Text → Nat} (h : p.get? k = none) (xs : List Piece) :
    p.newlinesBy f (.token k :: xs) = p.newlinesBy f xs := by
  rw [newlinesBy, h, Nat.zero_add]

lemma decodeWithin_succ (p : Placeholders) (d : Nat) (t : Text) :
    p.decodeWithin (d + 1) t = p.decodeBy (p.decodeWithin d) t := rfl

lemma newlinesWithin_succ (p : Placeholders) (d : Nat) (t : Text) :
    p.newlinesWithin (d + 1) t = p.newlinesBy (p.newlinesWithin d) (pieces t) := rfl

lemma decodeBy_congr {f g : Text → Text} (h : ∀ span, p.Opens span t → f span = g span) :
    p.decodeBy f t = p.decodeBy g t := by
  refine List.flatMap_congr fun x hx => ?_
  cases x with
  | char c => rfl
  | token k =>
    cases hspan : p.get? k with
    | none => rw [decodePiece_unknown hspan, decodePiece_unknown hspan]
    | some span =>
      rw [decodePiece_known hspan, decodePiece_known hspan]
      exact h span ⟨k, hx, hspan⟩

lemma newlinesBy_congr {f g : Text → Nat} {xs : List Piece}
    (h : ∀ k span, .token k ∈ xs → p.get? k = some span → f span = g span) :
    p.newlinesBy f xs = p.newlinesBy g xs := by
  induction xs with
  | nil => rfl
  | cons x xs ih =>
    have hrest := ih fun k span hk => h k span (List.mem_cons_of_mem x hk)
    cases x with
    | char c => rw [newlinesBy_char, newlinesBy_char, hrest]
    | token k =>
      cases hspan : p.get? k with
      | none => rw [newlinesBy_unknown hspan, newlinesBy_unknown hspan, hrest]
      | some span =>
        have hinside := h k span List.mem_cons_self hspan
        rw [newlinesBy_known hspan, newlinesBy_known hspan, hrest, hinside]

/-! ### How deep tokens lie -/

/-- Tokens lie at most `depth` deep inside each other's spans in a text. -/
def Shallow (p : Placeholders) : (depth : Nat) → Text → Prop
  | 0, t => ∀ span, ¬ p.Opens span t
  | depth + 1, t => ∀ span, p.Opens span t → p.Shallow depth span

/-- A way through entries, newest first, none of them twice, from each of which all tokens of the
text `t` are reached. -/
structure Trail (p : Placeholders) (path : List Nat) (t : Text) : Prop where
  distinct : path.Nodup
  known : ∀ m ∈ path, m ∈ p.entries.map Prod.fst
  leads : ∀ m ∈ path, ∀ n, .token (token n) ∈ pieces t → Relation.TransGen p.Refers m n

namespace Trail

variable {path : List Nat}

lemma nil (p : Placeholders) (t : Text) : p.Trail [] t :=
  ⟨List.nodup_nil, List.forall_mem_nil _, List.forall_mem_nil _⟩

/-- The way goes on into every span, by an entry that it has not met. -/
lemma exists_cons (h : p.Trail path t) (acyclic : p.Acyclic) (hspan : p.Opens span t) :
    ∃ n, p.Trail (n :: path) span := by
  obtain ⟨k, hk, hget⟩ := hspan
  obtain ⟨n, rfl, hn⟩ := get?_eq_some_iff.1 hget
  refine ⟨n, ?distinct, ?known, ?leads⟩
  case distinct => exact List.nodup_cons.2 ⟨fun hmem => acyclic n (h.leads n hmem n hk), h.distinct⟩
  case known => exact List.forall_mem_cons.2 ⟨List.mem_map_of_mem (mem_entries hn), h.known⟩
  case leads =>
    intro m hm n' hn'
    have hrefers : p.Refers n n' := ⟨span, hn, hn'⟩
    rcases List.mem_cons.1 hm with rfl | hm
    · exact .single hrefers
    · exact (h.leads m hm n hk).tail hrefers

lemma length_le (h : p.Trail path t) : path.length ≤ p.size := by
  have hle := (h.distinct.subperm h.known).length_le
  rwa [List.length_map] at hle

/-- A way can only get longer by as many entries as it has not met. -/
lemma shallow (h : p.Trail path t) (acyclic : p.Acyclic) (hd : p.size ≤ d + path.length) :
    p.Shallow d t := by
  induction d generalizing path t with
  | zero =>
    intro span hspan
    -- the way has met every entry already
    obtain ⟨n, hn⟩ := h.exists_cons acyclic hspan
    have hle := hn.length_le
    rw [List.length_cons] at hle
    omega
  | succ d ih =>
    intro span hspan
    obtain ⟨n, hn⟩ := h.exists_cons acyclic hspan
    refine ih hn ?_
    rw [List.length_cons]
    omega

end Trail

namespace Shallow

/-- One round more changes nothing. -/
lemma decodeWithin_stable (h : p.Shallow d t) :
    p.decodeWithin (d + 1) t = p.decodeWithin d t := by
  induction d generalizing t with
  | zero =>
    -- no token is known here, so every piece stays as it is
    have hkept : p.decodeBy (p.decodeWithin 0) t = (pieces t).flatMap Piece.text := by
      refine List.flatMap_congr fun x hx => ?_
      cases x with
      | char c => rfl
      | token k =>
        cases hspan : p.get? k with
        | none => exact decodePiece_unknown hspan
        | some span => exact absurd ⟨k, hx, hspan⟩ (h span)
    rw [decodeWithin_succ, hkept, flatMap_text_pieces]
    rfl
  | succ d ih =>
    rw [decodeWithin_succ, decodeWithin_succ]
    exact decodeBy_congr fun span hspan => ih (h span hspan)

lemma newlinesWithin_stable (h : p.Shallow d t) :
    p.newlinesWithin (d + 1) t = p.newlinesWithin d t := by
  induction d generalizing t with
  | zero => exact newlinesBy_congr fun k span hk hspan => absurd ⟨k, hk, hspan⟩ (h span)
  | succ d ih =>
    rw [newlinesWithin_succ, newlinesWithin_succ]
    exact newlinesBy_congr fun k span hk hspan => ih (h span ⟨k, hk, hspan⟩)

lemma acc (h : p.Shallow d t) : Acc p.Opens t := by
  induction d generalizing t with
  | zero => exact .intro t fun span hspan => absurd hspan (h span)
  | succ d ih => exact .intro t fun span hspan => ih (h span hspan)

end Shallow

/-- The recursions of decoding and counting end by themselves: no way from span to span goes on
for ever, and the walks follow them without a bound. -/
structure Ends (p : Placeholders) : Prop where
  wellFounded : WellFounded p.Opens
  decode : ∀ t, p.decode t = p.decodeBy p.decode t
  newlines : ∀ t, p.newlines t = p.newlinesBy p.newlines (pieces t)

namespace Acyclic

lemma shallow (h : p.Acyclic) (t : Text) : p.Shallow p.size t :=
  (Trail.nil p t).shallow h (Nat.le_add_right _ _)

lemma ends (h : p.Acyclic) : p.Ends where
  wellFounded := ⟨fun t => (h.shallow t).acc⟩
  decode := fun t => (h.shallow t).decodeWithin_stable.symm
  newlines := fun t => (h.shallow t).newlinesWithin_stable.symm

/-- There is no circle if every entry refers to older entries only. -/
lemma of_lt (h : ∀ e ∈ p.entries, ∀ e' ∈ p.entries,
    .token (token e'.1) ∈ pieces e.2 → e'.1 < e.1) : p.Acyclic := by
  have hstep : ∀ {m n}, p.Refers m n → (∃ l, p.Refers n l) → n < m := by
    rintro m n ⟨span, hspan, hn⟩ ⟨l, span', hspan', -⟩
    exact h _ (mem_entries hspan) _ (mem_entries hspan') hn
  have hsome : ∀ {m n}, Relation.TransGen p.Refers m n → ∃ l, p.Refers m l := by
    intro m n hmn
    obtain ⟨l, hml, -⟩ := Relation.TransGen.head'_iff.1 hmn
    exact ⟨l, hml⟩
  have hlt : ∀ {m n}, Relation.TransGen p.Refers m n → (∃ l, p.Refers n l) → n < m := by
    intro m n hmn hn
    induction hmn using Relation.TransGen.head_induction_on with
    | single hmn => exact hstep hmn hn
    | head hml hln ih => exact ih.trans (hstep hml (hsome hln))
  exact fun n hn => Nat.lt_irrefl n (hlt hn (hsome hn))

end Acyclic

/-! ### Line feeds in tokens that are left in place -/

/-- Decoding leaves a token in place, in the text or in a span that it enters. -/
inductive Leaves (p : Placeholders) : Text → Text → Prop
  | here {t k : Text} (hk : .token k ∈ pieces t) (unknown : p.get? k = none) : Leaves p t k
  | inside {t span k : Text} (entered : p.Opens span t) (hk : Leaves p span k) : Leaves p t k

/-- Piece by piece, no more is counted than decoding writes, and less only where a span's line
feeds are not all counted or a token that is left in place has some. -/
lemma newlinesBy_eq_iff {f : Text → Nat} {g : Text → Text} (xs : List Piece)
    (h : ∀ k span, .token k ∈ xs → p.get? k = some span → f span ≤ Text.newlines (g span)) :
    p.newlinesBy f xs ≤ Text.newlines (xs.flatMap (p.decodePiece g)) ∧
      (p.newlinesBy f xs = Text.newlines (xs.flatMap (p.decodePiece g)) ↔
        ∀ k, .token k ∈ xs → (p.get? k = none → '\n' ∉ k) ∧
          ∀ span, p.get? k = some span → f span = Text.newlines (g span)) := by
  induction xs with
  | nil => simp [newlinesBy, Text.newlines]
  | cons x xs ih =>
    obtain ⟨hle, heq⟩ := ih fun k span hk => h k span (List.mem_cons_of_mem x hk)
    have hwritten : Text.newlines ((x :: xs).flatMap (p.decodePiece g)) =
        Text.newlines (p.decodePiece g x) + Text.newlines (xs.flatMap (p.decodePiece g)) := by
      rw [List.flatMap_cons, Text.newlines, List.count_append]
      rfl
    rw [hwritten]
    cases x with
    | char c =>
      rw [newlinesBy_char, decodePiece, Nat.add_left_cancel_iff, heq]
      exact ⟨Nat.add_le_add_left hle _, by simp⟩
    | token k =>
      simp only [List.mem_cons, Piece.token.injEq, forall_eq_or_imp, ← heq]
      cases hspan : p.get? k with
      | none =>
        have hfeeds : Text.newlines k = 0 ↔ '\n' ∉ k := List.count_eq_zero
        rw [newlinesBy_unknown hspan, decodePiece_unknown hspan]
        simp only [← hfeeds, forall_const, reduceCtorEq, false_implies, and_true]
        omega
      | some span =>
        have hinside := h k span List.mem_cons_self hspan
        rw [newlinesBy_known hspan, decodePiece_known hspan]
        simp only [reduceCtorEq, false_implies, true_and, Option.some.injEq, forall_eq']
        omega

/-- **What is counted.** Over a table without circles, no more line feeds are counted in a text than
it has once decoded; and they are all counted exactly if none stands inside of a token that decoding
leaves in place. -/
theorem newlines_eq_decode_iff (h : p.Acyclic) (t : Text) :
    p.newlines t ≤ Text.newlines (p.decode t) ∧
      (p.newlines t = Text.newlines (p.decode t) ↔ ∀ k, p.Leaves t k → '\n' ∉ k) := by
  obtain ⟨hwf, hdecode, hnewlines⟩ := h.ends
  induction t using hwf.induction with
  | h t ih =>
    obtain ⟨hle, heq⟩ := newlinesBy_eq_iff (g := p.decode) (pieces t)
      fun k span hk hspan => (ih span ⟨k, hk, hspan⟩).1
    rw [hdecode, hnewlines]
    refine ⟨hle, heq.trans ⟨?_, ?_⟩⟩
    · intro hall k hk
      cases hk with
      | here hk unknown => exact (hall k hk).1 unknown
      | inside entered hk =>
        obtain ⟨k', hk', hspan⟩ := entered
        exact (ih _ ⟨k', hk', hspan⟩).2.1 ((hall k' hk').2 _ hspan) k hk
    · intro hall k hk
      exact ⟨fun unknown => hall k (.here hk unknown),
        fun span hspan => (ih span ⟨k, hk, hspan⟩).2.2
          fun k' hk' => hall k' (.inside ⟨k, hk, hspan⟩ hk')⟩

/-- A token inside another's span, known ones twice in the text, one that is not in the table, and
one that is not closed. -/
theorem newlines_eq_decode_nested :
    let p := ((empty.insert "a\nb").2.insert (token 1 ++ "\n" ++ token 1)).2
    let t := token 2 ++ token 7 ++ "\n" ++ token 2 ++ [tokenOpening]
    p.Acyclic ∧ p.newlines t = 7 ∧ ∀ k, p.Leaves t k → '\n' ∉ k := by
  intro p t
  have hacyclic : p.Acyclic := .of_lt (by decide +kernel)
  exact ⟨hacyclic, by decide +kernel,
    (newlines_eq_decode_iff hacyclic t).2.1 (by decide +kernel)⟩

/-- A line feed between the ends of a token that stands for nothing is written, but not counted. -/
theorem newlines_ne_decode :
    ¬ ∀ (p : Placeholders) (t : Text), p.Acyclic → p.newlines t = Text.newlines (p.decode t) := by
  intro h
  have hfeed := h empty [tokenOpening, '\n', tokenClosing] (.of_lt (by decide))
  exact absurd hfeed (by decide +kernel)

end Placeholders

end HtmlTemplate
