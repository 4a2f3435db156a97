import Mathlib.Data.List.DropRight
import HtmlTemplate.Expr.Filling
import HtmlTemplate.Proofs.Markup.Passes

/-!
Where expressions stand.

Hiding and filling in look for expressions on their own; both find the same ones, which a text has
by its form alone. Since an expression is found without regard to what is before it, a text may be
cut wherever it cuts no expression, and its expressions are those of the two parts.
-/

namespace HtmlTemplate

/-- A part of a text, and how many characters are before it. -/
structure Occurrence where
  start : Nat
  text : Text
  deriving DecidableEq

namespace Occurrence

def stop (o : Occurrence) : Nat := o.start + o.text.length

/-- Some of the part is before a place, and some of it behind. -/
def Around (o : Occurrence) (place : Nat) : Prop := o.start < place ∧ place < o.stop

/-- The part in a text with `n` more characters in front. -/
def shift (n : Nat) (o : Occurrence) : Occurrence := { o with start := n + o.start }

/-- What stands between the braces of an expression. -/
def body (o : Occurrence) : Text := (o.text.drop openBraces.length).rdrop closeBraces.length

@[simp] lemma body_expression (k : Nat) (body : Text) :
    (⟨k, (Chunk.expression body).source⟩ : Occurrence).body = body := by
  simp [Occurrence.body, Chunk.source, openBraces, closeBraces, List.rdrop]

lemma shift_shift (m n : Nat) (o : Occurrence) : (o.shift n).shift m = o.shift (m + n) := by
  simp [shift, Nat.add_assoc]

end Occurrence

namespace Chunk

variable {t a b : Text} {cs : List Chunk}

/-! ### The text of chunks -/

def sources (cs : List Chunk) : Text := cs.flatMap source

@[simp] lemma sources_nil : sources [] = [] := rfl

@[simp] lemma sources_cons (c : Chunk) (cs : List Chunk) :
    sources (c :: cs) = c.source ++ sources cs := rfl

lemma sources_chunks (t : Text) : sources (chunks t) = t := by
  induction t using chunks.induct with
  | case1 t h => simp [chunks_of_none h, source]
  | case2 t a b c h _ ih =>
    rw [chunks_of_some h, sources_cons, sources_cons, ih, ← List.append_assoc]
    exact append_first? h

/-! ### The places of expressions -/

/-- The expressions among chunks, the first chunk standing behind `k` characters. -/
def occurrences : (k : Nat) → List Chunk → List Occurrence
  | _, [] => []
  | k, .literal t :: cs => occurrences (k + t.length) cs
  | k, .expression body :: cs =>
    ⟨k, (expression body).source⟩ :: occurrences (k + (expression body).source.length) cs

lemma occurrences_append (k : Nat) (cs ds : List Chunk) :
    occurrences k (cs ++ ds) = occurrences k cs ++ occurrences (k + (sources cs).length) ds := by
  induction cs generalizing k with
  | nil => rfl
  | cons c cs ih => cases c <;> simp [occurrences, ih, source, Nat.add_assoc]

lemma occurrences_add (n k : Nat) (cs : List Chunk) :
    occurrences (n + k) cs = (occurrences k cs).map (Occurrence.shift n) := by
  induction cs generalizing k with
  | nil => rfl
  | cons c cs ih =>
    cases c with
    | literal t => rw [occurrences, Nat.add_assoc, ih, occurrences]
    | expression body =>
      rw [occurrences, Nat.add_assoc, ih, occurrences, List.map_cons]
      rfl

/-- Expressions lie within the text. -/
lemma within_of_mem_occurrences {k : Nat} {o : Occurrence} (ho : o ∈ occurrences k cs) :
    k ≤ o.start ∧ o.stop ≤ k + (sources cs).length := by
  induction cs generalizing k with
  | nil => cases ho
  | cons c cs ih =>
    rw [sources_cons, List.length_append]
    cases c with
    | literal t =>
      have h := ih ho
      rw [source]
      omega
    | expression body =>
      rw [occurrences, List.mem_cons] at ho
      rcases ho with rfl | ho
      · exact ⟨Nat.le_refl k, Nat.add_le_add_left (Nat.le_add_right _ _) k⟩
      · have h := ih ho
        omega

/-- The expressions of a text behind `k` characters, by its form: two braces open at the earliest
place, one character stands between them and the next two that close, and so on behind these. -/
inductive Found : (k : Nat) → Text → List Occurrence → Prop
  | none {k : Nat} {t : Text}
      (h : ∀ a c x y, t ≠ a ++ openBraces ++ c :: (x ++ closeBraces ++ y)) : Found k t []
  | next {k : Nat} {a body rest : Text} {os : List Occurrence}
      (earliest : ¬ openBraces <:+: a ++ ['{']) (shortest : IsBody body)
      (behind : Found (k + a.length + (expression body).source.length) rest os) :
      Found k (a ++ (expression body).source ++ rest)
        (⟨k + a.length, (expression body).source⟩ :: os)

/-- Every text has its expressions, and no other ones. -/
lemma found_iff {k : Nat} {os : List Occurrence} :
    Found k t os ↔ os = occurrences k (chunks t) := by
  constructor
  · intro h
    induction h with
    | none h => rw [chunks_of_none (first?_eq_none_iff.2 h), occurrences, occurrences]
    | next earliest shortest _ ih =>
      rw [chunks_of_some (first?_eq_some_iff.2 ⟨rfl, earliest, shortest⟩), occurrences,
        occurrences, ih]
  · rintro rfl
    induction t using chunks.induct generalizing k with
    | case1 t h =>
      rw [chunks_of_none h, occurrences, occurrences]
      exact .none (first?_eq_none_iff.1 h)
    | case2 t a body rest h _ ih =>
      obtain ⟨rfl, earliest, shortest⟩ := first?_eq_some_iff.1 h
      rw [chunks_of_some h, occurrences, occurrences]
      exact .next earliest shortest ih

/-- A third brace that closes is the body, and what opens again is not closed. -/
example : Found 0 "a\x7b\x7b\x7d\x7d\x7d\x7b\x7b\x7d\x7d" [⟨1, "\x7b\x7b\x7d\x7d\x7d"⟩] :=
  found_iff.2 (by decide +kernel)

/-! ### Cutting a text -/

/-- **A cut that goes through no expression** goes through a literal chunk. -/
lemma chunks_append (h : ∀ o ∈ occurrences 0 (chunks (a ++ b)), ¬ o.Around a.length) :
    ∃ cs x y ds, chunks (a ++ b) = cs ++ literal (x ++ y) :: ds ∧
      chunks a = cs ++ [literal x] ∧ chunks b = literal y :: ds := by
  generalize ht : a ++ b = t at h
  induction t using chunks.induct generalizing a with
  | case1 t hnone =>
    subst ht
    have ha := first?_of_infix hnone (List.prefix_append a b).isInfix
    have hb := first?_of_infix hnone (List.suffix_append a b).isInfix
    exact ⟨[], a, b, [], by simp [chunks_of_none hnone], by simp [chunks_of_none ha],
      chunks_of_none hb⟩
  | case2 t before body rest hsome _ ih =>
    obtain ⟨htext, hfirst, hbody⟩ := first?_eq_some_iff.1 hsome
    rw [chunks_of_some hsome] at h ⊢
    rw [occurrences, occurrences, List.forall_mem_cons] at h
    obtain ⟨haround, hrest⟩ := h
    rw [htext] at ht
    have hafront : a <+: before ++ (expression body).source ++ rest := ⟨b, ht⟩
    have hplace : a.length ≤ before.length ∨
        (before ++ (expression body).source).length ≤ a.length := by
      simp only [Occurrence.Around, Occurrence.stop] at haround
      rw [List.length_append]
      omega
    rcases hplace with hbefore | hbehind
    · -- the cut is in the literal text before the first expression
      obtain ⟨y, rfl⟩ := List.prefix_of_prefix_length_le hafront
        ⟨(expression body).source ++ rest, by rw [List.append_assoc]⟩ hbefore
      have hy : b = y ++ (expression body).source ++ rest := by
        simpa [List.append_assoc] using ht
      have hfronts : a <+: a ++ y ++ ['{'] := ⟨y ++ ['{'], by rw [List.append_assoc]⟩
      have hbacks : y ++ ['{'] <:+ a ++ y ++ ['{'] := ⟨a, by rw [List.append_assoc]⟩
      have ha : first? a = none :=
        first?_of_no_braces fun hopen => hfirst (hopen.trans hfronts.isInfix)
      have hb : first? b = some (y, body, rest) :=
        first?_eq_some_iff.2 ⟨hy, fun hopen => hfirst (hopen.trans hbacks.isInfix), hbody⟩
      exact ⟨[], a, y, _, rfl, by simp [chunks_of_none ha], chunks_of_some hb⟩
    · -- the cut is behind the first expression
      obtain ⟨a', rfl⟩ := List.prefix_of_prefix_length_le ⟨rest, rfl⟩ hafront hbehind
      have hrest' : a' ++ b = rest := by
        simpa [List.append_assoc] using ht
      have ha : first? (before ++ (expression body).source ++ a') = some (before, body, a') :=
        first?_eq_some_iff.2 ⟨rfl, hfirst, hbody⟩
      obtain ⟨cs, x, y, ds, hcs, hx, hy⟩ := ih hrest' fun o ho haround => by
        rw [Nat.zero_add, ← List.length_append, ← Nat.add_zero (List.length _),
          occurrences_add] at hrest
        refine hrest _ (List.mem_map_of_mem ho) ?_
        simpa [Occurrence.Around, Occurrence.shift, Occurrence.stop, Nat.add_assoc] using haround
      exact ⟨literal before :: expression body :: cs, x, y, ds, by rw [hcs]; rfl,
        by rw [chunks_of_some ha, hx]; rfl, hy⟩

/-- The expressions of a text that is cut through none of them. -/
lemma occurrences_chunks_append
    (h : ∀ o ∈ occurrences 0 (chunks (a ++ b)), ¬ o.Around a.length) :
    occurrences 0 (chunks (a ++ b)) =
      occurrences 0 (chunks a) ++ (occurrences 0 (chunks b)).map (Occurrence.shift a.length) := by
  obtain ⟨cs, x, y, ds, hcs, hx, hy⟩ := chunks_append h
  have hlength : a.length = (sources cs).length + x.length := by
    rw [← sources_chunks a, hx]
    simp [sources, source]
  rw [hcs, hx, hy, ← occurrences_add, occurrences_append, occurrences_append, hlength]
  simp [occurrences, Nat.add_assoc]

end Chunk

/-! ### What is hidden -/

namespace Span

/-- The hidden spans, the first span standing behind `k` characters. -/
def occurrences : (k : Nat) → List Span → List Occurrence
  | _, [] => []
  | k, .shown t :: ss => occurrences (k + t.length) ss
  | k, .hidden rows :: ss =>
    ⟨k, Text.unrows rows⟩ :: occurrences (k + (Text.unrows rows).length) ss

lemma occurrences_expressions (k : Nat) (t : Text) :
    occurrences k (expressions t) = Chunk.occurrences k (Chunk.chunks t) := by
  induction t using Chunk.chunks.induct generalizing k with
  | case1 t h =>
    rw [expressions_of_none h, Chunk.chunks_of_none h]
    rfl
  | case2 t a body rest h _ ih =>
    rw [expressions_of_some h, Chunk.chunks_of_some h]
    simp only [occurrences, Chunk.occurrences, Text.unrows_rows, ih]

/-- What hiding takes for the expressions of a text. -/
def hiddenExpressions (t : Text) : List Occurrence := occurrences 0 (expressions t)

lemma hiddenExpressions_eq (t : Text) :
    hiddenExpressions t = Chunk.occurrences 0 (Chunk.chunks t) := occurrences_expressions 0 t

lemma stop_le_of_mem_hiddenExpressions (t : Text) :
    ∀ o ∈ hiddenExpressions t, o.stop ≤ t.length := by
  intro o ho
  rw [hiddenExpressions_eq] at ho
  simpa [Chunk.sources_chunks] using (Chunk.within_of_mem_occurrences ho).2

end Span

/-! ### Texts that follow each other -/

/-- The occurrences that texts have one after another, the first text behind `k` characters. -/
def Occurrence.across (f : Text → List Occurrence) : (k : Nat) → List Text → List Occurrence
  | _, [] => []
  | k, t :: ts => (f t).map (shift k) ++ across f (k + t.length) ts

/-- Each of them lies within one of the texts. -/
lemma Occurrence.exists_of_mem_across {f : Text → List Occurrence} {o : Occurrence}
    (hf : ∀ t, ∀ o ∈ f t, o.stop ≤ t.length) {k : Nat} {ts : List Text} (ho : o ∈ across f k ts) :
    ∃ us t vs, ts = us ++ t :: vs ∧ k + us.flatten.length ≤ o.start ∧
      o.stop ≤ k + us.flatten.length + t.length := by
  induction ts generalizing k with
  | nil => cases ho
  | cons t ts ih =>
    rcases List.mem_append.1 ho with ho | ho
    · obtain ⟨o, hfound, rfl⟩ := List.mem_map.1 ho
      refine ⟨[], t, ts, rfl, Nat.le_add_right _ _, ?_⟩
      have hstop := hf t o hfound
      simp only [stop, shift, List.flatten_nil, List.length_nil] at hstop ⊢
      omega
    · obtain ⟨us, u, vs, rfl, hstart, hstop⟩ := ih ho
      refine ⟨t :: us, u, vs, rfl, ?_, ?_⟩ <;>
        rw [List.flatten_cons, List.length_append, ← Nat.add_assoc]
      · exact hstart
      · exact hstop

/-- Wherever a text is cut, no expression is. -/
def Chunk.Uncut (ts : List Text) : Prop :=
  ∀ us vs, ts = us ++ vs →
    ∀ o ∈ occurrences 0 (chunks ts.flatten), ¬ o.Around us.flatten.length

namespace Chunk.Uncut

variable {t : Text} {ts : List Text}

lemma head (h : Uncut (t :: ts)) :
    ∀ o ∈ occurrences 0 (chunks (t ++ ts.flatten)), ¬ o.Around t.length := by
  simpa using h [t] ts rfl

lemma tail (h : Uncut (t :: ts)) : Uncut ts := by
  rintro us vs rfl o ho haround
  have hmem : o.shift t.length ∈ occurrences 0 (chunks (t ++ (us ++ vs).flatten)) := by
    rw [occurrences_chunks_append h.head]
    exact List.mem_append_right _ (List.mem_map_of_mem ho)
  refine h (t :: us) vs rfl _ (by simpa using hmem) ?_
  simpa [Occurrence.Around, Occurrence.shift, Occurrence.stop, Nat.add_assoc] using haround

/-- The expressions of texts are those of the whole, one text after another. -/
lemma occurrences_flatten (h : Uncut ts) (k : Nat) :
    occurrences k (chunks ts.flatten) =
      Occurrence.across (fun t => occurrences 0 (chunks t)) k ts := by
  induction ts generalizing k with
  | nil => simp [Occurrence.across, chunks_of_none first?_nil, occurrences]
  | cons t ts ih =>
    rw [List.flatten_cons, Occurrence.across, ← ih h.tail, ← Nat.add_zero k, occurrences_add,
      occurrences_chunks_append h.head, List.map_append, List.map_map, Nat.add_zero,
      ← Nat.add_zero (k + t.length), occurrences_add (k + t.length)]
    simp only [Function.comp_def, Occurrence.shift_shift]

end Chunk.Uncut

/-! ### Filling in -/

section Filling

variable {c : Context} {raw : Bool} {t : Text} {ts : List Text}

lemma fillIn_append {a b : Text}
    (h : ∀ o ∈ Chunk.occurrences 0 (Chunk.chunks (a ++ b)), ¬ o.Around a.length) :
    fillIn c raw (a ++ b) = do
      let u ← fillIn c raw a
      let v ← fillIn c raw b
      return u ++ v := by
  obtain ⟨cs, x, y, ds, hcs, hx, hy⟩ := Chunk.chunks_append h
  simp [fillIn, hcs, hx, hy, fillChunk]

/-- Texts are filled in one after another as the whole is. -/
lemma fillIn_flatten (h : Chunk.Uncut ts) :
    fillIn c raw ts.flatten = do return (← ts.mapM (fillIn c raw)).flatten := by
  induction ts with
  | nil => simp [fillIn, Chunk.chunks_of_none Chunk.first?_nil, fillChunk]
  | cons t ts ih =>
    rw [List.flatten_cons, fillIn_append h.head, ih h.tail, List.mapM_cons]
    simp

/-- A text with the values of some expressions in it filled in, from the left, behind the first
`passed` characters. -/
def fillAt (c : Context) (raw : Bool) (t : Text) :
    (passed : Nat) → List Occurrence → Evaluation Text
  | passed, [] => return t.drop passed
  | passed, o :: os => do
    let v ← evaluate c o.body
    let rest ← fillAt c raw t o.stop os
    return (t.take o.start).drop passed ++ filling raw v ++ rest

lemma fillAt_occurrences (c : Context) (raw : Bool) (cs : List Chunk) (passed literal : Text) :
    fillAt c raw (passed ++ literal ++ Chunk.sources cs) passed.length
        (Chunk.occurrences (passed.length + literal.length) cs) = do
      return literal ++ (← cs.mapM (fillChunk c raw)).flatten := by
  induction cs generalizing passed literal with
  | nil => simp [Chunk.occurrences, fillAt]
  | cons chunk cs ih =>
    cases chunk with
    | literal t =>
      have hrest := ih passed (literal ++ t)
      simp only [List.length_append, List.append_assoc] at hrest
      simp [Chunk.occurrences, Chunk.source, fillChunk, Nat.add_assoc, hrest]
    | expression body =>
      have hrest := ih (passed ++ literal ++ (Chunk.expression body).source) []
      simp only [List.length_append, List.append_assoc, List.nil_append,
        List.length_nil, Nat.add_zero] at hrest
      have hbetween (u : Text) : ((passed ++ (literal ++ u)).take
          (passed.length + literal.length)).drop passed.length = literal := by
        rw [← List.append_assoc, ← List.length_append, List.take_left, List.drop_left]
      simp [Chunk.occurrences, fillAt, fillChunk, Occurrence.stop, Nat.add_assoc, hrest, hbetween]

end Filling

end HtmlTemplate
