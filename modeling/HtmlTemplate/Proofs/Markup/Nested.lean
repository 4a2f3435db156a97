import Mathlib.Data.List.Nodup
import Mathlib.Data.List.Perm.Subperm
import HtmlTemplate.Proofs.Markup.Token
import HtmlTemplate.Proofs.Text.Cut

/-!
Texts with their placeholders filled in.

A nested text carries inside each token the span that the token stands for, and so on down. It
needs no table: what it shows and what it stands for are two plain recursions. Over a table that
holds its spans, decoding, taking and counting line feeds of the shown text come to the text it
stands for. A character that no token holds is a safe place to cut.
-/

namespace HtmlTemplate

/-- A text whose tokens carry the spans they stand for. -/
inductive Nested where
  | nil
  | char (c : Char) (plain : c ≠ tokenOpening) (rest : Nested)
  | token (n : Nat) (inside rest : Nested)

namespace Nested

/-- The text as it stands, tokens and all. -/
def shown : Nested → Text
  | nil => []
  | char c _ rest => c :: rest.shown
  | token n _ rest => Placeholders.token n ++ rest.shown

/-- The text with every token replaced by what it stands for. -/
def source : Nested → Text
  | nil => []
  | char c _ rest => c :: rest.source
  | token _ inside rest => inside.source ++ rest.source

/-- The numbers of all tokens, each with its span as it stands. -/
def entries : Nested → List (Nat × Text)
  | nil => []
  | char _ _ rest => rest.entries
  | token n inside rest => (n, inside.shown) :: (inside.entries ++ rest.entries)

def numbers (r : Nested) : List Nat := r.entries.map Prod.fst

/-- How deep tokens lie inside each other's spans. -/
def depth : Nested → Nat
  | nil => 0
  | char _ _ rest => rest.depth
  | token _ inside rest => max (inside.depth + 1) rest.depth

/-- The characters that can be seen, each with its place in the source, which begins behind `k`
characters. -/
def seen : (k : Nat) → Nested → List (Nat × Char)
  | _, nil => []
  | k, char c _ rest => (k, c) :: seen (k + 1) rest
  | k, token _ inside rest => seen (k + inside.source.length) rest

def append : Nested → Nested → Nested
  | nil, s => s
  | char c h rest, s => char c h (rest.append s)
  | token n inside rest, s => token n inside (rest.append s)

instance : Append Nested := ⟨append⟩

/-- A text without tokens. -/
def ofText : (t : Text) → tokenOpening ∉ t → Nested
  | [], _ => nil
  | c :: t, h =>
    char c (fun e => h (e ▸ List.mem_cons_self)) (ofText t fun m => h (List.mem_cons_of_mem c m))

@[simp] lemma nil_append (s : Nested) : nil ++ s = s := rfl

@[simp] lemma char_append (c : Char) (h : c ≠ tokenOpening) (r s : Nested) :
    char c h r ++ s = char c h (r ++ s) := rfl

@[simp] lemma token_append (n : Nat) (i r s : Nested) :
    token n i r ++ s = token n i (r ++ s) := rfl

@[simp] lemma append_nil (r : Nested) : r ++ nil = r := by
  induction r with
  | nil => rfl
  | char c h r ih => simp [ih]
  | token n i r _ ih => simp [ih]

lemma append_assoc (r s u : Nested) : r ++ s ++ u = r ++ (s ++ u) := by
  induction r with
  | nil => rfl
  | char c h r ih => simp [ih]
  | token n i r _ ih => simp [ih]

@[simp] lemma shown_append (r s : Nested) : (r ++ s).shown = r.shown ++ s.shown := by
  induction r with
  | nil => rfl
  | char c h r ih => simp [shown, ih]
  | token n i r _ ih => simp [shown, ih]

@[simp] lemma source_append (r s : Nested) : (r ++ s).source = r.source ++ s.source := by
  induction r with
  | nil => rfl
  | char c h r ih => simp [source, ih]
  | token n i r _ ih => simp [source, ih]

@[simp] lemma entries_append (r s : Nested) : (r ++ s).entries = r.entries ++ s.entries := by
  induction r with
  | nil => rfl
  | char c h r ih => simp [entries, ih]
  | token n i r _ ih => simp [entries, ih]

@[simp] lemma seen_append (k : Nat) (r s : Nested) :
    (r ++ s).seen k = r.seen k ++ s.seen (k + r.source.length) := by
  induction r generalizing k with
  | nil => rfl
  | char c h r ih => simp [seen, source, ih, Nat.add_assoc, Nat.add_comm 1]
  | token n i r _ ih => simp [seen, source, ih, Nat.add_assoc]

/-- What can be seen stands within the source. -/
lemma within_of_mem_seen {k : Nat} {r : Nested} {x : Nat × Char} (hx : x ∈ r.seen k) :
    k ≤ x.1 ∧ x.1 < k + r.source.length := by
  induction r generalizing k with
  | nil => cases hx
  | char c h r ih =>
    rw [source, List.length_cons]
    rcases List.mem_cons.1 hx with rfl | hx
    · exact ⟨Nat.le_refl k, by omega⟩
    · have hwithin := ih hx
      omega
  | token n i r _ ih =>
    have hwithin := ih hx
    rw [source, List.length_append]
    omega

@[simp] lemma numbers_append (r s : Nested) : (r ++ s).numbers = r.numbers ++ s.numbers := by
  simp [numbers]

@[simp] lemma numbers_char (c : Char) (h : c ≠ tokenOpening) (r : Nested) :
    (char c h r).numbers = r.numbers := rfl

@[simp] lemma numbers_token (n : Nat) (i r : Nested) :
    (token n i r).numbers = n :: (i.numbers ++ r.numbers) := by
  simp [numbers, entries]

@[simp] lemma shown_ofText (t : Text) (h : tokenOpening ∉ t) : (ofText t h).shown = t := by
  induction t with
  | nil => rfl
  | cons c t ih => simp [ofText, shown, ih]

@[simp] lemma source_ofText (t : Text) (h : tokenOpening ∉ t) : (ofText t h).source = t := by
  induction t with
  | nil => rfl
  | cons c t ih => simp [ofText, source, ih]

@[simp] lemma entries_ofText (t : Text) (h : tokenOpening ∉ t) : (ofText t h).entries = [] := by
  induction t with
  | nil => rfl
  | cons c t ih => simp [ofText, entries, ih]

lemma depth_le_length (r : Nested) : r.depth ≤ r.entries.length := by
  induction r with
  | nil => simp [depth]
  | char c h r ih => simpa [depth, entries] using ih
  | token n i r ihi ih =>
    simp only [depth, entries, List.length_cons, List.length_append]
    omega

/-- A nested text can be cut around a character that none of its tokens holds. -/
lemma exists_cut {r : Nested} {a b : Text} {c : Char}
    (hc : ∀ n ∈ r.numbers, c ∉ Placeholders.token n) (h : r.shown = a ++ c :: b) :
    ∃ r₁ r₂ plain, r = r₁ ++ char c plain r₂ ∧ r₁.shown = a ∧ r₂.shown = b := by
  induction r generalizing a with
  | nil => simp [shown] at h
  | char x plain r ih =>
    cases a with
    | nil =>
      simp only [shown, List.nil_append, List.cons.injEq] at h
      obtain ⟨rfl, rfl⟩ := h
      exact ⟨nil, r, plain, rfl, rfl, rfl⟩
    | cons y a =>
      simp only [shown, List.cons_append, List.cons.injEq] at h
      obtain ⟨rfl, h⟩ := h
      obtain ⟨r₁, r₂, hp, rfl, rfl, rfl⟩ := ih hc h
      exact ⟨char x plain r₁, r₂, hp, rfl, rfl, rfl⟩
  | token n i r _ ih =>
    simp only [numbers_token, List.mem_cons, List.mem_append] at hc
    obtain ⟨a, rfl, hr⟩ := Text.exists_append_of_not_mem (hc n (.inl rfl)) h
    obtain ⟨r₁, r₂, hp, rfl, rfl, rfl⟩ := ih (fun m hm => hc m (.inr (.inr hm))) hr
    exact ⟨token n i r₁, r₂, hp, rfl, rfl, rfl⟩

/-- The same for a character that no token ever holds. -/
lemma exists_cut_plain {r : Nested} {a b : Text} {c : Char} (hc : inToken c = false)
    (h : r.shown = a ++ c :: b) :
    ∃ r₁ r₂ plain, r = r₁ ++ char c plain r₂ ∧ r₁.shown = a ∧ r₂.shown = b :=
  exists_cut (fun n _ => Placeholders.not_mem_token hc n) h

end Nested

namespace Placeholders

/-- The table has the span of every token of a nested text. -/
def Holds (p : Placeholders) (r : Nested) : Prop := ∀ e ∈ r.entries, p.find? e.1 = some e.2

variable {p : Placeholders} {n : Nat} {i r s : Nested}

lemma holds_append : p.Holds (r ++ s) ↔ p.Holds r ∧ p.Holds s := by
  simp [Holds, or_imp, forall_and]

lemma Holds.find? (h : p.Holds (.token n i r)) : p.find? n = some i.shown :=
  h (n, i.shown) (by simp [Nested.entries])

lemma Holds.inside (h : p.Holds (.token n i r)) : p.Holds i :=
  fun e he => h e (by simp [Nested.entries, he])

lemma Holds.rest (h : p.Holds (.token n i r)) : p.Holds r :=
  fun e he => h e (by simp [Nested.entries, he])

lemma Holds.without {ns : List Nat} (h : p.Holds r) (hn : ∀ m ∈ r.numbers, m ∉ ns) :
    (p.without ns).Holds r :=
  fun e he => (find?_without (hn e.1 (List.mem_map_of_mem he))).trans (h e he)

/-- Decoding comes to the source, at any depth that is enough. -/
lemma decodeWithin_shown {d : Nat} (hd : r.depth ≤ d) (h : p.Holds r) :
    p.decodeWithin d r.shown = r.source := by
  induction r generalizing d with
  | nil => cases d <;> simp [decodeWithin, Nested.shown, Nested.source, pieces]
  | char c hc r ih =>
    rw [Nested.shown, decodeWithin_char p d hc, ih hd h]
    rfl
  | token n i r ihi ih =>
    simp only [Nested.depth] at hd
    obtain ⟨d, rfl⟩ := Nat.exists_eq_add_one.2 (show 0 < d by omega)
    rw [Nested.shown, decodeWithin_token h.find?, ihi (by omega) h.inside, ih (by omega) h.rest]
    rfl

/-- Counting line feeds counts those of the source. -/
lemma newlinesWithin_shown {d : Nat} (hd : r.depth ≤ d) (h : p.Holds r) :
    p.newlinesWithin d r.shown = Text.newlines r.source := by
  induction r generalizing d with
  | nil =>
    cases d <;>
      simp [newlinesWithin, newlinesBy, Nested.shown, Nested.source, pieces, Text.newlines]
  | char c hc r ih =>
    rw [Nested.shown, newlinesWithin_char p d hc, ih hd h]
    simp only [Text.newlines, Nested.source, List.count_cons, beq_iff_eq]
    omega
  | token n i r ihi ih =>
    simp only [Nested.depth] at hd
    obtain ⟨d, rfl⟩ := Nat.exists_eq_add_one.2 (show 0 < d by omega)
    rw [Nested.shown, newlinesWithin_token h.find?, ihi (by omega) h.inside,
      ih (by omega) h.rest]
    simp [Text.newlines, Nested.source]

/-- Taking gives the source and forgets exactly the tokens of the text, if none of them
occurs twice. -/
lemma takeWithin_shown {d : Nat} (hd : r.depth ≤ d) (h : p.Holds r) (once : r.numbers.Nodup) :
    takeWithin d p r.shown = (r.source, p.without r.numbers) := by
  induction r generalizing d p with
  | nil =>
    cases d <;>
      simp [takeWithin, takePieces, Nested.shown, Nested.source, Nested.numbers, Nested.entries,
        pieces]
  | char c hc r ih =>
    rw [Nested.shown, takeWithin_char d p hc, ih hd h once]
    rfl
  | token n i r ihi ih =>
    simp only [Nested.depth] at hd
    obtain ⟨d, rfl⟩ := Nat.exists_eq_add_one.2 (show 0 < d by omega)
    rw [Nested.numbers_token, List.nodup_cons, List.nodup_append] at once
    obtain ⟨hn, hi, hr, hdisj⟩ := once
    rw [List.mem_append, not_or] at hn
    have hin : (p.without [n]).Holds i :=
      h.inside.without fun m hm he => hn.1 (List.mem_singleton.1 he ▸ hm)
    have hrest : ((p.without [n]).without i.numbers).Holds r := by
      refine (h.rest.without fun m hm he => ?_).without fun m hm hmi => hdisj m hmi m hm rfl
      exact hn.2 (List.mem_singleton.1 he ▸ hm)
    rw [Nested.shown, takeWithin_token h.find?, ihi (by omega) hin hi]
    simp only
    rw [ih (by omega) hrest hr, without_without, without_without,
      Nested.numbers_token]
    rfl

/-! ### Texts with each token once -/

/-- Such a text lies no deeper than a table that holds it is long. -/
lemma Holds.depth_le (h : p.Holds r) (once : r.numbers.Nodup) : r.depth ≤ p.size := by
  have hsubset : r.entries ⊆ p.entries := fun e he => mem_entries (h e he)
  exact r.depth_le_length.trans (once.of_map.subperm hsubset).length_le

lemma Holds.decode (h : p.Holds r) (once : r.numbers.Nodup) : p.decode r.shown = r.source :=
  decodeWithin_shown (h.depth_le once) h

lemma Holds.take (h : p.Holds r) (once : r.numbers.Nodup) :
    p.take r.shown = (r.source, p.without r.numbers) :=
  takeWithin_shown (h.depth_le once) h once

/-- A text without tokens is its own decoding. -/
lemma decode_of_not_mem (p : Placeholders) {t : Text} (h : tokenOpening ∉ t) : p.decode t = t := by
  have hholds : p.Holds (Nested.ofText t h) := by
    simp [Holds]
  have honce : (Nested.ofText t h).numbers.Nodup := by
    simp [Nested.numbers]
  simpa using hholds.decode honce

lemma take_of_not_mem (p : Placeholders) {t : Text} (h : tokenOpening ∉ t) :
    p.take t = (t, p) := by
  have hholds : p.Holds (Nested.ofText t h) := by
    simp [Holds]
  have honce : (Nested.ofText t h).numbers.Nodup := by
    simp [Nested.numbers]
  simpa [Nested.numbers] using hholds.take honce

/-- A token is decoded to the text that it stands for. -/
lemma decode_token {v : Text} (h : p.find? n = some v) (hv : tokenOpening ∉ v) :
    p.decode (token n) = v := by
  have hholds : p.Holds (.token n (.ofText v hv) .nil) := by
    simp [Holds, Nested.entries, h]
  have honce : (Nested.token n (.ofText v hv) .nil).numbers.Nodup := by
    simp [Nested.numbers, Nested.entries]
  simpa [Nested.shown, Nested.source] using hholds.decode honce

end Placeholders

end HtmlTemplate
