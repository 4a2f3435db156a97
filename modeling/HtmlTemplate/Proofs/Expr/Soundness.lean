import HtmlTemplate.Proofs.Expr.Grammar
import HtmlTemplate.Proofs.Expr.Reading

/-!
Whatever the parser reads derives from the grammar.

All rules are shown together by induction on the steps. The loop over the operators keeps what it
has read so far on a level at least as tight as the one asked for, and the next operator is never
tighter than the level allows.
-/

namespace HtmlTemplate

namespace Lexemes

/-- The tokens `us` stand before `ls'`. -/
def Took (ls : Lexemes) (us : List Token) (ls' : Lexemes) : Prop :=
  ls.map Lexeme.token = us ++ ls'.map Lexeme.token ∧ Ended ls'

variable {ls ms ls' : Lexemes} {us vs : List Token} {t : Token}

lemma Took.refl (h : Ended ls) : Took ls [] ls := ⟨rfl, h⟩

lemma Took.append (h : Took ls us ms) (h' : Took ms vs ls') : Took ls (us ++ vs) ls' :=
  ⟨by rw [h.1, h'.1, List.append_assoc], h'.2⟩

lemma Took.next (h : Ended ls) (ht : ls.next.token = t) (hn : t ≠ .eof) : Took ls [t] ls.rest := by
  obtain ⟨heq, hr⟩ := h.eq_cons (ht ▸ hn)
  refine ⟨?_, hr⟩
  rw [← ht, List.singleton_append, ← List.map_cons, ← heq]

lemma Took.snoc (h : Took ls us ms) (ht : ms.next.token = t) (hn : t ≠ .eof) :
    Took ls (us ++ [t]) ms.rest :=
  h.append (.next h.2 ht hn)

end Lexemes

open Lexemes

lemma Token.slack_length (t : Token) : t.Slack Grammar.levels.length := by
  intro op power h
  obtain ⟨level, rfl, hop⟩ := Grammar.binaryOp?_eq_some_iff.1 h
  exact hop.level_lt

/-- What derives from a tighter level derives from a looser one. -/
lemma Derives.mono {j k : Nat} {us : List Token} {a : Expr} (h : Derives (.binary k) us a)
    (hjk : j ≤ k) : Derives (.binary j) us a := by
  induction hjk with
  | refl => exact h
  | step _ ih => exact ih (.tighter h)

namespace Parser

/-- What a rule reads within some steps derives from its category. -/
structure Sound (steps : Nat) : Prop where
  ternary : ∀ {ls e ls'}, Ended ls → Reads (ternary steps) ls e ls' →
    ∃ us, Took ls us ls' ∧ Derives .ternary us e.bare
  binary : ∀ {least ls e ls'}, least ≤ Grammar.levels.length → Ended ls →
    Reads (binary steps least) ls e ls' →
    ∃ us, Took ls us ls' ∧ ls'.next.token.Slack least ∧ Derives (.binary least) us e.bare
  binaryRest : ∀ {least level left us ls e ls'}, least ≤ level →
    Derives (.binary level) us left.bare → ls.next.token.Slack (level + 1) → Ended ls →
    Reads (binaryRest steps least left) ls e ls' →
    ∃ vs, Took ls vs ls' ∧ ls'.next.token.Slack least ∧ Derives (.binary least) (us ++ vs) e.bare
  unary : ∀ {ls e ls'}, Ended ls → Reads (unary steps) ls e ls' →
    ∃ us, Took ls us ls' ∧ Derives .unary us e.bare
  links : ∀ {object us ls e ls'}, Derives .chain us object.bare → Ended ls →
    Reads (links steps object) ls e ls' →
    ∃ vs, Took ls vs ls' ∧ Derives .chain (us ++ vs) e.bare
  index : ∀ {object optional ls e ls'}, Ended ls → Reads (index steps object optional) ls e ls' →
    ∃ us key, Took ls (.leftBracket :: us ++ [.rightBracket]) ls' ∧ Derives .ternary us key ∧
      e.bare = .index Expr.nowhere object.bare optional key
  primary : ∀ {ls e ls'}, Ended ls → Reads (primary steps) ls e ls' →
    ∃ us, Took ls us ls' ∧ Derives .primary us e.bare
  items : ∀ {ls es ls'}, Ended ls → Reads (items steps) ls es ls' →
    ∃ us, Took ls us ls' ∧ Derives .items us (Expr.bareItems es)
  properties : ∀ {ls ps ls'}, Ended ls → Reads (properties steps) ls ps ls' →
    ∃ us, Took ls us ls' ∧ Derives .properties us (Expr.bareProperties ps)
  property : ∀ {ls p ls'}, Ended ls → Reads (property steps) ls p ls' →
    ∃ us, Took ls us ls' ∧ Derives .property us (Expr.bareProperty p)

variable {steps : Nat} {ls ls' : Lexemes} {us : List Token} {e : Expr}

lemma Sound.zero : Sound 0 := by
  constructor <;> intros <;>
    simp only [Parser.ternary, Parser.binary, Parser.binaryRest, Parser.unary, Parser.links,
      Parser.index, Parser.primary, Parser.items, Parser.properties, Parser.property,
      not_reads_exhausted] at *

lemma Sound.ternary_succ (ih : Sound steps) (he : Ended ls)
    (h : Reads (Parser.ternary (steps + 1)) ls e ls') :
    ∃ us, Took ls us ls' ∧ Derives .ternary us e.bare := by
  simp only [Parser.ternary, reads_bind, reads_peek] at h
  obtain ⟨a, ms, ha, l, ms', ⟨rfl, rfl⟩, h⟩ := h
  obtain ⟨us, hus, -, da⟩ := ih.binary (Nat.zero_le _) he ha
  split at h
  · rename_i hq
    simp only [reads_bind, reads_advance, reads_expect, reads_pure] at h
    obtain ⟨-, ms', rfl, b, ms', hb, l, ms', ⟨hcolon, rfl, rfl⟩, c, ms', hc, rfl, rfl⟩ := h
    have hus := hus.snoc hq (by simp)
    obtain ⟨vs, hvs, db⟩ := ih.ternary hus.2 hb
    have hvs := hvs.snoc hcolon (by simp)
    obtain ⟨ws, hws, dc⟩ := ih.ternary hvs.2 hc
    refine ⟨us ++ .question :: vs ++ .colon :: ws, ?_, .conditional da db dc⟩
    simpa using (hus.append hvs).append hws
  · obtain ⟨rfl, rfl⟩ := reads_pure.1 h
    exact ⟨us, hus, .single da⟩

lemma Sound.binary_succ (ih : Sound steps) {least : Nat} (hl : least ≤ Grammar.levels.length)
    (he : Ended ls) (h : Reads (Parser.binary (steps + 1) least) ls e ls') :
    ∃ us, Took ls us ls' ∧ ls'.next.token.Slack least ∧ Derives (.binary least) us e.bare := by
  simp only [Parser.binary, reads_bind] at h
  obtain ⟨a, ms, ha, h⟩ := h
  obtain ⟨us, hus, da⟩ := ih.unary he ha
  have hms : ms.next.token.Slack (Grammar.levels.length + 1) := fun op power hop =>
    Nat.le_succ_of_le (ms.next.token.slack_length op power hop)
  obtain ⟨vs, hvs, hs, d⟩ := ih.binaryRest hl (.operand da) hms hus.2 h
  exact ⟨us ++ vs, hus.append hvs, hs, d⟩

lemma Sound.binaryRest_succ (ih : Sound steps) {least level : Nat} {left : Expr}
    (hl : least ≤ level) (da : Derives (.binary level) us left.bare)
    (hs : ls.next.token.Slack (level + 1)) (he : Ended ls)
    (h : Reads (Parser.binaryRest (steps + 1) least left) ls e ls') :
    ∃ vs, Took ls vs ls' ∧ ls'.next.token.Slack least ∧
      Derives (.binary least) (us ++ vs) e.bare := by
  simp only [Parser.binaryRest, reads_bind, reads_peek] at h
  obtain ⟨l, ms, ⟨rfl, rfl⟩, h⟩ := h
  have stop : ls.next.token.Slack least →
      ∃ vs, Took ls vs ls ∧ ls.next.token.Slack least ∧
        Derives (.binary least) (us ++ vs) left.bare :=
    fun hls => ⟨[], .refl he, hls, by simpa using da.mono hl⟩
  split at h
  · rename_i op power hop
    split at h
    · rename_i hp
      obtain ⟨rfl, rfl⟩ := reads_pure.1 h
      exact stop fun op' power' hop' => by
        rw [hop] at hop'
        cases hop'
        exact hp
    · rename_i hp
      simp only [reads_bind, reads_advance] at h
      obtain ⟨-, ms, rfl, b, ms, hb, h⟩ := h
      -- The left side may be taken for one of the operator's own level, whatever it was before.
      have hpl := hs op power hop
      obtain ⟨k, rfl, hk⟩ := Grammar.binaryOp?_eq_some_iff.1 hop
      have hus : Took ls [ls.next.token] ls.rest :=
        .next he rfl fun heof => by simp [heof, Token.binaryOp?] at hop
      obtain ⟨vs, hvs, hms, db⟩ := ih.binary hk.level_lt hus.2 hb
      have dab : Derives (.binary k) (us ++ ls.next.token :: vs)
          (Expr.binary ⟨left.extent.start, b.extent.stop⟩ op left b).bare := by
        rw [Expr.bare]
        exact .operator (da.mono (by omega)) hk db
      obtain ⟨ws, hws, hls', d⟩ := ih.binaryRest (by omega) dab hms hvs.2 h
      refine ⟨_, (hus.append hvs).append hws, hls', ?_⟩
      simpa using d
  · rename_i hop
    obtain ⟨rfl, rfl⟩ := reads_pure.1 h
    exact stop fun op power hop' => by rw [hop] at hop'; cases hop'

lemma Sound.unary_succ (ih : Sound steps) (he : Ended ls)
    (h : Reads (Parser.unary (steps + 1)) ls e ls') :
    ∃ us, Took ls us ls' ∧ Derives .unary us e.bare := by
  simp only [Parser.unary, reads_bind, reads_peek] at h
  obtain ⟨l, ms, ⟨rfl, rfl⟩, h⟩ := h
  split at h
  · rename_i hplus
    simp only [reads_bind, reads_advance] at h
    obtain ⟨-, ms, rfl, h⟩ := h
    have hus := Took.next he hplus (by simp)
    obtain ⟨us, hvs, da⟩ := ih.unary hus.2 h
    exact ⟨.plus :: us, hus.append hvs, .plus da⟩
  · rename_i hnot
    simp only [reads_bind, reads_advance, reads_pure] at h
    obtain ⟨-, ms, rfl, a, ms, h, rfl, rfl⟩ := h
    have hus := Took.next he hnot (by simp)
    obtain ⟨us, hvs, da⟩ := ih.unary hus.2 h
    exact ⟨.not :: us, hus.append hvs, .not da⟩
  · rename_i hminus
    simp only [reads_bind, reads_advance, reads_pure] at h
    obtain ⟨-, ms, rfl, a, ms, h, rfl, rfl⟩ := h
    have hus := Took.next he hminus (by simp)
    obtain ⟨us, hvs, da⟩ := ih.unary hus.2 h
    exact ⟨.minus :: us, hus.append hvs, .minus da⟩
  · simp only [reads_bind] at h
    obtain ⟨a, ms, ha, h⟩ := h
    obtain ⟨us, hus, da⟩ := ih.primary he ha
    obtain ⟨vs, hvs, d⟩ := ih.links (.unlinked da) hus.2 h
    exact ⟨us ++ vs, hus.append hvs, .unsigned d⟩

lemma Sound.links_succ (ih : Sound steps) {object : Expr} (da : Derives .chain us object.bare)
    (he : Ended ls) (h : Reads (Parser.links (steps + 1) object) ls e ls') :
    ∃ vs, Took ls vs ls' ∧ Derives .chain (us ++ vs) e.bare := by
  simp only [Parser.links, reads_bind, reads_peek] at h
  obtain ⟨l, ms, ⟨rfl, rfl⟩, h⟩ := h
  split at h
  · rename_i hdot
    simp only [reads_bind, reads_advance, reads_field] at h
    obtain ⟨-, ms, rfl, o, ms, ⟨name, hname, rfl, rfl⟩, h⟩ := h
    have hname := Grammar.propertyName?_eq_some_iff.1 hname
    have hvs := (Took.next he hdot (by simp)).snoc rfl
      (by rintro heq; rw [heq] at hname; cases hname)
    obtain ⟨ws, hws, d⟩ := ih.links (.field da hname) hvs.2 h
    exact ⟨_, hvs.append hws, by simpa using d⟩
  · rename_i hdot
    simp only [reads_bind, reads_advance, reads_peek] at h
    obtain ⟨-, ms, rfl, l, ms, ⟨rfl, rfl⟩, h⟩ := h
    have hvs := Took.next he hdot (by simp)
    split at h
    · simp only [reads_bind] at h
      obtain ⟨o, ms, ho, h⟩ := h
      obtain ⟨ks, key, hks, dk, ho⟩ := ih.index hvs.2 ho
      have d := Derives.optionalIndex da dk
      rw [← ho] at d
      obtain ⟨ws, hws, d⟩ := ih.links d hks.2 h
      exact ⟨_, (hvs.append hks).append hws, by simpa using d⟩
    · simp only [reads_bind, reads_field] at h
      obtain ⟨o, ms, ⟨name, hname, rfl, rfl⟩, h⟩ := h
      have hname := Grammar.propertyName?_eq_some_iff.1 hname
      have hvs := hvs.snoc rfl (by rintro heq; rw [heq] at hname; cases hname)
      obtain ⟨ws, hws, d⟩ := ih.links (.optionalField da hname) hvs.2 h
      exact ⟨_, hvs.append hws, by simpa using d⟩
  · simp only [reads_bind] at h
    obtain ⟨o, ms, ho, h⟩ := h
    obtain ⟨ks, key, hks, dk, ho⟩ := ih.index he ho
    have d := Derives.index da dk
    rw [← ho] at d
    obtain ⟨ws, hws, d⟩ := ih.links d hks.2 h
    exact ⟨_, hks.append hws, by simpa using d⟩
  · obtain ⟨rfl, rfl⟩ := reads_pure.1 h
    exact ⟨[], .refl he, by simpa using da⟩

lemma Sound.index_succ (ih : Sound steps) {object : Expr} {optional : Bool} (he : Ended ls)
    (h : Reads (Parser.index (steps + 1) object optional) ls e ls') :
    ∃ us key, Took ls (.leftBracket :: us ++ [.rightBracket]) ls' ∧ Derives .ternary us key ∧
      e.bare = .index Expr.nowhere object.bare optional key := by
  simp only [Parser.index, reads_bind, reads_expect, reads_pure] at h
  obtain ⟨-, ms, ⟨hl, -, rfl⟩, k, ms, hk, r, ms, ⟨hr, -, rfl⟩, rfl, rfl⟩ := h
  have hus := Took.next he hl (by simp)
  obtain ⟨vs, hvs, dk⟩ := ih.ternary hus.2 hk
  exact ⟨vs, k.bare, hus.append (hvs.snoc hr (by simp)), dk, by rw [Expr.bare]⟩

lemma Sound.primary_succ (ih : Sound steps) (he : Ended ls)
    (h : Reads (Parser.primary (steps + 1)) ls e ls') :
    ∃ us, Took ls us ls' ∧ Derives .primary us e.bare := by
  simp only [Parser.primary, reads_bind, reads_peek] at h
  obtain ⟨l, ms, ⟨rfl, rfl⟩, h⟩ := h
  split at h
  · rename_i a ha
    simp only [reads_bind, reads_advance, reads_pure] at h
    obtain ⟨-, ms, rfl, rfl, rfl⟩ := h
    refine ⟨_, .next he rfl fun heq => ?_, .literal (.of_literal? ha)⟩
    simp [heq, Token.literal?] at ha
  · split at h
    · rename_i hl
      simp only [reads_bind, reads_advance, reads_expect, reads_pure] at h
      obtain ⟨-, ms, rfl, a, ms, ha, r, ms, ⟨hr, -, rfl⟩, rfl, rfl⟩ := h
      have hus := Took.next he hl (by simp)
      obtain ⟨vs, hvs, da⟩ := ih.ternary hus.2 ha
      refine ⟨_, hus.append (hvs.snoc hr (by simp)), ?_⟩
      rw [Expr.bare_withExtent]
      exact .parens da
    · rename_i hl
      simp only [reads_bind, reads_advance, reads_expect, reads_pure] at h
      obtain ⟨-, ms, rfl, es, ms, hes, r, ms, ⟨hr, -, rfl⟩, rfl, rfl⟩ := h
      have hus := Took.next he hl (by simp)
      obtain ⟨vs, hvs, des⟩ := ih.items hus.2 hes
      exact ⟨_, hus.append (hvs.snoc hr (by simp)), by rw [Expr.bare]; exact .array des⟩
    · rename_i hl
      simp only [reads_bind, reads_advance, reads_expect, reads_pure] at h
      obtain ⟨-, ms, rfl, ps, ms, hps, r, ms, ⟨hr, -, rfl⟩, rfl, rfl⟩ := h
      have hus := Took.next he hl (by simp)
      obtain ⟨vs, hvs, dps⟩ := ih.properties hus.2 hps
      exact ⟨_, hus.append (hvs.snoc hr (by simp)), by rw [Expr.bare]; exact .object dps⟩
    · exact absurd h not_reads_fail
    · exact absurd h not_reads_fail

/-- A row derives as its items and the rest of it do. -/
lemma took_row {α : Type} {close : Token} {one : Parser α} {others : Parser (List α)}
    {as : List α} {D : List Token → α → Prop} {R : List Token → List α → Prop}
    (hone : ∀ {ls a ls'}, Ended ls → Reads one ls a ls' → ∃ us, Took ls us ls' ∧ D us a)
    (hothers : ∀ {ls as ls'}, Ended ls → Reads others ls as ls' → ∃ us, Took ls us ls' ∧ R us as)
    (none : R [] []) (last : ∀ {us a}, D us a → R us [a])
    (more : ∀ {us vs a as}, D us a → R vs as → R (us ++ .comma :: vs) (a :: as)) (he : Ended ls)
    (h : Reads (row close one others) ls as ls') : ∃ us, Took ls us ls' ∧ R us as := by
  rw [reads_row] at h
  split at h
  · obtain ⟨rfl, rfl⟩ := h
    exact ⟨[], .refl he, none⟩
  · obtain ⟨a, ms, ha, h⟩ := h
    obtain ⟨us, hus, da⟩ := hone he ha
    split at h
    · rename_i hcomma
      obtain ⟨as, has, rfl⟩ := h
      have hus := hus.snoc hcomma (by simp)
      obtain ⟨vs, hvs, das⟩ := hothers hus.2 has
      exact ⟨us ++ .comma :: vs, by simpa using hus.append hvs, more da das⟩
    · obtain ⟨rfl, rfl⟩ := h
      exact ⟨us, hus, last da⟩

lemma Sound.items_succ (ih : Sound steps) {es : List Expr} (he : Ended ls)
    (h : Reads (Parser.items (steps + 1)) ls es ls') :
    ∃ us, Took ls us ls' ∧ Derives .items us (Expr.bareItems es) := by
  rw [items_eq_row] at h
  exact took_row (D := fun us e => Derives .ternary us e.bare)
    (R := fun us es => Derives .items us (Expr.bareItems es))
    ih.ternary ih.items .noItems .lastItem .moreItems he h

lemma Sound.properties_succ (ih : Sound steps) {ps : List (Property Expr)} (he : Ended ls)
    (h : Reads (Parser.properties (steps + 1)) ls ps ls') :
    ∃ us, Took ls us ls' ∧ Derives .properties us (Expr.bareProperties ps) := by
  rw [properties_eq_row] at h
  exact took_row (D := fun us p => Derives .property us (Expr.bareProperty p))
    (R := fun us ps => Derives .properties us (Expr.bareProperties ps))
    ih.property ih.properties .noProperties .lastProperty .moreProperties he h

lemma Sound.property_succ (ih : Sound steps) {p : Property Expr} (he : Ended ls)
    (h : Reads (Parser.property (steps + 1)) ls p ls') :
    ∃ us, Took ls us ls' ∧ Derives .property us (Expr.bareProperty p) := by
  simp only [Parser.property, reads_bind, reads_peek] at h
  obtain ⟨l, ms, ⟨rfl, rfl⟩, h⟩ := h
  split at h
  · exact absurd h not_reads_fail
  · rename_i key hkey
    simp only [reads_bind, reads_advance, reads_peek] at h
    obtain ⟨-, ms, rfl, l, ms, ⟨rfl, rfl⟩, h⟩ := h
    have hkey := Grammar.propertyKey?_eq_some_iff.1 hkey
    have hus : Took ls [ls.next.token] ls.rest :=
      .next he rfl (by rintro heq; rw [heq] at hkey; cases hkey)
    split at h
    · rename_i hcolon
      simp only [reads_bind, reads_advance, reads_pure] at h
      obtain ⟨-, ms, rfl, a, ms, ha, rfl, rfl⟩ := h
      have hus := hus.snoc hcolon (by simp)
      obtain ⟨vs, hvs, da⟩ := ih.ternary hus.2 ha
      exact ⟨_, hus.append hvs, .pair hkey da⟩
    · split at h
      · rename_i hname
        obtain ⟨rfl, rfl⟩ := reads_pure.1 h
        rw [hname] at hkey hus
        cases hkey
        exact ⟨_, hus, .shorthand _⟩
      · exact absurd h not_reads_fail

/-- All rules are sound. -/
theorem sound (steps : Nat) : Sound steps := by
  induction steps with
  | zero => exact .zero
  | succ steps ih =>
    exact {
      ternary := ih.ternary_succ
      binary := ih.binary_succ
      binaryRest := ih.binaryRest_succ
      unary := ih.unary_succ
      links := ih.links_succ
      index := ih.index_succ
      primary := ih.primary_succ
      items := ih.items_succ
      properties := ih.properties_succ
      property := ih.property_succ }

end Parser

end HtmlTemplate
