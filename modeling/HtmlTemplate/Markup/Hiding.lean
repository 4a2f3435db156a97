import HtmlTemplate.Markup.Chunk
import HtmlTemplate.Markup.Placeholder

/-!
What must be hidden from the tag scanner. Four passes in turn put placeholders for backslash
pairs, whole style and script elements, expressions in braces and quoted attribute values; a
pass cuts its text into spans, and hiding treats the spans of all passes alike.
-/

namespace HtmlTemplate

/-- A span of a text: shown as it is, or hidden with one placeholder for each of its rows. -/
inductive Span where
  | shown (t : Text)
  | hidden (rows : List Text)
  deriving DecidableEq

namespace Span

/-- The text that a span covers. -/
def source : Span → Text
  | shown t => t
  | hidden rows => Text.unrows rows

/-- A backslash and the character after it, unless that one ends the line. -/
def backslashes : Text → List Span
  | [] => []
  | [c] => [shown [c]]
  | c :: d :: t =>
    if c = '\\' ∧ d ≠ '\n' ∧ d ≠ '\r' then hidden [[c, d]] :: backslashes t
    else shown [c] :: backslashes (d :: t)

/-- The elements whose content is no markup. -/
def rawElements : List Text := ["style", "script"]

/-- What follows `p` in any case of ASCII letters; `p` is in lower case. -/
def afterAnyCase? (p t : Text) : Option Text :=
  if (t.take p.length).map Char.toLower = p then some (t.drop p.length) else none

/-- What follows the first occurrence of `p` in any case of ASCII letters. -/
def cutAnyCase? (p : Text) : Text → Option (Text × Text)
  | [] => none
  | c :: t =>
    match afterAnyCase? p (c :: t) with
    | some rest => some ((c :: t).take p.length, rest)
    | none => (cutAnyCase? p t).map fun (a, b) => (c :: a, b)

/-- The characters that may stand right after the name of a raw element. -/
def endsRawName (c : Char) : Bool :=
  c == '>' || c == '/' || c == ' ' || c == '\t' || c == '\r' || c == '\n'

/-- The raw element called `name` that begins with a text, up to its closing tag, and the rest.
At least one character stands between its name and its closing tag. -/
def rawElementNamed? (name t : Text) : Option (Text × Text) :=
  match afterAnyCase? ('<' :: name) t with
  | some (d :: body) =>
    if endsRawName d then
      (cutAnyCase? (('<' :: '/' :: name) ++ ['>']) body).map fun (a, rest) =>
        (t.take (name.length + 1) ++ d :: a, rest)
    else none
  | _ => none

/-- The raw element at the front of a text. -/
def rawElement? (t : Text) : Option (Text × Text) :=
  rawElements.findSome? fun name => rawElementNamed? name t

theorem append_afterAnyCase? {p t rest : Text} (h : afterAnyCase? p t = some rest) :
    t.take p.length ++ rest = t := by
  unfold afterAnyCase? at h
  split at h
  · simp only [Option.some.injEq] at h
    rw [← h, List.take_append_drop]
  · simp at h

theorem append_cutAnyCase? {p t a b : Text} (h : cutAnyCase? p t = some (a, b)) : a ++ b = t := by
  induction t generalizing a with
  | nil => simp [cutAnyCase?] at h
  | cons c t ih =>
    unfold cutAnyCase? at h
    split at h
    · next rest hr =>
      simp only [Option.some.injEq, Prod.mk.injEq] at h
      rw [← h.1, ← h.2, append_afterAnyCase? hr]
    · obtain ⟨⟨x, y⟩, hx, he⟩ := Option.map_eq_some_iff.1 h
      simp only [Prod.mk.injEq] at he
      obtain ⟨rfl, rfl⟩ := he
      simp [ih hx]

theorem append_rawElementNamed? {name t a b : Text} (h : rawElementNamed? name t = some (a, b)) :
    a ++ b = t ∧ a ≠ [] := by
  unfold rawElementNamed? at h
  split at h
  · next d body hd =>
    split at h
    · obtain ⟨⟨x, y⟩, hx, he⟩ := Option.map_eq_some_iff.1 h
      simp only [Prod.mk.injEq] at he
      have h1 := append_afterAnyCase? hd
      simp only [List.length_cons] at h1
      refine ⟨?_, by simp [← he.1]⟩
      rw [← he.1, ← he.2, List.append_assoc, List.cons_append, append_cutAnyCase? hx, h1]
    · simp at h
  · simp at h

theorem append_rawElement? {t a b : Text} (h : rawElement? t = some (a, b)) :
    a ++ b = t ∧ a ≠ [] := by
  obtain ⟨name, _, hn⟩ := List.exists_of_findSome?_eq_some h
  exact append_rawElementNamed? hn

theorem length_rawElement?_lt {t a b : Text} (h : rawElement? t = some (a, b)) :
    b.length < t.length := by
  obtain ⟨h1, h2⟩ := append_rawElement? h
  have h3 := congrArg List.length h1
  have h4 := List.length_pos_iff.2 h2
  simp only [List.length_append] at h3
  omega

/-- Whole style and script elements. -/
def rawText : Text → List Span
  | [] => []
  | c :: t =>
    match h : rawElement? (c :: t) with
    | some (element, rest) =>
      have : rest.length < (c :: t).length := length_rawElement?_lt h
      hidden (Text.rows element) :: rawText rest
    | none => shown [c] :: rawText t
termination_by t => t.length
decreasing_by
  · assumption
  · exact Nat.lt_succ_self _

/-- Expressions with their braces. -/
def expressions (t : Text) : List Span :=
  (Chunk.chunks t).map fun
    | .literal t => shown t
    | .expression body => hidden (Text.rows (Chunk.expression body).source)

def isQuote (c : Char) : Bool := c == '"' || c == '\''

/-- The quoted value at the front of a text: the white space before it, the quote, the value,
and what follows its closing quote. -/
def quotedValue? (t : Text) : Option (Text × Char × Text × Text) :=
  match t.dropWhile Text.isSpace with
  | [] => none
  | q :: u =>
    if isQuote q then
      match u.dropWhile (· != q) with
      | [] => none
      | _ :: rest => some (t.takeWhile Text.isSpace, q, u.takeWhile (· != q), rest)
    else none

theorem append_quotedValue? {t space value rest : Text} {q : Char}
    (h : quotedValue? t = some (space, q, value, rest)) :
    ∃ q', space ++ q :: value ++ q' :: rest = t := by
  unfold quotedValue? at h
  split at h
  · simp at h
  · next q₁ u hu =>
    split at h
    · split at h
      · simp at h
      · next q' rest₁ hv =>
        simp only [Option.some.injEq, Prod.mk.injEq] at h
        obtain ⟨rfl, rfl, rfl, rfl⟩ := h
        refine ⟨q', ?_⟩
        rw [List.append_assoc, List.cons_append, ← hv, List.takeWhile_append_dropWhile, ← hu,
          List.takeWhile_append_dropWhile]
    · simp at h

/-- Values in quotes after an equals sign; the quotes stay. -/
def quotedValues : Text → List Span
  | [] => []
  | c :: t =>
    if c = '=' then
      match h : quotedValue? t with
      | some (space, q, value, rest) =>
        have : rest.length < t.length := by
          obtain ⟨q', hq⟩ := append_quotedValue? h
          have := congrArg List.length hq
          simp only [List.length_append, List.length_cons] at this
          omega
        shown (c :: space ++ [q]) :: hidden [value] :: shown [q] :: quotedValues rest
      | none => shown [c] :: quotedValues t
    else shown [c] :: quotedValues t
termination_by t => t.length

end Span

namespace Placeholders

/-- One token for each row. -/
def insertAll : Placeholders → List Text → List Text × Placeholders
  | p, [] => ([], p)
  | p, row :: rows =>
    let (token, p) := p.insert row
    let (tokens, p) := insertAll p rows
    (token :: tokens, p)

/-- The text of the spans, with tokens for the hidden rows and the line feeds between them. -/
def hide : Placeholders → List Span → Text × Placeholders
  | p, [] => ([], p)
  | p, .shown t :: spans =>
    let (u, p) := hide p spans
    (t ++ u, p)
  | p, .hidden rows :: spans =>
    let (tokens, p) := p.insertAll rows
    let (u, p) := hide p spans
    (Text.unrows tokens ++ u, p)

/-- Hides all that the tag scanner must not see. -/
def hideAll (p : Placeholders) (source : Text) : Text × Placeholders :=
  let (t, p) := p.hide (Span.backslashes source)
  let (t, p) := p.hide (Span.rawText t)
  let (t, p) := p.hide (Span.expressions t)
  p.hide (Span.quotedValues t)

end Placeholders

end HtmlTemplate
