import HtmlTemplate.Text.Numeral

/-!
Placeholders: numbered tokens that stand for spans of a text, and a table that remembers which.
A span may hold tokens itself, so decoding goes on inside it; a table of `n` entries that do not
refer to each other in a circle is never more than `n` spans deep.
-/

namespace HtmlTemplate

/-- The character every token begins with. -/
def tokenOpening : Char := Char.ofNat 0xE000

/-- The character every token ends with. -/
def tokenClosing : Char := Char.ofNat 0xE001

/-- A text taken apart for decoding: single characters, and what has the form of a token. -/
inductive Piece where
  | char (c : Char)
  | token (t : Text)
  deriving DecidableEq

/-- The text up to and including the next closing character, and the text after it. -/
def closeToken? : Text → Option (Text × Text)
  | [] => none
  | c :: t =>
    if c = tokenClosing then some ([c], t)
    else (closeToken? t).map fun (a, b) => (c :: a, b)

theorem append_closeToken? {t a b : Text} (h : closeToken? t = some (a, b)) : a ++ b = t := by
  induction t generalizing a with
  | nil => simp [closeToken?] at h
  | cons c t ih =>
    unfold closeToken? at h
    split at h
    · simp only [Option.some.injEq, Prod.mk.injEq] at h
      simp [← h.1, ← h.2]
    · obtain ⟨⟨x, y⟩, hx, he⟩ := Option.map_eq_some_iff.1 h
      simp only [Prod.mk.injEq] at he
      obtain ⟨rfl, rfl⟩ := he
      simp [ih hx]

/-- An opening character makes a token with all that follows it up to the next closing
character; without one it is an ordinary character. -/
def pieces : Text → List Piece
  | [] => []
  | c :: t =>
    if c = tokenOpening then
      match h : closeToken? t with
      | some (body, rest) =>
        have : rest.length ≤ t.length := by
          have := congrArg List.length (append_closeToken? h)
          simp only [List.length_append] at this
          omega
        .token (c :: body) :: pieces rest
      | none => .char c :: pieces t
    else .char c :: pieces t
termination_by t => t.length

/-- The spans that tokens stand for, newest first, and how many tokens were ever given out. -/
structure Placeholders where
  entries : List (Nat × Text)
  issued : Nat

namespace Placeholders

def empty : Placeholders := ⟨[], 0⟩

/-- The `n`-th token. -/
def token (n : Nat) : Text := tokenOpening :: (Text.numeral n ++ [tokenClosing])

/-- The number of a token. -/
def number? (t : Text) : Option Nat :=
  let n := Text.digitsValue (t.filter Char.isDigit)
  if t = token n then some n else none

/-- Remembers a span and gives the next token for it. -/
def insert (p : Placeholders) (span : Text) : Text × Placeholders :=
  (token (p.issued + 1), ⟨(p.issued + 1, span) :: p.entries, p.issued + 1⟩)

def find? (p : Placeholders) (n : Nat) : Option Text := p.entries.lookup n

/-- The span that a token stands for. -/
def get? (p : Placeholders) (t : Text) : Option Text := (number? t).bind p.find?

/-- Forgets the span that a token stands for. -/
def erase (p : Placeholders) (t : Text) : Placeholders :=
  match number? t with
  | some n => { p with entries := p.entries.filter fun e => e.1 ≠ n }
  | none => p

def size (p : Placeholders) : Nat := p.entries.length

/-- Decodes a text whose tokens lie at most `depth` deep inside each other's spans. -/
def decodeWithin (p : Placeholders) : (depth : Nat) → Text → Text
  | 0, t => t
  | depth + 1, t =>
    (pieces t).flatMap fun
      | .char c => [c]
      | .token k =>
        match p.get? k with
        | some span => decodeWithin p depth span
        | none => k

/-- The text with every known token replaced by its decoded span. -/
def decode (p : Placeholders) (t : Text) : Text := p.decodeWithin p.size t

/-- Replaces tokens from the left and forgets each one that is replaced; `inside` treats the
span that one stood for. -/
def takePieces (inside : Placeholders → Text → Text × Placeholders) :
    Placeholders → List Piece → Text × Placeholders
  | p, [] => ([], p)
  | p, .char c :: ps =>
    let (t, p) := takePieces inside p ps
    (c :: t, p)
  | p, .token k :: ps =>
    match p.get? k with
    | some span =>
      let (a, p) := inside (p.erase k) span
      let (b, p) := takePieces inside p ps
      (a ++ b, p)
    | none =>
      let (t, p) := takePieces inside p ps
      (k ++ t, p)

def takeWithin : (depth : Nat) → Placeholders → Text → Text × Placeholders
  | 0, p, t => (t, p)
  | depth + 1, p, t => takePieces (takeWithin depth) p (pieces t)

/-- Decodes a text and forgets every token that it resolves. -/
def take (p : Placeholders) (t : Text) : Text × Placeholders := takeWithin p.size p t

/-- Counts line feeds piece by piece; `inside` counts those of a span that a token stands for. -/
def newlinesBy (inside : Text → Nat) (p : Placeholders) : List Piece → Nat
  | [] => 0
  | .char c :: ps => (if c = '\n' then 1 else 0) + newlinesBy inside p ps
  | .token k :: ps =>
    (match p.get? k with
      | some span => inside span
      | none => 0) + newlinesBy inside p ps

/-- Counts line feeds in a text whose tokens lie at most `depth` deep. -/
def newlinesWithin (p : Placeholders) : (depth : Nat) → Text → Nat
  | 0, t => p.newlinesBy (fun _ => 0) (pieces t)
  | depth + 1, t => p.newlinesBy (newlinesWithin p depth) (pieces t)

/-- The line feeds of a text and of the spans that its tokens stand for. What only has the form
of a token counts for nothing. -/
def newlines (p : Placeholders) (t : Text) : Nat := p.newlinesWithin p.size t

end Placeholders

end HtmlTemplate
