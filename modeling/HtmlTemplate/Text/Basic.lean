/-!
Text as a list of characters, and the searches and cuts that reading a template is made of.
A cut gives back the text on both sides of what it found, so nothing is lost.
-/

namespace HtmlTemplate

/-- Text is a list of Unicode characters. -/
abbrev Text := List Char

instance : Coe String Text := ⟨String.toList⟩

namespace Text

/-- What follows `p`, if the text begins with `p`. -/
def after? : (p t : Text) → Option Text
  | [], t => some t
  | _ :: _, [] => none
  | a :: p, c :: t => if a = c then after? p t else none

def startsWith (t p : Text) : Bool := (after? p t).isSome

def endsWith (t p : Text) : Bool := startsWith t.reverse p.reverse

/-- The text without `p` at its end, if it ends with `p`. -/
def before? (p t : Text) : Option Text := (after? p.reverse t.reverse).map List.reverse

/-- The search behind `cut?`; the text already passed is kept newest character first. -/
def cutFrom (p passed : Text) : Text → Option (Text × Text)
  | [] => if p = [] then some (passed.reverse, []) else none
  | c :: t =>
    match after? p (c :: t) with
    | some rest => some (passed.reverse, rest)
    | none => cutFrom p (c :: passed) t

/-- The text before and after the first occurrence of `p`. -/
def cut? (p t : Text) : Option (Text × Text) := cutFrom p [] t

theorem append_after? {p t rest : Text} (h : after? p t = some rest) : p ++ rest = t := by
  induction p generalizing t with
  | nil => simpa [after?] using h.symm
  | cons a p ih =>
    cases t with
    | nil => simp [after?] at h
    | cons c t =>
      by_cases hac : a = c
      · simp only [after?, hac, if_true] at h
        simp [hac, ih h]
      · simp [after?, hac] at h

theorem append_cutFrom {p passed t a b : Text} (h : cutFrom p passed t = some (a, b)) :
    a ++ p ++ b = passed.reverse ++ t := by
  induction t generalizing passed with
  | nil =>
    by_cases hp : p = []
    · simp only [cutFrom, hp, if_true, Option.some.injEq, Prod.mk.injEq] at h
      simp [hp, ← h.1, ← h.2]
    · simp [cutFrom, hp] at h
  | cons c t ih =>
    unfold cutFrom at h
    split at h
    · next rest hr =>
      simp only [Option.some.injEq, Prod.mk.injEq] at h
      rw [← h.1, ← h.2, List.append_assoc, append_after? hr]
    · simpa using ih h

/-- A cut loses nothing. -/
theorem append_cut? {p t a b : Text} (h : cut? p t = some (a, b)) : a ++ p ++ b = t := by
  simpa using append_cutFrom h

/-- The replacement behind `replace`: `skip` characters of an occurrence are still to be
passed over, and what is written so far is kept newest character first. -/
def replaceFrom (old new : Text) : (skip : Nat) → (written : Text) → Text → Text
  | _, written, [] => written.reverse
  | skip + 1, written, _ :: t => replaceFrom old new skip written t
  | 0, written, c :: t =>
    if startsWith (c :: t) old then
      replaceFrom old new (old.length - 1) (new.reverse ++ written) t
    else replaceFrom old new 0 (c :: written) t

/-- Every occurrence of `old`, taken from the left without overlap, becomes `new`.
`old` is not empty. -/
def replace (old new t : Text) : Text := replaceFrom old new 0 [] t

/-- Only the first occurrence of `old` becomes `new`. -/
def replaceFirst (old new t : Text) : Text :=
  match cut? old t with
  | some (a, b) => a ++ new ++ b
  | none => t

theorem length_dropWhile_le (p : Char → Bool) (t : Text) : (t.dropWhile p).length ≤ t.length := by
  induction t with
  | nil => simp
  | cons c t ih =>
    by_cases h : p c
    · simp only [List.dropWhile_cons_of_pos h, List.length_cons]
      omega
    · simp [List.dropWhile_cons_of_neg h]

/-- The pieces between the characters that satisfy `p`; there is always one more piece than
there are such characters. -/
def splitAt (p : Char → Bool) (t : Text) : List Text :=
  t.foldr (fun c pieces =>
    if p c then [] :: pieces
    else match pieces with
      | [] => [[c]]
      | w :: ws => (c :: w) :: ws) [[]]

/-- The pieces of `t` put together with `sep` between them. -/
def joinWith (sep : Text) (pieces : List Text) : Text := sep.intercalate pieces

/-- The pieces between line feeds. -/
def rows (t : Text) : List Text := splitAt (· == '\n') t

def unrows (ls : List Text) : Text := joinWith ['\n'] ls

/-- The number of line feeds. -/
def newlines (t : Text) : Nat := t.count '\n'

/-- The lines of a text: a line feed ends a line, a carriage return right before it belongs to
the ending, and nothing follows the last ending unless text does. -/
def lines (t : Text) : List Text :=
  match (rows t).reverse with
  | [] => []
  | last :: ended =>
    (ended.map fun l => (before? ['\r'] l).getD l).reverse ++ if last = [] then [] else [last]

/-- The order of texts by their first different characters; a text comes before its longer
continuations. -/
def order : Text → Text → Ordering
  | [], [] => .eq
  | [], _ :: _ => .lt
  | _ :: _, [] => .gt
  | a :: s, b :: t => if a = b then order s t else compare a.toNat b.toNat

/-- `a` repeated `n` times. -/
def repeated (n : Nat) (a : Char) : Text := List.replicate n a

end Text

end HtmlTemplate
