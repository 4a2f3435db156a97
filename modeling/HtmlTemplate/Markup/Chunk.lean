import HtmlTemplate.Text.Space

/-!
Text with expressions in double braces. An expression has at least one character and ends at
the first closing braces after it; once one has no end, all the rest is literal.
-/

namespace HtmlTemplate

/-- A part of a text: literal, or what stands between double braces. -/
inductive Chunk where
  | literal (t : Text)
  | expression (body : Text)
  deriving DecidableEq

def openBraces : Text := ['{', '{']

def closeBraces : Text := ['}', '}']

namespace Chunk

/-- The text that a chunk is read from. -/
def source : Chunk → Text
  | literal t => t
  | expression body => openBraces ++ body ++ closeBraces

/-- The first expression of a text: what is before it, its body, and what is after it. -/
def first? (t : Text) : Option (Text × Text × Text) :=
  match Text.cut? openBraces t with
  | some (before, c :: t) =>
    match Text.cut? closeBraces t with
    | some (body, rest) => some (before, c :: body, rest)
    | none => none
  | _ => none

theorem append_first? {t a b c : Text} (h : first? t = some (a, b, c)) :
    a ++ (expression b).source ++ c = t := by
  unfold first? at h
  split at h
  · next before x u hu =>
    split at h
    · next body rest hr =>
      simp only [Option.some.injEq, Prod.mk.injEq] at h
      obtain ⟨rfl, rfl, rfl⟩ := h
      rw [← Text.append_cut? hu, ← Text.append_cut? hr]
      simp [source]
    · simp at h
  · simp at h

/-- A text as chunks. -/
def chunks (t : Text) : List Chunk :=
  match h : first? t with
  | none => [literal t]
  | some (before, body, rest) =>
    have : rest.length < t.length := by
      have := congrArg List.length (append_first? h)
      simp only [source, openBraces, List.length_append, List.length_cons] at this
      omega
    literal before :: expression body :: chunks rest
termination_by t.length

end Chunk

end HtmlTemplate
