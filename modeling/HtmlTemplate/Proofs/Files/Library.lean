import HtmlTemplate.Files.Library
import HtmlTemplate.Proofs.Record

/-!
The texts that can be read.
-/

namespace HtmlTemplate

/-- The texts that a loader has for some path. -/
def Loader.Holds (loader : Loader) (source : Text) : Prop :=
  ∃ path bytes, loader path = .contents bytes ∧ textOfBytes bytes = .ok source

namespace Library

variable {l : Library} {path : Text} {bytes : Bytes} {t : Text}

lemma holds_iff :
    l.loader.Holds t ↔ ∃ path bytes, l.files.get? (Path.normalize path) = some bytes ∧
      textOfBytes bytes = .ok t := by
  have hloader : ∀ path bytes, l.loader path = .contents bytes ↔
      l.files.get? (Path.normalize path) = some bytes := by
    intro path bytes
    unfold loader read
    cases l.files.get? (Path.normalize path) <;> simp
  simp only [Loader.Holds, hloader]

/-- A library holds what was put into it, and what it held before. -/
lemma holds_put (h : (l.put path bytes).loader.Holds t) :
    l.loader.Holds t ∨ textOfBytes bytes = .ok t := by
  obtain ⟨path', bytes', hget, ht⟩ := holds_iff.1 h
  rw [put, Record.get?_set] at hget
  split at hget
  · cases hget
    exact .inr ht
  · exact .inl (holds_iff.2 ⟨path', bytes', hget, ht⟩)

end Library

end HtmlTemplate
