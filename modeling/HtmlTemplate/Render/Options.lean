import HtmlTemplate.Json.Value

/-!
Settings of one rendering.
-/

namespace HtmlTemplate

/-- `cache` keeps parsed templates, `debug` marks what directives render, and `filename` is the
base of inclusions and the name shown in errors. -/
structure Options where
  cache : Bool
  debug : Bool
  filename : Option Text
  deriving DecidableEq

namespace Options

def default : Options := ⟨false, false, none⟩

def flag? : Json → Option Bool
  | .bool b => some b
  | _ => none

def filename? : Json → Option (Option Text)
  | .string s => some (some s)
  | .null => some none
  | _ => none

/-- Reads a setting, or takes the default where there is none. -/
def setting? {α : Type} (read : Json → Option α) (default : α) : Option Json → Option α
  | none => some default
  | some v => read v

/-- Reads settings from an object by their names, or from an array in their order. What is
missing has its default, but nothing may follow the last one. -/
def ofJson? : Json → Option Options
  | .object members => do
    return ⟨← setting? flag? false (Record.get? members "cache"),
      ← setting? flag? false (Record.get? members "debug"),
      ← setting? filename? none (Record.get? members "filename")⟩
  | .array items => do
    if 3 < items.length then failure
    return ⟨← setting? flag? false items[0]?, ← setting? flag? false items[1]?,
      ← setting? filename? none items[2]?⟩
  | _ => none

end Options

end HtmlTemplate
