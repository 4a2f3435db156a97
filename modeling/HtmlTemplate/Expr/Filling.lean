import HtmlTemplate.Expr.Memo
import HtmlTemplate.Markup.Chunk

/-!
Filling in expressions. What stands between double braces is replaced by the text of its value,
in which angle brackets are escaped unless raw text is wanted.
-/

namespace HtmlTemplate

/-- A character of a value, unable to open or close a tag. -/
def escapeMarkupChar (c : Char) : Text :=
  if c = '<' then "&lt;" else if c = '>' then "&gt;" else [c]

def escapeMarkup (t : Text) : Text := t.flatMap escapeMarkupChar

/-- The text of a value as it is filled in. -/
def filling (raw : Bool) (v : Json) : Text := if raw then v.display else escapeMarkup v.display

/-- What a chunk turns into. -/
def fillChunk (c : Context) (raw : Bool) : Chunk → Evaluation Text
  | .literal t => pure t
  | .expression body => do return filling raw (← evaluate c body)

/-- A text with the values of its expressions filled in, from the left. -/
def fillIn (c : Context) (raw : Bool) (t : Text) : Evaluation Text := do
  return (← (Chunk.chunks t).mapM (fillChunk c raw)).flatten

/-- What is written in a template for literal opening braces. -/
def literalOpenBraces : Text := ['{', '!', '{']

/-- What is written in a template for literal closing braces. -/
def literalCloseBraces : Text := ['}', '!', '}']

/-- Puts double braces where literal ones are meant. -/
def restoreBraces (t : Text) : Text :=
  Text.replace literalCloseBraces closeBraces (Text.replace literalOpenBraces openBraces t)

/-- The mark that the time of rendering is put in place of. -/
def timestampMark : Text := ['@', '{'] ++ "timestamp" ++ ['}', '@']

end HtmlTemplate
