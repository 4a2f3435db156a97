import HtmlTemplate.Text.Numeral

/-!
What a parser reports: a message and the place it is about, both numbered from one.
-/

namespace HtmlTemplate

structure ParseError where
  message : Text
  line : Nat
  column : Nat
  deriving DecidableEq

def ParseError.display (e : ParseError) : Text :=
  "Parse error at line " ++ Text.numeral e.line ++ ", column " ++ Text.numeral e.column ++ ": " ++
    e.message

end HtmlTemplate
