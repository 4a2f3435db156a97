import HtmlTemplate.Text.Numeral

/-!
Tokens of the expression language, and where they stand. Places count characters.
-/

namespace HtmlTemplate

/-- From the character at `start` up to the one before `stop`. -/
structure Extent where
  start : Nat
  stop : Nat
  deriving DecidableEq

inductive Token where
  | number (x : Float)
  | string (s : Text)
  | boolean (b : Bool)
  | null
  | undefined
  | identifier (name : Text)
  | plus
  | minus
  | star
  | slash
  | percent
  | equal
  | notEqual
  | strictEqual
  | strictNotEqual
  | less
  | greater
  | lessEqual
  | greaterEqual
  | and
  | or
  | not
  | coalesce
  | leftParen
  | rightParen
  | leftBracket
  | rightBracket
  | leftBrace
  | rightBrace
  | dot
  | comma
  | colon
  | question
  | optionalDot
  | eof
  deriving DecidableEq

namespace Token

/-- What error messages call a token. -/
def name : Token → Text
  | number _ => "Number"
  | string _ => "String"
  | boolean _ => "Boolean"
  | null => "Null"
  | undefined => "Undefined"
  | identifier _ => "Identifier"
  | plus => "Plus"
  | minus => "Minus"
  | star => "Star"
  | slash => "Slash"
  | percent => "Percent"
  | equal => "EqEq"
  | notEqual => "NotEq"
  | strictEqual => "StrictEq"
  | strictNotEqual => "StrictNotEq"
  | less => "Lt"
  | greater => "Gt"
  | lessEqual => "Lte"
  | greaterEqual => "Gte"
  | and => "And"
  | or => "Or"
  | not => "Not"
  | coalesce => "QuestionQuestion"
  | leftParen => "LParen"
  | rightParen => "RParen"
  | leftBracket => "LBracket"
  | rightBracket => "RBracket"
  | leftBrace => "LBrace"
  | rightBrace => "RBrace"
  | dot => "Dot"
  | comma => "Comma"
  | colon => "Colon"
  | question => "Question"
  | optionalDot => "OptionalChain"
  | eof => "Eof"

end Token

/-- A token and where it stands. -/
structure Lexeme where
  token : Token
  extent : Extent
  deriving DecidableEq

end HtmlTemplate
