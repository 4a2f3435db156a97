import HtmlTemplate.Decimal.Reading
import HtmlTemplate.Expr.Token
import HtmlTemplate.Text.Letter
import HtmlTemplate.Text.Space

/-!
Cutting an expression into tokens. At each place the longest symbol wins, and a question mark
with a point is one only if no digit follows, so that `a?.5:1` keeps its meaning.
-/

namespace HtmlTemplate

/-- What can be wrong with the characters of an expression. -/
inductive LexFault where
  | unexpected (c : Char)
  | invalidNumber (t : Text)
  | unterminatedEscape
  | unterminatedString
  deriving DecidableEq

def LexFault.message : LexFault → Text
  | unexpected c => "Unexpected character: '" ++ [c] ++ ['\'']
  | invalidNumber t => "Invalid number: '" ++ t ++ ['\'']
  | unterminatedEscape => "Unterminated escape sequence"
  | unterminatedString => "Unterminated string"

structure LexError where
  fault : LexFault
  extent : Extent
  deriving DecidableEq

def LexError.message (e : LexError) : Text := e.fault.message

def LexError.display (e : LexError) : Text :=
  "Expression lexer error at position " ++ Text.numeral e.extent.start ++ ": " ++ e.message

namespace Lexer

/-- All symbols; one that begins like another stands after it if it is shorter. -/
def symbols : List (Text × Token) := [
  ("===", .strictEqual), ("!==", .strictNotEqual), ("==", .equal), ("!=", .notEqual),
  ("&&", .and), ("||", .or), ("<=", .lessEqual), (">=", .greaterEqual), ("??", .coalesce),
  ("?.", .optionalDot), ("+", .plus), ("-", .minus), ("*", .star), ("/", .slash),
  ("%", .percent), ("!", .not), ("<", .less), (">", .greater), ("(", .leftParen),
  (")", .rightParen), ("[", .leftBracket), ("]", .rightBracket), (['{'], .leftBrace),
  (['}'], .rightBrace), (".", .dot), (",", .comma), (":", .colon), ("?", .question)]

def startsWithDigit (t : Text) : Bool :=
  match t with
  | c :: _ => c.isDigit
  | [] => false

/-- The symbol at the front of a text, and its width. -/
def symbol? (t : Text) : Option (Token × Nat) :=
  symbols.findSome? fun (s, token) =>
    match Text.after? s t with
    | some rest =>
      if token = .optionalDot ∧ startsWithDigit rest then none else some (token, s.length)
    | none => none

def startsWord (c : Char) : Bool := c.isAlpha || c == '_' || c == '$'

def continuesWord (c : Char) : Bool := Text.isAlphanumeric c || c == '_' || c == '$'

def continuesNumber (c : Char) : Bool := c.isDigit || c == '.'

/-- The token that a word is. -/
def wordToken (w : Text) : Token :=
  if w = ("true" : Text) then .boolean true
  else if w = ("false" : Text) then .boolean false
  else if w = ("null" : Text) then .null
  else if w = ("undefined" : Text) then .undefined
  else .identifier w

/-- What a character after a backslash stands for in a string with this quote. A backslash that
means nothing stays. -/
def unescape (quote c : Char) : Text :=
  if c = 'n' then ['\n']
  else if c = 't' then ['\t']
  else if c = 'r' then ['\r']
  else if c = '\\' ∨ c = quote then [c]
  else ['\\', c]

/-- The rest of a string after `width` characters: its value, kept in `value` newest character
first so far, and its width. -/
def stringRest (quote : Char) : (value : Text) → (width : Nat) → Text →
    Except (LexFault × Nat) (Token × Nat)
  | _, width, [] => .error (.unterminatedString, width)
  | value, width, c :: t =>
    if c = quote then .ok (.string value.reverse, width + 1)
    else if c = '\\' then
      match t with
      | [] => .error (.unterminatedEscape, width + 1)
      | d :: t => stringRest quote ((unescape quote d).reverse ++ value) (width + 2) t
    else stringRest quote (c :: value) (width + 1) t

/-- The token that begins with `c`, and its width; for an error, the width it is about. -/
def scan (c : Char) (t : Text) : Except (LexFault × Nat) (Token × Nat) :=
  if c.isDigit || (c == '.' && startsWithDigit t) then
    let digits := c :: t.takeWhile continuesNumber
    match Double.unsigned? false digits with
    | some x => .ok (.number x, digits.length)
    | none => .error (.invalidNumber digits, digits.length)
  else if c == '\'' || c == '"' then stringRest c [] 1 t
  else if startsWord c then
    let w := c :: t.takeWhile continuesWord
    .ok (wordToken w, w.length)
  else
    match symbol? (c :: t) with
    | some found => .ok found
    | none => .error (.unexpected c, 1)

/-- The tokens of a text that begins at `place`, with the end of the text as the last one. -/
def lexFrom (place : Nat) : Text → Except LexError (List Lexeme)
  | [] => .ok [⟨.eof, place, place⟩]
  | c :: t =>
    if Text.isSpace c then lexFrom (place + 1) t
    else
      match scan c t with
      | .error (fault, width) => .error ⟨fault, place, place + width⟩
      | .ok (token, width) =>
        have : (t.drop (width - 1)).length < (c :: t).length := by
          simp only [List.length_drop, List.length_cons]
          omega
        (lexFrom (place + width) (t.drop (width - 1))).map (⟨token, place, place + width⟩ :: ·)
termination_by t => t.length

/-- The tokens of an expression. -/
def lex (source : Text) : Except LexError (List Lexeme) := lexFrom 0 source

end Lexer

end HtmlTemplate
