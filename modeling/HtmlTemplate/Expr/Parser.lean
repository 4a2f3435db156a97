import HtmlTemplate.Decimal.Layout
import HtmlTemplate.Expr.Lexer
import HtmlTemplate.Expr.Syntax
import HtmlTemplate.ParseError

/-!
Reading expressions from tokens. Binary operators have powers, and an operand takes in all
operators that bind tighter than the one before it; every other rule reads its own tokens.
-/

namespace HtmlTemplate

/-- Tokens still to be read; the last of them is the end, which is never passed. -/
abbrev Lexemes := List Lexeme

namespace Lexemes

/-- The tokens with an end, if they have none. -/
def ended (ls : Lexemes) : Lexemes :=
  match ls.getLast? with
  | some l => if l.token = .eof then ls else ls ++ [⟨.eof, l.extent.stop, l.extent.stop⟩]
  | none => [⟨.eof, 0, 0⟩]

def next : Lexemes → Lexeme
  | [] => ⟨.eof, 0, 0⟩
  | l :: _ => l

def rest : Lexemes → Lexemes
  | _ :: l :: ls => l :: ls
  | ls => ls

end Lexemes

namespace Token

/-- The operator between two operands, and its power. -/
def binaryOp? : Token → Option (BinaryOp × Nat)
  | coalesce => some (.coalesce, 1)
  | or => some (.or, 2)
  | and => some (.and, 3)
  | equal => some (.equal, 4)
  | notEqual => some (.notEqual, 4)
  | strictEqual => some (.strictEqual, 4)
  | strictNotEqual => some (.strictNotEqual, 4)
  | less => some (.less, 5)
  | greater => some (.greater, 5)
  | lessEqual => some (.lessEqual, 5)
  | greaterEqual => some (.greaterEqual, 5)
  | plus => some (.add, 6)
  | minus => some (.sub, 6)
  | star => some (.mul, 7)
  | slash => some (.div, 7)
  | percent => some (.mod, 7)
  | _ => none

/-- The name that a token is after a point; the words with a meaning of their own are names
there. -/
def propertyName? : Token → Option Text
  | identifier name => some name
  | boolean b => some (if b then "true" else "false")
  | null => some "null"
  | undefined => some "undefined"
  | _ => none

/-- The key that a token is in an object literal. -/
def propertyKey? : Token → Option Text
  | identifier name => some name
  | string s => some s
  | number x => some (Double.display x)
  | _ => none

/-- The operand that a token is by itself. -/
def literal? (e : Extent) : Token → Option Expr
  | number x => some (.number e x)
  | string s => some (.string e s)
  | boolean b => some (.boolean e b)
  | null => some (.null e)
  | undefined => some (.undefined e)
  | identifier name => some (.identifier e name)
  | _ => none

end Token

/-- Reads from the tokens and leaves the rest. -/
abbrev Parser (α : Type) := StateT Lexemes (Except ParseError) α

namespace Parser

def peek : Parser Lexeme := return (← get).next

def advance : Parser Unit := modify Lexemes.rest

/-- Fails at the next token. -/
def fail {α : Type} (message : Text) : Parser α := do
  throw ⟨message, 1, (← peek).extent.start + 1⟩

/-- Reads one token of a kind, which messages call `what`. -/
def expect (token : Token) (what : Text) : Parser Lexeme := do
  let l ← peek
  if l.token = token then
    advance
    return l
  else fail ("Expected " ++ what ++ ", got " ++ l.token.name)

/-- The name after a point. -/
def field (object : Expr) (optional : Bool) : Parser Expr := do
  let l ← peek
  match l.token.propertyName? with
  | some name =>
    advance
    return .field ⟨object.extent.start, l.extent.stop⟩ object optional l.extent name
  | none => fail "Expected property name after '.'"

/-- What is answered when the steps run out; there are always enough of them. -/
def exhausted {α : Type} : Parser α := fail "Expression too long"

mutual

/-- A conditional, or what binds tighter. -/
def ternary : (steps : Nat) → Parser Expr
  | 0 => exhausted
  | steps + 1 => do
    let condition ← binary steps 0
    if (← peek).token = .question then
      advance
      let consequent ← ternary steps
      let _ ← expect .colon "':' in conditional expression"
      let alternate ← ternary steps
      return .ternary ⟨condition.extent.start, alternate.extent.stop⟩ condition consequent alternate
    else return condition

/-- An operand with all operators after it whose power is above `least`. -/
def binary : (steps : Nat) → (least : Nat) → Parser Expr
  | 0, _ => exhausted
  | steps + 1, least => do
    let left ← unary steps
    binaryRest steps least left

/-- The operators after the operand `left`. -/
def binaryRest : (steps : Nat) → (least : Nat) → (left : Expr) → Parser Expr
  | 0, _, _ => exhausted
  | steps + 1, least, left => do
    match (← peek).token.binaryOp? with
    | some (op, power) =>
      if power ≤ least then return left
      else
        advance
        let right ← binary steps power
        binaryRest steps least (.binary ⟨left.extent.start, right.extent.stop⟩ op left right)
    | none => return left

/-- An operand with the signs before it; a plus leaves no trace. -/
def unary : (steps : Nat) → Parser Expr
  | 0 => exhausted
  | steps + 1 => do
    let l ← peek
    match l.token with
    | .plus =>
      advance
      unary steps
    | .not =>
      advance
      let operand ← unary steps
      return .unary ⟨l.extent.start, operand.extent.stop⟩ .not operand
    | .minus =>
      advance
      let operand ← unary steps
      return .unary ⟨l.extent.start, operand.extent.stop⟩ .neg operand
    | _ =>
      let operand ← primary steps
      links steps operand

/-- The links after an operand. -/
def links : (steps : Nat) → (object : Expr) → Parser Expr
  | 0, _ => exhausted
  | steps + 1, object => do
    match (← peek).token with
    | .dot =>
      advance
      links steps (← field object false)
    | .optionalDot =>
      advance
      if (← peek).token = .leftBracket then
        links steps (← index steps object true)
      else links steps (← field object true)
    | .leftBracket => links steps (← index steps object false)
    | _ => return object

/-- A key in brackets. -/
def index : (steps : Nat) → (object : Expr) → (optional : Bool) → Parser Expr
  | 0, _, _ => exhausted
  | steps + 1, object, optional => do
    let _ ← expect .leftBracket "'['"
    let key ← ternary steps
    let l ← expect .rightBracket "']'"
    return .index ⟨object.extent.start, l.extent.stop⟩ object optional key

/-- A literal, a variable, or something in brackets of any kind. -/
def primary : (steps : Nat) → Parser Expr
  | 0 => exhausted
  | steps + 1 => do
    let l ← peek
    match l.token.literal? l.extent with
    | some e =>
      advance
      return e
    | none =>
      match l.token with
      | .leftParen =>
        advance
        let inner ← ternary steps
        let r ← expect .rightParen "')'"
        return inner.withExtent ⟨l.extent.start, r.extent.stop⟩
      | .leftBracket =>
        advance
        let es ← items steps
        let r ← expect .rightBracket "']' to close array"
        return .array ⟨l.extent.start, r.extent.stop⟩ es
      | .leftBrace =>
        advance
        let ps ← properties steps
        let r ← expect .rightBrace ("'" ++ ['}'] ++ "' to close object")
        return .object ⟨l.extent.start, r.extent.stop⟩ ps
      | .eof => fail "Unexpected end of expression"
      | token => fail ("Unexpected token " ++ token.name)

/-- The items of an array up to its bracket; a comma may stand after the last one. -/
def items : (steps : Nat) → Parser (List Expr)
  | 0 => exhausted
  | steps + 1 => do
    if (← peek).token = .rightBracket then return []
    else
      let e ← ternary steps
      if (← peek).token = .comma then
        advance
        return e :: (← items steps)
      else return [e]

/-- The properties of an object up to its brace; a comma may stand after the last one. -/
def properties : (steps : Nat) → Parser (List (Property Expr))
  | 0 => exhausted
  | steps + 1 => do
    if (← peek).token = .rightBrace then return []
    else
      let p ← property steps
      if (← peek).token = .comma then
        advance
        return p :: (← properties steps)
      else return [p]

/-- A key with its value, or the name of a variable alone. -/
def property : (steps : Nat) → Parser (Property Expr)
  | 0 => exhausted
  | steps + 1 => do
    let l ← peek
    match l.token.propertyKey? with
    | none => fail "Expected property key in object literal"
    | some key =>
      advance
      if (← peek).token = .colon then
        advance
        return ⟨key, ← ternary steps, false⟩
      else
        match l.token with
        | .identifier _ => return ⟨key, .identifier l.extent key, true⟩
        | _ => fail "Expected ':' after property key"

end

/-- Enough steps for any expression of so many tokens. -/
def stepsFor (ls : Lexemes) : Nat := 8 * ls.length + 8

/-- The expression at the front of the tokens. -/
def leading (ls : Lexemes) : Except ParseError Expr :=
  ((ternary (stepsFor ls)).run ls.ended).map Prod.fst

/-- An expression and nothing after it. -/
def whole (steps : Nat) : Parser Expr := do
  let e ← ternary steps
  let l ← peek
  if l.token = .eof then return e
  else fail ("Unexpected token " ++ l.token.name ++ " after expression")

end Parser

/-- Reads an expression. -/
def Expr.parse (source : Text) : Except ParseError Expr :=
  match Lexer.lex source with
  | .error e => .error ⟨e.message, 1, e.extent.start + 1⟩
  | .ok ls => ((Parser.whole (Parser.stepsFor ls)).run ls).map Prod.fst

end HtmlTemplate
