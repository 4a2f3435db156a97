import HtmlTemplate.Json.Value

/-!
The compact text of a JSON value: no spaces, members in their order, and only those characters
escaped that a JSON string cannot hold as they are.
-/

namespace HtmlTemplate.Json

/-- A character inside a JSON string. -/
def escapeChar (c : Char) : Text :=
  if c = '"' then ['\\', '"']
  else if c = '\\' then ['\\', '\\']
  else if 0x20 ≤ c.toNat then [c]
  else if c = '\n' then ['\\', 'n']
  else if c = '\r' then ['\\', 'r']
  else if c = '\t' then ['\\', 't']
  else if c.toNat = 0x8 then ['\\', 'b']
  else if c.toNat = 0xC then ['\\', 'f']
  else ['\\', 'u', '0', '0', Text.hexDigit (c.toNat / 16), Text.hexDigit (c.toNat % 16)]

def quoted (s : Text) : Text := '"' :: s.flatMap escapeChar ++ ['"']

/-- Doubles from `1e-5` up to `1e16` are positional, and a whole one ends in `.0`. -/
def doubleLayout : Decimal.Layout := ⟨.even, some (-4, 16), ".0"⟩

def printNumber : Number → Text
  | .integer n => Text.signedNumeral n
  | .double x => Double.write doubleLayout x

mutual

/-- The compact text of a value. -/
def print : Json → Text
  | null => "null"
  | bool b => if b then "true" else "false"
  | number n => printNumber n
  | string s => quoted s
  | array items => '[' :: printItems items ++ [']']
  | object members => '{' :: printMembers members ++ ['}']

def printItems : List Json → Text
  | [] => []
  | [v] => print v
  | v :: w :: vs => print v ++ ',' :: printItems (w :: vs)

def printMembers : List (Text × Json) → Text
  | [] => []
  | [(k, v)] => quoted k ++ ':' :: print v
  | (k, v) :: m :: ms => quoted k ++ ':' :: (print v ++ ',' :: printMembers (m :: ms))

end

end HtmlTemplate.Json
