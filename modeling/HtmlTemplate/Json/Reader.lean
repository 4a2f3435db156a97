import HtmlTemplate.Decimal.Reading
import HtmlTemplate.Json.Value

/-!
Reading JSON text. A repeated member name keeps its first place and takes its last value;
arrays and objects may nest only so deep as the caller allows.
-/

namespace HtmlTemplate.Json

def isBlankChar (c : Char) : Bool := c == ' ' || c == '\t' || c == '\n' || c == '\r'

def skipBlank (t : Text) : Text := t.dropWhile isBlankChar

def hexValue? (c : Char) : Option Nat :=
  if c.isDigit then some (c.toNat - 48)
  else if 'a' ≤ c ∧ c ≤ 'f' then some (c.toNat - 87)
  else if 'A' ≤ c ∧ c ≤ 'F' then some (c.toNat - 55)
  else none

/-- The 16-bit unit that four hexadecimal digits denote. -/
def unit? (a b c d : Char) : Option Nat := do
  return ((← hexValue? a) * 16 + (← hexValue? b)) * 256 + (← hexValue? c) * 16 + (← hexValue? d)

/-- The character of one 16-bit unit, unless the unit is half of a pair. -/
def ofUnit? (n : Nat) : Option Char :=
  if 0xD800 ≤ n ∧ n < 0xE000 then none else some (Char.ofNat n)

/-- The character of a high and a low unit. -/
def ofPair? (high low : Nat) : Option Char :=
  if 0xD800 ≤ high ∧ high < 0xDC00 ∧ 0xDC00 ≤ low ∧ low < 0xE000 then
    some (Char.ofNat (0x10000 + (high - 0xD800) * 0x400 + (low - 0xDC00)))
  else none

/-- The character of a one-letter escape. -/
def simpleEscape? : Char → Option Char
  | '"' => some '"'
  | '\\' => some '\\'
  | '/' => some '/'
  | 'b' => some (Char.ofNat 0x8)
  | 'f' => some (Char.ofNat 0xC)
  | 'n' => some '\n'
  | 'r' => some '\r'
  | 't' => some '\t'
  | _ => none

/-- The rest of a string after its opening quote, and the text after the closing one. The
characters read so far are kept newest first. -/
def readString (done : Text) : Text → Option (Text × Text)
  | [] => none
  | '"' :: t => some (done.reverse, t)
  | '\\' :: 'u' :: a :: b :: c :: d :: '\\' :: 'u' :: e :: f :: g :: h :: t =>
    match unit? a b c d with
    | none => none
    | some n =>
      match ofUnit? n with
      | some x => readString (x :: done) ('\\' :: 'u' :: e :: f :: g :: h :: t)
      | none =>
        match (unit? e f g h).bind (ofPair? n) with
        | some x => readString (x :: done) t
        | none => none
  | '\\' :: 'u' :: a :: b :: c :: d :: t =>
    match (unit? a b c d).bind ofUnit? with
    | some x => readString (x :: done) t
    | none => none
  | '\\' :: c :: t =>
    match simpleEscape? c with
    | some x => readString (x :: done) t
    | none => none
  | c :: t => if c = '\\' ∨ c.toNat < 0x20 then none else readString (c :: done) t

/-- The number with the given whole digits, fraction digits and exponent part. -/
def number? (negative : Bool) (whole : Text) (fraction : Option Text) (exponent : Option Int) :
    Option Number :=
  let n : Int := if negative then -(Text.digitsValue whole : Int) else Text.digitsValue whole
  if fraction.isNone ∧ exponent.isNone ∧ Number.fits n ∧ ¬(negative ∧ n = 0) then
    some (.integer n)
  else
    let places := fraction.getD []
    let x := Double.ofDecimal negative (Text.digitsValue (whole ++ places))
      (exponent.getD 0 - places.length)
    if x.isFinite then some (.double x) else none

/-- The exponent part at the front of a text, if there is one; `none` if it is malformed. -/
def readExponent (t : Text) : Option (Option Int × Text) :=
  match t with
  | e :: r =>
    if e = 'e' ∨ e = 'E' then
      let (negative, r) := Double.splitSign r
      let (digits, r) := r.span Char.isDigit
      if digits = [] then none
      else
        let n : Int := Text.digitsValue digits
        some (some (if negative then -n else n), r)
    else some (none, t)
  | [] => some (none, t)

/-- The fraction part at the front of a text, if there is one; `none` if it is malformed. -/
def readFraction : Text → Option (Option Text × Text)
  | '.' :: r =>
    let (digits, r) := r.span Char.isDigit
    if digits = [] then none else some (some digits, r)
  | t => some (none, t)

/-- The number at the front of a text. -/
def readNumber (t : Text) : Option (Number × Text) := do
  let (negative, t) := match t with
    | '-' :: t => (true, t)
    | t => (false, t)
  let (whole, t) := t.span Char.isDigit
  if whole = [] ∨ (1 < whole.length ∧ whole.head? = some '0') then failure
  let (fraction, t) ← readFraction t
  let (exponent, t) ← readExponent t
  return (← number? negative whole fraction exponent, t)

mutual

/-- The value at the front of a text, and the text after it. -/
def readValue : (steps depth : Nat) → Text → Option (Json × Text)
  | 0, _, _ => none
  | steps + 1, depth, t =>
    match skipBlank t with
    | 'n' :: 'u' :: 'l' :: 'l' :: t => some (null, t)
    | 't' :: 'r' :: 'u' :: 'e' :: t => some (bool true, t)
    | 'f' :: 'a' :: 'l' :: 's' :: 'e' :: t => some (bool false, t)
    | '"' :: t => (readString [] t).map fun (s, t) => (string s, t)
    | '[' :: t =>
      match depth with
      | 0 => none
      | depth + 1 =>
        match skipBlank t with
        | ']' :: t => some (array [], t)
        | t => readItems steps depth [] t
    | '{' :: t =>
      match depth with
      | 0 => none
      | depth + 1 =>
        match skipBlank t with
        | '}' :: t => some (object [], t)
        | t => readMembers steps depth [] t
    | t => (readNumber t).map fun (n, t) => (number n, t)

/-- The items of an array from the next one on; those read so far are kept newest first. -/
def readItems : (steps depth : Nat) → (done : List Json) → Text → Option (Json × Text)
  | 0, _, _, _ => none
  | steps + 1, depth, done, t =>
    match readValue steps depth t with
    | none => none
    | some (v, t) =>
      match skipBlank t with
      | ',' :: t => readItems steps depth (v :: done) t
      | ']' :: t => some (array (v :: done).reverse, t)
      | _ => none

/-- The members of an object from the next one on; those read so far are kept newest first. -/
def readMembers : (steps depth : Nat) → (done : List (Text × Json)) → Text → Option (Json × Text)
  | 0, _, _, _ => none
  | steps + 1, depth, done, t =>
    match skipBlank t with
    | '"' :: t =>
      match readString [] t with
      | none => none
      | some (k, t) =>
        match skipBlank t with
        | ':' :: t =>
          match readValue steps depth t with
          | none => none
          | some (v, t) =>
            match skipBlank t with
            | ',' :: t => readMembers steps depth ((k, v) :: done) t
            | '}' :: t => some (object (Record.setAll [] ((k, v) :: done).reverse), t)
            | _ => none
        | _ => none
    | _ => none

end

/-- How deep arrays and objects may nest in a file. -/
def depthLimit : Nat := 127

/-- Reads a text that holds one value and nothing else but blanks. -/
def parse? (depth : Nat) (t : Text) : Option Json :=
  match readValue (2 * t.length + 2) depth t with
  | some (v, rest) => if skipBlank rest = [] then some v else none
  | none => none

end HtmlTemplate.Json
