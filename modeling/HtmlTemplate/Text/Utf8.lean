import HtmlTemplate.Text.Numeral

/-!
UTF-8. Decoding stops at the first bytes that no character begins with, and says where they
stand and how many of them are to blame.
-/

namespace HtmlTemplate

abbrev Bytes := List UInt8

namespace Utf8

/-- Why bytes are not UTF-8, and how many bytes before are. -/
inductive Error where
  /-- So many bytes at this place begin no character. -/
  | invalid (count index : Nat)
  /-- The bytes end inside a character that begins at this place. -/
  | incomplete (index : Nat)
  deriving DecidableEq

def Error.message : Error → Text
  | .invalid count index =>
    "invalid utf-8 sequence of " ++ Text.numeral count ++ " bytes from index " ++
      Text.numeral index
  | .incomplete index => "incomplete utf-8 byte sequence from index " ++ Text.numeral index

def encode (t : Text) : Bytes := t.flatMap String.utf8EncodeChar

/-- Six bits of a continuation byte. -/
def tail? (b : UInt8) : Option Nat := if 0x80 ≤ b ∧ b ≤ 0xBF then some (b.toNat - 0x80) else none

/-- How a first byte goes on: how many bytes follow, its own bits, and the range of the byte
after it. -/
structure Lead where
  following : Nat
  bits : Nat
  least : UInt8
  greatest : UInt8

/-- What a byte that begins a longer character says about it. -/
def lead? (b : UInt8) : Option Lead :=
  let n := b.toNat
  if 0xC2 ≤ n ∧ n ≤ 0xDF then some ⟨1, n - 0xC0, 0x80, 0xBF⟩
  else if n = 0xE0 then some ⟨2, 0, 0xA0, 0xBF⟩
  else if n = 0xED then some ⟨2, 0xD, 0x80, 0x9F⟩
  else if 0xE1 ≤ n ∧ n ≤ 0xEF then some ⟨2, n - 0xE0, 0x80, 0xBF⟩
  else if n = 0xF0 then some ⟨3, 0, 0x90, 0xBF⟩
  else if 0xF1 ≤ n ∧ n ≤ 0xF3 then some ⟨3, n - 0xF0, 0x80, 0xBF⟩
  else if n = 0xF4 then some ⟨3, 4, 0x80, 0x8F⟩
  else none

/-- Reads `count` continuation bytes after `read` bytes of a character that begins at `index`,
with the code point so far in `code`. -/
def tails (index : Nat) : (count read code : Nat) → Bytes → Except Error (Nat × Bytes)
  | 0, _, code, bs => .ok (code, bs)
  | _ + 1, _, _, [] => .error (.incomplete index)
  | count + 1, read, code, b :: bs =>
    match tail? b with
    | some n => tails index count (read + 1) (code * 64 + n) bs
    | none => .error (.invalid read index)

/-- The character at the front of some bytes, and the bytes after it. -/
def first (index : Nat) (b : UInt8) (bs : Bytes) : Except Error (Char × Bytes) :=
  if b < 0x80 then .ok (Char.ofNat b.toNat, bs)
  else
    match lead? b with
    | none => .error (.invalid 1 index)
    | some l =>
      match bs with
      | [] => .error (.incomplete index)
      | c :: cs =>
        if l.least ≤ c ∧ c ≤ l.greatest then
          (tails index (l.following - 1) 2 (l.bits * 64 + (c.toNat - 0x80)) cs).map
            fun (code, rest) => (Char.ofNat code, rest)
        else .error (.invalid 1 index)

/-- Decodes at most `steps` characters; `done` holds those before, newest first. -/
def decodeFrom : (steps index : Nat) → (done : Text) → Bytes → Except Error Text
  | _, _, done, [] => .ok done.reverse
  | 0, _, done, _ => .ok done.reverse
  | steps + 1, index, done, b :: bs =>
    match first index b bs with
    | .error e => .error e
    | .ok (c, rest) => decodeFrom steps (index + c.utf8Size) (c :: done) rest

/-- The text that the bytes encode. -/
def decode (bs : Bytes) : Except Error Text := decodeFrom bs.length 0 [] bs

end Utf8

end HtmlTemplate
