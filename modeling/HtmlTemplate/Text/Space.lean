import HtmlTemplate.Text.Basic

/-!
White space, as the Unicode property `White_Space` has it, and the cuts made at it.
-/

namespace HtmlTemplate.Text

/-- Whether a character has the property `White_Space`. -/
def isSpace (c : Char) : Bool :=
  c == ' ' || (0x9 ≤ c.toNat && c.toNat ≤ 0xD) || c.toNat == 0x85 || c.toNat == 0xA0 ||
  c.toNat == 0x1680 || (0x2000 ≤ c.toNat && c.toNat ≤ 0x200A) || c.toNat == 0x2028 ||
  c.toNat == 0x2029 || c.toNat == 0x202F || c.toNat == 0x205F || c.toNat == 0x3000

def trimStart (t : Text) : Text := t.dropWhile isSpace

/-- The text without the characters at its end that satisfy `p`. -/
def dropEndWhile (p : Char → Bool) (t : Text) : Text := (t.reverse.dropWhile p).reverse

def trim (t : Text) : Text := dropEndWhile isSpace (trimStart t)

def isBlank (t : Text) : Bool := t.all isSpace

/-- The maximal runs of characters that are not white space. -/
def words (t : Text) : List Text := (splitAt isSpace t).filter (· ≠ [])

end HtmlTemplate.Text
