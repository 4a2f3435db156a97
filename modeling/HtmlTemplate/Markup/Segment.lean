import HtmlTemplate.Markup.Hiding
import HtmlTemplate.Text.LowerCase

/-!
Segments: the tags and the runs of text that an escaped template falls into. The scanner never
fails; what is no tag is text.
-/

namespace HtmlTemplate

/-- What a segment or node other than a tag is. -/
inductive Leaf where
  | text
  | comment
  | cdata
  | instruction
  | doctype
  deriving DecidableEq

/-- What a tag does to the nesting of elements. -/
inductive TagRole where
  | opens
  | closes
  | selfCloses
  deriving DecidableEq

inductive SegmentKind where
  | tag (d : TagRole)
  | leaf (k : Leaf)
  deriving DecidableEq

/-- One segment as it stands in the escaped text, and the line it is reported at. -/
structure Segment where
  raw : Text
  line : Nat
  deriving DecidableEq

/-- The elements that have no content. -/
def voidElements : List Text := [
  "area", "base", "br", "col", "embed", "hr", "img", "input", "link", "meta", "param", "source",
  "track", "wbr"]

def isVoid (tag : Text) : Bool := voidElements.contains tag

namespace Segment

/-- Whether a character ends the name of an opening tag. -/
def endsTagName (c : Char) : Bool := Text.isSpace c || c == '/' || c == '>'

/-- What stands after the opening angle bracket. -/
def tagBody (raw : Text) : Text := (Text.after? ['<'] raw).getD raw

/-- The name of an opening tag, as written. -/
def writtenName (raw : Text) : Text := (tagBody raw).takeWhile fun c => !endsTagName c

/-- Whether a character after an angle bracket makes a tag of it. -/
def startsTag (c : Char) : Bool :=
  c.isAlpha || c == '_' || c == '-' || c == '/' || c == tokenOpening

def tagRole (raw : Text) : TagRole :=
  if raw.startsWith ['<', '/'] then .closes
  else if raw.endsWith ['/', '>'] || isVoid (writtenName raw).lowerAscii then .selfCloses
  else .opens

/-- The kind of a segment is read off its first characters. -/
def kindOf (raw : Text) : SegmentKind :=
  if raw.startsWith "<!--" then .leaf .comment
  else if raw.startsWith "<!CDATA[[" || raw.startsWith "<![CDATA[" then .leaf .cdata
  else if raw.startsWith ['<', '?'] then .leaf .instruction
  else if (Span.afterAnyCase? "<!doctype " raw).isSome then .leaf .doctype
  else
    match raw with
    | '<' :: c :: _ => if startsTag c then .tag (tagRole raw) else .leaf .text
    | _ => .leaf .text

def kind (e : Segment) : SegmentKind := kindOf e.raw

end Segment

/-- The characters that belong to a tag after its angle bracket, and the rest: a tag ends with
the next closing bracket, or right before the next opening one. -/
def closeTag : Text → Text × Text
  | [] => ([], [])
  | c :: t =>
    if c = '<' then ([], c :: t)
    else if c = '>' then ([c], t)
    else
      let (a, b) := closeTag t
      (c :: a, b)

theorem append_closeTag (t : Text) : (closeTag t).1 ++ (closeTag t).2 = t := by
  induction t with
  | nil => rfl
  | cons c t ih =>
    unfold closeTag
    split
    · rfl
    · split
      · rfl
      · simpa using ih

theorem length_closeTag_le (t : Text) : (closeTag t).2.length ≤ t.length := by
  have h := congrArg List.length (append_closeTag t)
  simp only [List.length_append] at h
  omega

/-- Text cut before every opening bracket and after the bracket that closes a tag. -/
def segmentTexts : Text → List Text
  | [] => []
  | c :: t =>
    if c = '<' then (c :: (closeTag t).1) :: segmentTexts (closeTag t).2
    else (c :: t.takeWhile (· != '<')) :: segmentTexts (t.dropWhile (· != '<'))
termination_by t => t.length
decreasing_by
  · exact Nat.lt_succ_of_le (length_closeTag_le t)
  · exact Nat.lt_succ_of_le (Text.length_dropWhile_le _ t)

/-- Numbers segments from `line` on. One with line feeds in it is reported on the line after
the one it begins on. -/
def numberLines (p : Placeholders) : (line : Nat) → List Text → List Segment
  | _, [] => []
  | line, raw :: raws =>
    let feeds := p.newlines raw
    ⟨raw, if 0 < feeds then line + 1 else line⟩ :: numberLines p (line + feeds) raws

/-- The segments of an escaped text; `p` tells how many line feeds its tokens hide. -/
def scan (p : Placeholders) (escaped : Text) : List Segment :=
  numberLines p 1 (segmentTexts escaped)

/-- A template taken apart: its segments, and the placeholders to decode them with. -/
structure Scanned where
  segments : List Segment
  placeholders : Placeholders

def Scanned.ofSource (source : Text) : Scanned :=
  let (escaped, p) := Placeholders.empty.hideAll source
  ⟨scan p escaped, p⟩

end HtmlTemplate
