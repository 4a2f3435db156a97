import HtmlTemplate.Markup.Segment
import HtmlTemplate.Record

/-!
Attributes of a tag. Reading keeps only values that were quoted, which are the ones a
placeholder stands for; writing picks a kind of quote that the value does not hold.
-/

namespace HtmlTemplate

/-- Attribute values under their names, in the order of first setting. -/
abbrev Attributes := Record Text

namespace Attributes

def doubleQuoteRef : Text := "&quot;"

def singleQuoteRef : Text := "&#39;"

/-- A value in quotes: in double quotes unless it holds one, else in single quotes unless it
holds one too, else in double quotes with its own as references. -/
def quote (value : Text) : Text :=
  if !value.contains '"' then '"' :: value ++ ['"']
  else if !value.contains '\'' then '\'' :: value ++ ['\'']
  else '"' :: Text.replace ['"'] doubleQuoteRef value ++ ['"']

/-- A value with references to quotes turned into quotes. -/
def unquoteRefs (value : Text) : Text :=
  Text.replace singleQuoteRef ['\''] (Text.replace doubleQuoteRef ['"'] value)

/-- What stands between the name of an opening tag and its end; a slash before the end counts
as part of the end. -/
def attributePart (raw : Text) : Text :=
  let body := (Segment.tagBody raw).dropWhile fun c => !Segment.endsTagName c
  let inner := Text.dropEndWhile (fun c => c == '>' || c == '\r' || c == '\n') body
  if inner.length < body.length then (Text.before? ['/'] inner).getD inner else body

def endsName (c : Char) : Bool := Text.isSpace c || c == '='

/-- The unbroken text after an equals sign, without its quotes, and what follows it. -/
def readValue (t : Text) : Text × Text :=
  match Text.trimStart t with
  | [] => ([], [])
  | q :: u =>
    let v := if Span.isQuote q then u else q :: u
    let word := v.takeWhile fun c => !Text.isSpace c
    let rest := v.dropWhile fun c => !Text.isSpace c
    (if Span.isQuote q then (Text.before? [q] word).getD word else word, rest)

theorem length_readValue_le (t : Text) : (readValue t).2.length ≤ t.length := by
  have h1 := Text.length_dropWhile_le Text.isSpace t
  unfold readValue
  split
  · simp
  · next q u hu =>
    have hu' : (q :: u).length ≤ t.length := by
      rw [← hu]
      exact h1
    have h2 := Text.length_dropWhile_le (fun c => !Text.isSpace c)
      (if Span.isQuote q then u else q :: u)
    dsimp only
    split at h2 <;> simp_all <;> omega

theorem length_lt_of_trimStart {t u : Text} {c : Char} (h : Text.trimStart t = c :: u) :
    u.length < t.length := by
  have := Text.length_dropWhile_le Text.isSpace t
  rw [← Text.trimStart, h, List.length_cons] at this
  omega

/-- What follows a name. -/
def afterName (t : Text) : Text := t.dropWhile fun c => !endsName c

/-- Names with the text after their equals signs; a name without one is passed over. -/
def readPairs (t : Text) : List (Text × Text) :=
  match h : Text.trimStart t with
  | [] => []
  | c :: u =>
    have hu : u.length < t.length := length_lt_of_trimStart h
    if c = '=' then readPairs u
    else
      have ha : (afterName u).length < t.length :=
        Nat.lt_of_le_of_lt (Text.length_dropWhile_le _ u) hu
      match hv : Text.trimStart (afterName u) with
      | '=' :: v =>
        have : (readValue v).2.length < t.length :=
          Nat.lt_of_le_of_lt (length_readValue_le v)
            (Nat.lt_trans (length_lt_of_trimStart hv) ha)
        (c :: u.takeWhile fun c => !endsName c, (readValue v).1) :: readPairs (readValue v).2
      | _ => readPairs (afterName u)
termination_by t.length
decreasing_by all_goals assumption

/-- The attributes of an escaped opening tag. -/
def ofTag (p : Placeholders) (raw : Text) : Attributes :=
  (readPairs (attributePart raw)).foldl (fun attributes (name, token) =>
    if (p.get? token).isSome then
      attributes.set (p.decode name) (unquoteRefs (p.decode token))
    else attributes) []

end Attributes

end HtmlTemplate
