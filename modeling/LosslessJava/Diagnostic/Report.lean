import LosslessJava.Diagnostic

/-!
Reports: a diagnostic shown beside the source line that it is about, with the range marked below.
-/
namespace LosslessJava.Diagnostic

/-- A line that a range begins on: its number, its text before the range, and its whole text. -/
structure Place where
  line : Nat
  before : String
  content : String
  deriving Repr

/-- The line that byte `offset` lies on. Lines end at line feeds, so a carriage return before one
belongs to the line. An empty line, such as the one behind a final line feed, is no place. -/
def Place.find? (text : String) (offset : Nat) : Option Place :=
  let before := ((Span.mk 0 offset).slice text).toList
  let after := ((Span.mk offset text.utf8ByteSize).slice text).toList
  let front := (before.reverse.takeWhile (· != '\n')).reverse
  match front ++ after.takeWhile (· != '\n') with
  | [] => none
  | content => some ⟨before.count '\n' + 1, String.ofList front, String.ofList content⟩

/-- The place's column, counted in characters from 1. -/
def Place.column (place : Place) : Nat := place.before.length + 1

/-- How wide a text is shown: control characters take no room. -/
def shownWidth (text : String) : Nat := text.toList.countP fun c => ' ' ≤ c && c != '\x7f'

def spaces (n : Nat) : String := String.ofList (List.replicate n ' ')

/-- How many characters a line loses at its left: of an indent of more than 26 blanks, 22 are left,
so that deep code stays readable. -/
def Place.cut (place : Place) : Nat :=
  let indent := (place.content.toList.takeWhile (· == ' ')).length
  if 26 < indent ∧ indent < place.content.length then indent - 22 else 0

/-- The line as it is shown. Dots take the first columns of a line that was cut. -/
def Place.shownContent (place : Place) : String :=
  match place.cut with
  | 0 => place.content
  | cut => "..." ++ String.ofList (place.content.toList.drop (cut + 3))

/-- The source line of a place, and below it the marks under the range that begins there. -/
def Place.shownLines (place : Place) (marked : String) : List String :=
  let number := toString place.line
  let indent := spaces (shownWidth place.before - place.cut)
  let marks := String.ofList (List.replicate (max 1 (shownWidth marked)) '^')
  [number ++ " | " ++ place.shownContent,
   spaces number.length ++ " | " ++ indent ++ marks ++ " here"]

/-- The lines of a report: title, place, source line and marks, and what was expected instead. A
range without a place is reported at the beginning of the text, and nothing is shown of it. -/
def reportLines (d : Diagnostic) (path text : String) : List String :=
  let place? := Place.find? text d.range.start
  let pad := spaces ((place?.map fun place => (toString place.line).length).getD 0)
  let position := (place?.map fun place => (place.line, place.column)).getD (1, 1)
  let shown := (place?.map fun place => place.shownLines (d.range.slice text)).getD []
  ["error: " ++ d.kind.describe ++ ": " ++ d.message,
   pad ++ "--> " ++ path ++ ":" ++ toString position.1 ++ ":" ++ toString position.2,
   pad ++ " |"]
    ++ shown ++ [pad ++ " |"]
    ++ (if d.expected.isEmpty then [] else [pad ++ " = note: expected " ++ d.expected.describe])

/-- The report as one text, without a line break at its end. -/
def report (d : Diagnostic) (path text : String) : String :=
  "\n".intercalate (d.reportLines path text)

end LosslessJava.Diagnostic
