import LosslessJava.Kind
import LosslessJava.Token.Measure

/-!
Character literals, string literals and text blocks. A backslash takes the character after it
along, whatever that is, so an escaped quote does not close a literal.
-/
namespace LosslessJava.Quotation

def isLineBreak (c : Char) : Bool := c == '\n' || c == '\r'

def isBlank (c : Char) : Bool := c == ' ' || c == '\t' || c == '\x0c'

/-- A literal on one line after its opening quote: whether it is closed, and its length up to the
closing quote, the end of the line or the end of the text. -/
def line (quote : Char) (escaped : Bool) : List Char → Bool × Nat
  | [] => (false, 0)
  | c :: rest =>
    if escaped then
      let (closed, more) := line quote false rest
      (closed, more + 1)
    else if isLineBreak c then
      (false, 0)
    else if c == '\\' then
      let (closed, more) := line quote true rest
      (closed, more + 1)
    else if c == quote then
      (true, 1)
    else
      let (closed, more) := line quote false rest
      (closed, more + 1)

/-- The content of a text block, up to and with three closing quotes or to the end of the text. -/
def blockContent (escaped : Bool) : List Char → Bool × Nat
  | [] => (false, 0)
  | c :: rest =>
    if escaped then
      let (closed, more) := blockContent false rest
      (closed, more + 1)
    else if c == '\\' then
      let (closed, more) := blockContent true rest
      (closed, more + 1)
    else if c == '\x22' && rest.take 2 == ['\x22', '\x22'] then
      (true, 3)
    else
      let (closed, more) := blockContent false rest
      (closed, more + 1)

/-- A text block after its three opening quotes. A line break must follow them, blanks apart. -/
def block (text : List Char) : Kind × Nat :=
  let blanks := Measure.run isBlank text
  match text.drop blanks with
  | [] => (.unknown, blanks)
  | c :: rest =>
    if isLineBreak c then
      let (closed, more) := blockContent false (c :: rest)
      (if closed then .textBlock else .unknown, blanks + more)
    else
      (.unknown, blanks)

/-- A character literal after its opening quote. -/
def character (text : List Char) : Kind × Nat :=
  let (closed, more) := line '\x27' false text
  (if closed then .charLiteral else .unknown, more)

/-- A string literal or text block after its first quote. -/
def string (text : List Char) : Kind × Nat :=
  if text.take 2 == ['\x22', '\x22'] then
    let (kind, more) := block (text.drop 2)
    (kind, 2 + more)
  else
    let (closed, more) := line '\x22' false text
    (if closed then .stringLiteral else .unknown, more)

end LosslessJava.Quotation
