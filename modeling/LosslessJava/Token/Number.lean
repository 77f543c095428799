import LosslessJava.Kind
import LosslessJava.Text.Identifier
import LosslessJava.Token.Measure

/-!
Numeric literals. Nothing is evaluated: what matters is where a literal ends and whether it is an
integer or a floating-point number.
-/
namespace LosslessJava.Number

def isOneOf (options : List Char) (c : Char) : Bool := options.contains c

def isDigitPart (c : Char) : Bool := c == '_' || c.isDigit

def isHexDigitPart (c : Char) : Bool :=
  isDigitPart c || (decide ('a' ≤ c) && decide (c ≤ 'f')) || (decide ('A' ≤ c) && decide (c ≤ 'F'))

def isFloatSuffix : Char → Bool := isOneOf ['f', 'F', 'd', 'D']

def isExponentMark : Char → Bool := isOneOf ['e', 'E']

def digits : Measure := .run isDigitPart

def hexDigits : Measure := .run isHexDigitPart

def intSuffix : Measure := .optional (isOneOf ['l', 'L'])

def floatSuffix : Measure := .optional isFloatSuffix

/-- Sign and digits of an exponent. -/
def signedDigits : Measure := .followedBy (.optional (isOneOf ['+', '-'])) digits

def exponent : Measure := .led isExponentMark signedDigits

def binaryExponent : Measure := .led (isOneOf ['p', 'P']) signedDigits

/-- What may follow a decimal point: digits, an exponent and a suffix. -/
def fraction : Measure := .followedBy digits (.followedBy exponent floatSuffix)

/-- Whether a point continues a decimal number: it must not start a name or another point. -/
def startsFraction : List Char → Bool
  | '.' :: [] => true
  | '.' :: c :: _ => c != '.' && !Text.isIdentifierStart c
  | _ => false

/-- A decimal number after its first digit. -/
def decimal (text : List Char) : Kind × Nat :=
  let whole := digits text
  let rest := text.drop whole
  if startsFraction rest then
    (.floatLiteral, whole + 1 + fraction (rest.drop 1))
  else if 0 < exponent rest then
    (.floatLiteral, whole + Measure.followedBy exponent floatSuffix rest)
  else if 0 < floatSuffix rest then
    (.floatLiteral, whole + 1)
  else
    (.intLiteral, whole + intSuffix rest)

/-- A hexadecimal number after `0x`; a point or a binary exponent makes it floating-point. -/
def hexadecimal (text : List Char) : Kind × Nat :=
  let whole := hexDigits text
  let rest := text.drop whole
  let tail := Measure.followedBy (.led (· == '.') hexDigits) binaryExponent rest
  if 0 < tail then
    (.floatLiteral, whole + tail + floatSuffix (rest.drop tail))
  else
    (.intLiteral, whole + intSuffix rest)

/-- A number after its first digit: the kind, and how many more characters it takes. -/
def scan (first : Char) (text : List Char) : Kind × Nat :=
  match text with
  | c :: rest =>
    if first == '0' && isOneOf ['x', 'X'] c then
      let (kind, more) := hexadecimal rest
      (kind, more + 1)
    else if first == '0' && isOneOf ['b', 'B'] c then
      (.intLiteral, 1 + Measure.followedBy digits intSuffix rest)
    else
      decimal text
  | [] => decimal text

end LosslessJava.Number
