import LosslessJava.Text.Alphabetic
import LosslessJava.Text.Numeric

/-!
Which characters start and continue a Java identifier.
-/
namespace LosslessJava.Text

/-- A letter in the sense of the property `Alphabetic`. -/
def isAlphabetic (c : Char) : Bool :=
  if c.toNat < 128 then c.isAlpha else alphabetic.contains c

/-- A digit or any other character that stands for a number. -/
def isNumeric (c : Char) : Bool :=
  if c.toNat < 128 then c.isDigit else numeric.contains c

def isIdentifierStart (c : Char) : Bool := c == '_' || c == '$' || isAlphabetic c

def isIdentifierPart (c : Char) : Bool := isIdentifierStart c || isNumeric c

end LosslessJava.Text
