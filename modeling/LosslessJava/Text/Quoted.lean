import LosslessJava.Text.Unprintable
import LosslessJava.Text.Combining

/-!
Quoted text as dumps show it: between double quotes, with everything escaped that a reader could
not see or could mistake for something else.
-/
namespace LosslessJava.Text

/-- Characters with a shape of their own. The only blank among them is the space. -/
def isPrintable (c : Char) : Bool :=
  if c.toNat < 128 then decide (32 ≤ c.toNat) && c.toNat != 127 else !unprintable.contains c

/-- Characters that are drawn on the one before them. -/
def isCombining (c : Char) : Bool := decide (128 ≤ c.toNat) && combining.contains c

/-- Escape by code: the number in lower-case hexadecimal without padding. -/
def codeEscape (c : Char) : List Char :=
  ['\\', 'u', '\x7b'] ++ Nat.toDigits 16 c.toNat ++ ['\x7d']

/-- One character as it stands between the quotes. -/
def quoteChar (c : Char) : List Char :=
  match c with
  | '\x00' => ['\\', '0']
  | '\t' => ['\\', 't']
  | '\n' => ['\\', 'n']
  | '\r' => ['\\', 'r']
  | '\x22' => ['\\', '\x22']
  | '\\' => ['\\', '\\']
  | _ => if isPrintable c && !isCombining c then [c] else codeEscape c

/-- Text in double quotes. -/
def quote (text : String) : String :=
  String.ofList ('\x22' :: text.toList.flatMap quoteChar ++ ['\x22'])

end LosslessJava.Text
