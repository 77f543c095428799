/-!
Sets of characters given by ascending ranges of codes, ends included.
-/
namespace LosslessJava.Text

/-- Ranges of character codes, both ends included. -/
abbrev CodeRanges := Array (Nat × Nat)

/-- Whether the character's code lies in one of the ranges. -/
def CodeRanges.contains (ranges : CodeRanges) (c : Char) : Bool :=
  ranges.any fun (first, last) => decide (first ≤ c.toNat) && decide (c.toNat ≤ last)

end LosslessJava.Text
