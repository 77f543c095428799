/-!
Measures: how many characters at the front of a text belong to a form. Measures are put together
one after the other, so that a lexical form reads as the sequence of its parts.
-/
namespace LosslessJava

/-- Number of characters at the front of a text that a form takes; none when it does not apply. -/
abbrev Measure := List Char → Nat

namespace Measure

/-- The longest run of characters that satisfy `p`. -/
def run (p : Char → Bool) : Measure := fun text => (text.takeWhile p).length

/-- One character, if it satisfies `p`. -/
def optional (p : Char → Bool) : Measure
  | [] => 0
  | c :: _ => if p c then 1 else 0

/-- What `first` takes and then what `next` takes of the text after it. -/
def followedBy (first next : Measure) : Measure := fun text =>
  let taken := first text
  taken + next (text.drop taken)

/-- All of `body`, if the first character satisfies `p`; the body starts behind that character. -/
def led (p : Char → Bool) (body : Measure) : Measure
  | [] => 0
  | c :: rest => if p c then 1 + body rest else 0

theorem take_run (p : Char → Bool) (text : List Char) :
    text.take (run p text) = text.takeWhile p := by
  induction text with
  | nil => rfl
  | cons c rest ih => by_cases taken : p c <;> simp_all [run]

theorem drop_run (p : Char → Bool) (text : List Char) :
    text.drop (run p text) = text.dropWhile p := by
  induction text with
  | nil => rfl
  | cons c rest ih => by_cases taken : p c <;> simp_all [run]

end Measure

end LosslessJava
