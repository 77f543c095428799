/-!
Half-open byte ranges of a text. Offsets count the bytes of the UTF-8 encoding.
-/
namespace LosslessJava

/-- The bytes from `start` up to, but not including, `stop`. -/
structure Span where
  start : Nat
  stop : Nat
  deriving DecidableEq, Repr, Inhabited

namespace Span

def empty (offset : Nat) : Span := ⟨offset, offset⟩

def length (s : Span) : Nat := s.stop - s.start

/-- From the start of the one to the end of the other. -/
def cover (first last : Span) : Span := ⟨first.start, last.stop⟩

/-- The range widened by so many bytes on either side. -/
def widen (s : Span) (before after : Nat) : Span := ⟨s.start - before, s.stop + after⟩

/-- The part of `text` in the range. -/
def slice (s : Span) (text : String) : String :=
  String.Pos.Raw.extract text ⟨s.start⟩ ⟨s.stop⟩

/-- Both ends, as messages and dumps write them. -/
def describe (s : Span) : String := toString s.start ++ ".." ++ toString s.stop

end Span

end LosslessJava
