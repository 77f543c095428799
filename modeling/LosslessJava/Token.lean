import LosslessJava.Kind
import LosslessJava.Text.Span
import LosslessJava.Trivia

/-!
Tokens: a kind, the bytes it covers, and the trivia that goes with it on either side.
-/
namespace LosslessJava

/-- A token as lexing gives it. The range leaves the trivia out. -/
structure Token where
  kind : Kind
  range : Span
  leading : Trivia := []
  trailing : Trivia := []
  deriving DecidableEq, Repr, Inhabited

namespace Token

/-- The token's bytes together with its trivia. -/
def fullRange (token : Token) : Span :=
  token.range.widen (Trivia.width token.leading) (Trivia.width token.trailing)

/-- An end of input without trivia. -/
def endOfInput (offset : Nat) : Token := { kind := .eof, range := .empty offset }

end Token

end LosslessJava
