/-!
Trivia: the blanks, line breaks and comments between tokens. They are no tokens of their own but
stay attached to a neighbouring token, so that nothing of the text is lost.
-/
namespace LosslessJava

inductive TriviaKind where
  | whitespace
  | newline
  | singleLineComment
  | multiLineComment
  deriving DecidableEq, Repr, Inhabited

namespace TriviaKind

def name : TriviaKind → String
  | .whitespace => "Whitespace"
  | .newline => "Newline"
  | .singleLineComment => "SingleLineComment"
  | .multiLineComment => "MultiLineComment"

def isComment : TriviaKind → Bool
  | .singleLineComment | .multiLineComment => true
  | .whitespace | .newline => false

end TriviaKind

/-- A stretch of trivia of one kind, with its length in bytes. -/
structure TriviaPiece where
  kind : TriviaKind
  length : Nat
  deriving DecidableEq, Repr, Inhabited

/-- The trivia on one side of a token, in the order of the text. -/
abbrev Trivia := List TriviaPiece

namespace Trivia

/-- Length of all pieces together, in bytes. -/
def width : Trivia → Nat
  | [] => 0
  | piece :: rest => piece.length + width rest

def hasNewline (trivia : Trivia) : Bool := trivia.any (·.kind == .newline)

/-- All pieces and their width, written out for debugging. -/
def dump (trivia : Trivia) : String :=
  let piece (p : TriviaPiece) :=
    "TriviaPiece \x7b kind: " ++ p.kind.name ++ ", len: " ++ toString p.length ++ " \x7d"
  "Trivia \x7b pieces: [" ++ ", ".intercalate (trivia.map piece) ++ "], total_len: "
    ++ toString trivia.width ++ " \x7d"

@[simp] theorem width_nil : width [] = 0 := rfl

@[simp] theorem width_cons (piece : TriviaPiece) (trivia : Trivia) :
    width (piece :: trivia) = piece.length + width trivia := rfl

end Trivia

end LosslessJava
