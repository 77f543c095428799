import LosslessJava.Token.Lexer

/-!
Token streams: a text with its tokens, of which the last is always the end of input, and positions
in such a stream. Looking ahead never fails: behind the last token there are only repetitions of it.
-/
namespace LosslessJava

/-- A text and its tokens; the last token is an end of input. -/
structure TokenStream where
  text : String
  tokens : Array Token
  closed : tokens.back?.map Token.kind = some .eof

namespace TokenStream

/-- Given tokens, with an end of input added where they lack one. -/
def ofTokens (text : String) (tokens : Array Token) : TokenStream :=
  if closed : tokens.back?.map Token.kind = some .eof then
    ⟨text, tokens, closed⟩
  else
    ⟨text, tokens.push (.endOfInput text.utf8ByteSize), by simp [Token.endOfInput]⟩

def lex (text : String) : TokenStream := ofTokens text (tokenize text).toArray

def size (stream : TokenStream) : Nat := stream.tokens.size

theorem size_pos (stream : TokenStream) : 0 < stream.size := by
  have closed := stream.closed
  rcases h : stream.tokens.size with _ | n
  · simp [Array.eq_empty_of_size_eq_zero h] at closed
  · simp [size, h]

/-- The token at an index, counted from 0; the last one for an index past the end. -/
def tokenAt (stream : TokenStream) (index : Nat) : Token :=
  have inside : min index (stream.size - 1) < stream.tokens.size := by
    have := stream.size_pos
    simp only [size] at *
    omega
  stream.tokens[min index (stream.size - 1)]

/-- An index at or past that of the last token leads to an end of input. -/
theorem kind_tokenAt_of_le {stream : TokenStream} {index : Nat} (behind : stream.size - 1 ≤ index) :
    (stream.tokenAt index).kind = .eof := by
  have closed := stream.closed
  have inside := stream.size_pos
  simp only [size] at behind inside
  have last : stream.tokens.size - 1 < stream.tokens.size := by omega
  simp only [tokenAt, size, Nat.min_eq_right behind]
  simpa [Array.back?, Array.getElem?_eq_getElem last] using closed

/-- Whether the stream has no token but the end of input. -/
def isEmpty (stream : TokenStream) : Bool := stream.size == 1

end TokenStream

/-- A position in a token stream. -/
structure TokenCursor where
  stream : TokenStream
  position : Nat

namespace TokenCursor

def start (stream : TokenStream) : TokenCursor := ⟨stream, 0⟩

/-- Index of the token `n` places ahead, which is at most that of the last token. -/
def index (cursor : TokenCursor) (n : Nat) : Nat :=
  min (cursor.position + n) (cursor.stream.size - 1)

theorem index_lt_size (cursor : TokenCursor) (n : Nat) : cursor.index n < cursor.stream.size := by
  have := cursor.stream.size_pos
  simp only [index]
  omega

def nthToken (cursor : TokenCursor) (n : Nat) : Token := cursor.stream.tokenAt (cursor.index n)

/-- Kind of the token `n` places ahead. -/
def nth (cursor : TokenCursor) (n : Nat) : Kind := (cursor.nthToken n).kind

def current (cursor : TokenCursor) : Kind := cursor.nth 0

/-- Behind a token that is no end of input stands another one. -/
theorem position_lt_of_current (cursor : TokenCursor) (more : cursor.current ≠ .eof) :
    cursor.position + 1 < cursor.stream.size :=
  Nat.lt_of_not_le fun behind =>
    more (TokenStream.kind_tokenAt_of_le (by simp only [index]; omega))

/-- Text of the token `n` places ahead, without trivia. -/
def nthText (cursor : TokenCursor) (n : Nat) : String :=
  (cursor.nthToken n).range.slice cursor.stream.text

/-- Whether the tokens `n` and `n + 1` places ahead touch. -/
def isJoint (cursor : TokenCursor) (n : Nat) : Bool :=
  cursor.index n != cursor.index (n + 1)
    && (cursor.nthToken n).range.stop == (cursor.nthToken (n + 1)).range.start

/-- The position `n` tokens ahead, but never behind the last token. -/
def advance (cursor : TokenCursor) (n : Nat) : TokenCursor :=
  { cursor with position := cursor.index n }

/-- Returns to an earlier position. -/
def moveTo (cursor : TokenCursor) (position : Nat) : TokenCursor := { cursor with position }

end TokenCursor

end LosslessJava
