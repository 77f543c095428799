import LosslessJava.Token
import LosslessJava.Token.Number
import LosslessJava.Token.Quotation

/-!
Lexing: a text becomes tokens, and what lies between them becomes trivia of the tokens. Trailing
trivia ends before a line break, so that the comments of a line lead the next one's first token.

Each form reports how many characters it takes, and the lexer cuts the text there; so the pieces
always make up the text again.
-/
namespace LosslessJava.Lexer

/-- Bytes of a stretch of characters in UTF-8. -/
def width : List Char → Nat
  | [] => 0
  | c :: rest => c.utf8Size + width rest

/-- A block comment after `/*`: up to and with the first `*/`, or to the end of the text. -/
def blockComment : Measure
  | [] => 0
  | c :: rest =>
    if c == '*' && rest.head? == some '/' then 2 else blockComment rest + 1

/-- The trivia piece that begins with `c`, if there is one: its kind, and how many characters it
takes after `c`. Line breaks count as trivia only where `breaks` allows them. -/
def triviaPiece? (breaks : Bool) (c : Char) (rest : List Char) : Option (TriviaKind × Nat) :=
  if Quotation.isLineBreak c then
    if breaks then
      some (.newline, if c == '\r' then Measure.optional (· == '\n') rest else 0)
    else
      none
  else if c == '/' && rest.head? == some '/' then
    some (.singleLineComment, Measure.run (!Quotation.isLineBreak ·) rest)
  else if c == '/' && rest.head? == some '*' then
    some (.multiLineComment, 1 + blockComment (rest.drop 1))
  else if Quotation.isBlank c then
    some (.whitespace, Measure.run Quotation.isBlank rest)
  else
    none

/-- The trivia at the front of a text, and what follows it. -/
def trivia (breaks : Bool) : List Char → Trivia × List Char
  | [] => ([], [])
  | c :: rest =>
    match triviaPiece? breaks c rest with
    | none => ([], c :: rest)
    | some (kind, more) =>
      let (pieces, left) := trivia breaks (rest.drop more)
      (⟨kind, width (c :: rest.take more)⟩ :: pieces, left)
  termination_by text => text.length
  decreasing_by simp only [List.length_drop, List.length_cons]; omega

theorem length_trivia_le (breaks : Bool) (text : List Char) :
    (trivia breaks text).2.length ≤ text.length := by
  fun_induction trivia breaks text with
  | case1 => simp
  | case2 => simp
  | case3 c rest kind more found pieces left split ih =>
    simp only [split, List.length_drop] at ih
    simp only [List.length_cons]
    omega

/-- Punctuation, longer texts before their own beginnings. `>` stands alone: closing nested type
arguments needs the single form, and the parser joins adjacent ones where an operator is meant. -/
def punctuation : List Kind := [
  .ellipsis, .shlEq, .colonColon, .arrow, .eqEq, .bangEq, .ltEq, .shl, .ampAmp, .pipePipe,
  .plusPlus, .minusMinus, .plusEq, .minusEq, .starEq, .slashEq, .percentEq, .ampEq, .pipeEq,
  .caretEq, .leftParen, .rightParen, .leftBrace, .rightBrace, .leftBracket, .rightBracket,
  .semicolon, .comma, .dot, .atSign, .colon, .question, .eq, .bang, .tilde, .lt, .gt, .plus,
  .minus, .star, .slash, .percent, .amp, .pipe, .caret]

/-- How many characters after `c` the kind's text takes, if the text begins with it. -/
def matchText? (c : Char) (rest : List Char) (kind : Kind) : Option (Kind × Nat) :=
  match kind.text?.map String.toList with
  | some (d :: more) => if c == d && more.isPrefixOf rest then some (kind, more.length) else none
  | _ => none

/-- The longest punctuation at the front; any other character is a token of its own. -/
def operator (c : Char) (rest : List Char) : Kind × Nat :=
  (punctuation.findSome? (matchText? c rest)).getD (.unknown, 0)

/-- A name or reserved word. -/
def word (c : Char) (rest : List Char) : Kind × Nat :=
  let more := Measure.run Text.isIdentifierPart rest
  ((Kind.ofReservedWord? (String.ofList (c :: rest.take more))).getD .identifier, more)

/-- The token that begins with `c`: its kind, and how many characters it takes after `c`. -/
def lexeme (c : Char) (rest : List Char) : Kind × Nat :=
  if c.isDigit then Number.scan c rest
  else if Text.isIdentifierStart c then word c rest
  else if c == '\x27' then Quotation.character rest
  else if c == '\x22' then Quotation.string rest
  else if c == '.' && rest.head?.any Char.isDigit then (.floatLiteral, Number.fraction rest)
  else operator c rest

/-- The token at the front of a text that begins at byte `offset`, and the text behind its trivia.
Without a token in front, it is the end of input. -/
def scan (offset : Nat) (text : List Char) : Token × List Char :=
  let before := trivia true text
  let start := offset + before.1.width
  match before.2 with
  | [] => ({ kind := .eof, range := .empty start, leading := before.1 }, [])
  | c :: rest =>
    let found := lexeme c rest
    let after := trivia false (rest.drop found.2)
    ({ kind := found.1, range := ⟨start, start + width (c :: rest.take found.2)⟩,
       leading := before.1, trailing := after.1 }, after.2)

theorem length_scan_lt {offset : Nat} {text : List Char}
    (found : (scan offset text).1.kind ≠ .eof) :
    (scan offset text).2.length < text.length := by
  have before := length_trivia_le true text
  revert found
  simp only [scan]
  split
  · simp
  · next c rest split =>
    intro _
    have behind := length_trivia_le false (rest.drop (lexeme c rest).2)
    simp only [split, List.length_cons] at before
    simp only [List.length_drop] at behind
    dsimp only
    omega

/-- The tokens of a text that begins at byte `offset`, ended by one end of input. -/
def tokensFrom (offset : Nat) (text : List Char) : List Token :=
  let found := scan offset text
  if found.1.kind = .eof then [found.1] else found.1 :: tokensFrom found.1.fullRange.stop found.2
  termination_by text.length
  decreasing_by exact length_scan_lt ‹_›

end Lexer

/-- A text that is lexed one token at a time. The current token is always lexed already. -/
structure Lexer where
  current : Token
  offset : Nat
  rest : List Char
  deriving Repr

namespace Lexer

/-- The state whose current token is the first one of the text left. -/
def startAt (offset : Nat) (text : List Char) : Lexer :=
  let found := scan offset text
  ⟨found.1, found.1.fullRange.stop, found.2⟩

def ofText (text : String) : Lexer := startAt 0 text.toList

/-- The current token, and the state behind it. After the end of input comes another one. -/
def next (lexer : Lexer) : Token × Lexer := (lexer.current, startAt lexer.offset lexer.rest)

end Lexer

/-- All tokens of a text. The last one is the only end of input. -/
def tokenize (text : String) : List Token := Lexer.tokensFrom 0 text.toList

/-- Whether the tokens, trivia included, make up the text. -/
def isLossless (text : String) (tokens : List Token) : Bool :=
  String.join (tokens.map fun token => token.fullRange.slice text) == text

end LosslessJava
