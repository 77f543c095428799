import LosslessJava.Proofs.Classification

/-! Literals on a line. A character or string literal goes from a quote to the next one that no backslash takes along.
Without such a quote on its line, an unknown token goes to the end of the line, and the rest of the text is lexed as if
it were all of it. -/

namespace LosslessJava

open Lexer Quotation

/-- The quotes of literals on a line, and the kinds of these. -/
def Quotation.lineMarks : List (Char × Kind) := [('\x27', .charLiteral), ('\x22', .stringLiteral)]

/-- A token stands at a quote that does not open a text block. -/
structure Token.OpensLine (text : String) (token : Token) (before : List Char) (quote : Char) (rest : List Char) : Prop where
  split : text.toList = before ++ quote :: rest
  start : token.range.start = width before
  plain : ¬ ['\x22', '\x22', '\x22'] <+: quote :: rest

/-- Quotes on a line come to literals or to unknown tokens. -/
structure QuotesLines (text : String) (tokens : List Token) : Prop where
  literal : ∀ token ∈ tokens, ∀ mark ∈ lineMarks, token.kind = mark.2 → ∃ before content behind,
    token.Covers text before (mark.1 :: content ++ [mark.1]) behind ∧ Content mark.1 content ∧
      ∀ front c back, content = front ++ c :: back → isLineBreak c = true → front.getLast? = some '\\'
  closed : ∀ token ∈ tokens, ∀ mark ∈ lineMarks, ∀ before content behind, Content mark.1 content →
    token.OpensLine text before mark.1 (content ++ mark.1 :: behind) →
      token.kind = mark.2 ∧ token.Covers text before (mark.1 :: content ++ [mark.1]) behind
  unfinished : ∀ token ∈ tokens, ∀ mark ∈ lineMarks, ∀ before content behind, Unfinished mark.1 content behind →
    token.OpensLine text before mark.1 (content ++ behind) →
      token.kind = .unknown ∧ token.Covers text before (mark.1 :: content) behind ∧
        ∃ earlier, tokens = earlier ++ token :: (tokenize (String.ofList behind)).map (Token.shift token.range.stop)

private theorem Quotation.Unfinished.settled {quote : Char} {content behind : List Char} (unclosed : Unfinished quote content behind) :
    Settled behind := by
  cases unclosed with
  | line inside ended =>
    cases behind with
    | nil => rw [Settled, trivia]
    | cons c rest => exact trivia_eq_nil (by simp [triviaPiece?, ended c rfl])
  | dangling inside => rw [Settled, trivia]

namespace Lexer

section Marks

variable {mark : Char × Kind} (among : mark ∈ lineMarks)

include among

private theorem mark_proper : mark.1 ≠ '\\' ∧ isLineBreak mark.1 = false := by
  have all : ∀ mark ∈ lineMarks, mark.1 ≠ '\\' ∧ isLineBreak mark.1 = false := by decide
  exact all mark among

/-- At a quote that opens no text block, a literal on a line is read. -/
theorem lexeme_of_mark {rest : List Char} (plain : ¬ ['\x22', '\x22', '\x22'] <+: mark.1 :: rest) :
    lexeme mark.1 rest = onLine mark.1 mark.2 rest := by
  rcases List.mem_pair.mp among with rfl | rfl
  · have word : Text.isIdentifierStart '\x27' = false := by decide +kernel
    simp [lexeme, word, character_eq, Char.isDigit]
  · have word : Text.isIdentifierStart '\x22' = false := by decide +kernel
    have single : rest.take 2 ≠ ['\x22', '\x22'] := by
      intro opens
      refine plain (List.cons_prefix_cons.mpr ⟨rfl, ?_⟩)
      rw [← opens]
      exact List.take_prefix 2 rest
    simp [lexeme, word, string_of_line single, Char.isDigit]

private theorem mark_of_lexeme {c : Char} {rest : List Char} (kind : (lexeme c rest).1 = mark.2) :
    c = mark.1 ∧ (lexeme c rest).2 = (line mark.1 false rest).2 ∧ (line mark.1 false rest).1 = true := by
  have onLine_closed {quote : Char} {whole : Kind} (known : whole ≠ .unknown) (found : (onLine quote whole rest).1 = whole) :
      (line quote false rest).1 = true := by
    by_contra unclosed
    exact known (by simpa [onLine, unclosed] using found.symm)
  have other : ∀ mark ∈ lineMarks, mark.2 ≠ .intLiteral ∧ mark.2 ≠ .floatLiteral ∧ mark.2 ≠ .identifier ∧
      mark.2.isReservedWord = false ∧ mark.2 ∉ Kind.unknown :: punctuation := by decide
  obtain ⟨integer, float, name, reserved, sign⟩ := other mark among
  have form := lexeme_cases c rest
  generalize lexeme c rest = found at form kind
  cases form with
  | number found => rcases found with found | found <;> simp [← kind, found] at integer float
  | word start => rcases (word_kind c rest).2 with found | found <;> simp [← kind, found] at name reserved
  | operator => exact absurd (kind ▸ operator_kind c rest) sign
  | character quote =>
    rw [character_eq] at kind ⊢
    rcases List.mem_pair.mp among with rfl | rfl
    · exact ⟨quote, rfl, onLine_closed (by decide) kind⟩
    · have found := character_kind rest
      rw [character_eq, kind] at found
      simp at found
  | string quote =>
    rcases List.mem_pair.mp among with rfl | rfl
    · have found := string_kind rest
      rw [kind] at found
      simp at found
    · by_cases opens : rest.take 2 = ['\x22', '\x22']
      · rw [string_of_block opens, Reading.behind] at kind
        have found : (block (rest.drop 2)).1 = .textBlock ∨ (block (rest.drop 2)).1 = .unknown := by
          unfold block
          dsimp only
          repeat' split
          all_goals simp
        rcases found with found | found <;> simp [found] at kind
      · rw [string_of_line opens] at kind ⊢
        exact ⟨quote, rfl, onLine_closed (by decide) kind⟩

end Marks

/-- Stretches of a text that are of one width are one stretch. -/
theorem split_unique {front back other behind : List Char} (same : front ++ back = other ++ behind)
    (level : width front = width other) : front = other ∧ back = behind := by
  have empty {more : List Char} (none : width more = 0) : more = [] := by
    by_contra filled
    exact absurd (width_pos filled) (by omega)
  rcases List.append_eq_append_iff.mp same with ⟨more, rfl, rfl⟩ | ⟨more, rfl, rfl⟩
  · rw [width_append] at level
    obtain rfl : more = [] := empty (by omega)
    simp
  · rw [width_append] at level
    obtain rfl : more = [] := empty (by omega)
    simp

theorem start_of_eof {text : String} {token : Token} (member : token ∈ tokenize text) (ended : token.kind = .eof) :
    token.range.start = width text.toList := by
  obtain ⟨earlier, front, rest, split, rfl, -⟩ := scan_of_mem member
  rcases scan_cases (0 + width front) rest with ⟨-, -, scanned⟩ | ⟨lead, c, others, -, cut, -⟩
  · rw [scanned, split, width_append]
    simp [Span.empty]
  · exact absurd ended cut.kind_ne

/-- A token that stands at a quote of a literal on a line is what is read there, and lexing goes on behind it. -/
theorem cut_of_opensLine {text : String} {token : Token} {mark : Char × Kind} {before rest : List Char}
    (member : token ∈ tokenize text) (among : mark ∈ lineMarks) (opens : token.OpensLine text before mark.1 rest) :
    token.kind = (onLine mark.1 mark.2 rest).1 ∧
      token.Covers text before (mark.1 :: rest.take (line mark.1 false rest).2) (rest.drop (line mark.1 false rest).2) ∧
      token.trailing = (trivia false (rest.drop (line mark.1 false rest).2)).1 ∧
      ∃ earlier, tokenize text = earlier ++ token ::
        tokensFrom token.fullRange.stop (trivia false (rest.drop (line mark.1 false rest).2)).2 := by
  have more : token.kind ≠ .eof := by
    intro ended
    have start := start_of_eof member ended
    rw [opens.start, opens.split, width_append, width_cons] at start
    have size := Char.utf8Size_pos mark.1
    omega
  obtain ⟨earlier, front, lead, c, behind, split, cut, tokens⟩ := cut_of_mem member more
  rw [Nat.zero_add] at cut
  have covers := cut.covers split
  have start := opens.start
  rw [covers.range] at start
  obtain ⟨rfl, same⟩ := split_unique (covers.split.symm.trans opens.split) start
  rw [List.cons_append, List.take_append_drop] at same
  cases same
  have read := lexeme_of_mark among opens.plain
  have trailing := cut.trailing
  rw [cut.kind, read]
  rw [read] at covers tokens trailing
  exact ⟨rfl, covers, trailing, earlier, tokens⟩

end Lexer

/-- A character or string literal stands between two of its quotes, with line breaks only where a backslash takes them
along. A quote without another one on its line is an unknown token up to the end of the line or of the text, and what
follows is lexed as if it were all of the text. -/
theorem tokenize_quotesLines (text : String) : QuotesLines text (tokenize text) := by
  refine ⟨fun token member mark among kind => ?_, fun token member mark among before content behind inside opens => ?_,
    fun token member mark among before content behind unclosed opens => ?_⟩
  · have more : token.kind ≠ .eof := by
      have other : ∀ mark ∈ lineMarks, mark.2 ≠ .eof := by decide
      rw [kind]
      exact other mark among
    obtain ⟨earlier, front, lead, c, rest, split, cut, -⟩ := cut_of_mem member more
    rw [Nat.zero_add] at cut
    have covers := cut.covers split
    obtain ⟨rfl, length, closed⟩ := mark_of_lexeme among (cut.kind.symm.trans kind)
    have ends := line_ends mark.1 rest
    rw [length] at covers
    generalize line mark.1 false rest = found at covers closed ends
    cases ends with
    | @closed content behind inside =>
      rw [List.append_cons, List.take_left' (by simp), List.drop_left' (by simp)] at covers
      exact ⟨_, content, behind, covers, inside, fun front c back split lineBreak => inside.backslash_of_break split lineBreak⟩
    | unfinished => cases closed
  · obtain ⟨kind, covers, -⟩ := cut_of_opensLine member among opens
    obtain ⟨proper, inLine⟩ := mark_proper among
    have read := line_eq_of_closed inside proper inLine behind
    rw [onLine, read] at kind
    rw [read, List.append_cons, List.take_left' (by simp), List.drop_left' (by simp)] at covers
    exact ⟨kind, covers⟩
  · obtain ⟨kind, covers, trailing, earlier, tokens⟩ := cut_of_opensLine member among opens
    rw [onLine, unclosed.line_eq] at kind
    rw [unclosed.line_eq, List.take_left, List.drop_left] at covers
    rw [unclosed.line_eq, List.drop_left, unclosed.settled] at trailing tokens
    refine ⟨kind, covers, earlier, ?_⟩
    have stop : token.fullRange.stop = token.range.stop := by simp [Token.fullRange, Span.widen, trailing]
    rw [tokens, stop, tokenize, String.toList_ofList, ← tokensFrom_shift, Nat.add_zero]

/-- A string literal with an escaped quote in it, and a character literal that its line does not close. -/
theorem tokenize_quotesLines_mixed :
    (∃ token ∈ tokenize "\"\\\"\" \x27b\nc", token.kind = .stringLiteral ∧
      token.Covers "\"\\\"\" \x27b\nc" [] ['\x22', '\\', '\x22', '\x22'] [' ', '\x27', 'b', '\n', 'c']) ∧
    ∃ earlier token, tokenize "\"\\\"\" \x27b\nc" = earlier ++ token :: (tokenize "\nc").map (Token.shift token.range.stop) ∧
      token.kind = .unknown ∧
      token.Covers "\"\\\"\" \x27b\nc" ['\x22', '\\', '\x22', '\x22', ' '] ['\x27', 'b'] ['\n', 'c'] := by
  have lines := tokenize_quotesLines "\"\\\"\" \x27b\nc"
  have closed : Content '\x22' ['\\', '\x22'] := .escaped .nil
  have unclosed : Unfinished '\x27' ['b'] ['\n', 'c'] :=
    .line (.plain (by decide) (by decide) (by decide) .nil) (by simp [isLineBreak])
  constructor
  · have member : (⟨.stringLiteral, ⟨0, 4⟩, [], [⟨.whitespace, 1⟩]⟩ : Token) ∈ tokenize "\"\\\"\" \x27b\nc" := by decide +kernel
    exact ⟨_, member, lines.closed _ member ('\x22', .stringLiteral) (by decide) [] _ _ closed ⟨rfl, rfl, by decide⟩⟩
  · obtain ⟨kind, covers, earlier, same⟩ := lines.unfinished ⟨.unknown, ⟨5, 7⟩, [], []⟩ (by decide +kernel)
      ('\x27', .charLiteral) (by decide) ['\x22', '\\', '\x22', '\x22', ' '] _ _ unclosed ⟨rfl, rfl, by decide⟩
    exact ⟨earlier, _, same, kind, covers⟩

/-- A backslash at the end of a line takes the line break into the literal, which goes on to the quote on the next line. -/
theorem stringLiteral_spans_lines :
    ∃ token ∈ tokenize "\"a\\\nb\"", token.kind = .stringLiteral ∧ '\n' ∈ (token.range.slice "\"a\\\nb\"").toList :=
  ⟨{ kind := .stringLiteral, range := ⟨0, 6⟩ }, by decide +kernel, rfl, by decide +kernel⟩

end LosslessJava
