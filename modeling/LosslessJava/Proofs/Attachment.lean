import LosslessJava.Proofs.Lexemes

/-! Trivia and the tokens that it goes with. A line's trivia trails the last token of the line, and what comes from the
line break on leads the next token; each piece is as long as its kind allows. -/

namespace LosslessJava

open Lexer Quotation

/-- What a piece of trivia is made of, between the text before it and the text behind. -/
def TriviaKind.Reads (before chars behind : List Char) : TriviaKind → Prop
  | .newline => chars = ['\r', '\n'] ∨ chars = ['\n'] ∨ chars = ['\r'] ∧ behind.head? ≠ some '\n'
  | .whitespace => chars ≠ [] ∧ (∀ c ∈ chars, isBlank c = true) ∧ (∀ c ∈ before.getLast?, isBlank c = false) ∧
      ∀ c ∈ behind.head?, isBlank c = false
  | .singleLineComment => ∃ content, chars = '/' :: '/' :: content ∧ (∀ c ∈ content, isLineBreak c = false) ∧
      ∀ c ∈ behind.head?, isLineBreak c = true
  | .multiLineComment => ∃ content, ¬ ['*', '/'] <:+: content ∧ (chars = '/' :: '*' :: content ∧ behind = [] ∨
      ∃ inner, content = inner ++ ['*'] ∧ chars = '/' :: '*' :: content ++ ['/'])

/-- Pieces of trivia are made of these characters, one piece after the other. -/
inductive Trivia.Made : List Char → Trivia → List Char → List Char → Prop where
  | nil {before behind : List Char} : Made before [] [] behind
  | cons {before chars more behind : List Char} {piece : TriviaPiece} {pieces : Trivia}
      (reads : piece.kind.Reads before chars (more ++ behind))
      (measured : piece.length = Lexer.width chars) (rest : Made (before ++ chars) pieces more behind) :
      Made before (piece :: pieces) (chars ++ more) behind

/-- The beginning of a token, which is that of no trivia. -/
structure Token.Bare (body : List Char) : Prop where
  head : ∀ c ∈ body.head?, isBlank c = false ∧ isLineBreak c = false
  line : ¬ ['/', '/'] <+: body
  block : ¬ ['/', '*'] <+: body

/-- A token stands between its trivia, of which that behind it stays on its line. -/
structure Token.Attached (text : String) (token : Token) : Prop where
  trailing : ∀ piece ∈ token.trailing, piece.kind ≠ .newline
  ended : token.kind = .eof → token.trailing = []
  made : ∃ front lead body trail back, token.Covers text (front ++ lead) body (trail ++ back) ∧
    Trivia.Made front token.leading lead (body ++ (trail ++ back)) ∧
    Trivia.Made (front ++ lead ++ body) token.trailing trail back ∧ Token.Bare body

/-- Tokens have the trivia that goes with them; but for the first one, what leads a token comes from the line break on. -/
structure Attaches (text : String) (tokens : List Token) : Prop where
  each : ∀ token ∈ tokens, token.Attached text
  later : ∀ token ∈ tokens.tail, ∀ piece ∈ token.leading.head?, piece.kind = .newline

namespace Lexer

def Apart (before behind : List Char) : Prop :=
  (∀ c ∈ before.getLast?, isBlank c = false) ∨ ∀ c ∈ behind.head?, isBlank c = false

section Pieces

variable {before chars behind rest : List Char} {c : Char}

theorem not_blank_of_lineBreak (lineBreak : isLineBreak c = true) : isBlank c = false := by
  rw [Bool.eq_false_iff]
  intro blank
  rcases blank_cases blank with rfl | rfl | rfl <;> cases lineBreak

private theorem apart_of_reads {kind : TriviaKind} (reads : kind.Reads before chars behind) : Apart (before ++ chars) behind := by
  cases kind with
  | newline => rcases reads with rfl | rfl | ⟨rfl, -⟩ <;> exact .inl (by simp [List.getLast?_append, isBlank])
  | whitespace => exact .inr reads.2.2.2
  | singleLineComment =>
    obtain ⟨content, -, -, ended⟩ := reads
    exact .inr fun c first => not_blank_of_lineBreak (ended c first)
  | multiLineComment =>
    obtain ⟨content, -, ⟨-, rfl⟩ | ⟨inner, -, rfl⟩⟩ := reads
    · exact .inr (by simp)
    · refine .inl fun c last => ?_
      rw [← List.append_assoc, List.getLast?_concat] at last
      cases last
      rfl

/-- A block comment ends with the first `*/` or with the text. -/
theorem blockComment_cases (text : List Char) : ∃ content, ¬ ['*', '/'] <:+: content ∧
    (text = content ∧ blockComment text = content.length ∨
      ∃ inner behind, content = inner ++ ['*'] ∧ text = content ++ '/' :: behind ∧ blockComment text = content.length + 1) := by
  fun_induction blockComment text with
  | case1 => exact ⟨[], by simp, .inl ⟨rfl, rfl⟩⟩
  | case2 c rest closes =>
    rw [Bool.and_eq_true, beq_iff_eq, beq_iff_eq] at closes
    obtain ⟨rfl, head⟩ := closes
    obtain ⟨behind, rfl⟩ := List.head?_eq_some_iff.mp head
    exact ⟨['*'], by simp [List.infix_cons_iff], .inr ⟨[], behind, rfl, rfl, rfl⟩⟩
  | case3 c rest goesOn ih =>
    rw [Bool.and_eq_true, beq_iff_eq, beq_iff_eq] at goesOn
    obtain ⟨content, absent, found⟩ := ih
    refine ⟨c :: content, ?_, ?_⟩
    · rw [List.infix_cons_iff, not_or]
      refine ⟨fun ⟨more, same⟩ => goesOn ?_, absent⟩
      cases same
      rcases found with ⟨rfl, -⟩ | ⟨inner, behind, -, rfl, -⟩ <;> exact ⟨rfl, rfl⟩
    · rcases found with ⟨rfl, length⟩ | ⟨inner, behind, rfl, rfl, length⟩
      · exact .inl ⟨rfl, by rw [length, List.length_cons]⟩
      · exact .inr ⟨c :: inner, behind, rfl, rfl, by rw [length, List.length_cons]⟩

private theorem newline_reads (lineBreak : isLineBreak c = true) :
    let more := if c == '\r' then Measure.optional (· == '\n') rest else 0
    TriviaKind.newline.Reads before (c :: rest.take more) (rest.drop more) := by
  intro more
  rcases Bool.or_eq_true_iff.mp lineBreak with feed | carriage
  · obtain rfl := beq_iff_eq.mp feed
    exact .inr (.inl rfl)
  · obtain rfl := beq_iff_eq.mp carriage
    cases rest with
    | nil => exact .inr (.inr ⟨rfl, nofun⟩)
    | cons d rest =>
      by_cases feed : d = '\n'
      · subst feed
        exact .inl rfl
      · have one : more = 0 := by simp [more, Measure.optional, feed]
        rw [one]
        exact .inr (.inr ⟨rfl, by simpa using feed⟩)

private theorem whitespace_reads (blank : isBlank c = true) (apart : Apart before (c :: rest)) :
    TriviaKind.whitespace.Reads before (c :: rest.take (Measure.run isBlank rest)) (rest.drop (Measure.run isBlank rest)) := by
  rw [Measure.take_run, Measure.drop_run]
  refine ⟨by simp, fun d member => ?_, ?_, fun d first => ?_⟩
  · rcases List.mem_cons.mp member with rfl | later
    · exact blank
    · exact List.all_eq_true.mp List.all_takeWhile d later
  · rcases apart with last | first
    · exact last
    · cases blank.symm.trans (first c rfl)
  · have stops := List.head?_dropWhile_not isBlank rest
    rw [Option.mem_def.mp first] at stops
    simpa using stops

private theorem lineComment_reads (content : List Char) :
    let more := Measure.run (!isLineBreak ·) ('/' :: content)
    TriviaKind.singleLineComment.Reads before ('/' :: ('/' :: content).take more) (('/' :: content).drop more) := by
  intro more
  rw [Measure.take_run, Measure.drop_run, List.takeWhile_cons_of_pos rfl, List.dropWhile_cons_of_pos rfl]
  refine ⟨_, rfl, fun d member => ?_, fun d first => ?_⟩
  · simpa using List.all_eq_true.mp List.all_takeWhile d member
  · have stops := List.head?_dropWhile_not (!isLineBreak ·) content
    rw [Option.mem_def.mp first] at stops
    simpa using stops

private theorem blockComment_reads (text : List Char) :
    TriviaKind.multiLineComment.Reads before ('/' :: '*' :: text.take (blockComment text)) (text.drop (blockComment text)) := by
  obtain ⟨content, absent, found⟩ := blockComment_cases text
  refine ⟨content, absent, ?_⟩
  rcases found with ⟨rfl, length⟩ | ⟨inner, behind, rfl, rfl, length⟩
  · rw [length, List.take_length, List.drop_length]
    exact .inl ⟨rfl, rfl⟩
  · refine .inr ⟨inner, rfl, ?_⟩
    rw [length, List.take_length_add_append]
    rfl

private theorem triviaPiece?_reads {breaks : Bool} {kind : TriviaKind} {more : Nat}
    (found : triviaPiece? breaks c rest = some (kind, more)) (apart : Apart before (c :: rest)) :
    kind.Reads before (c :: rest.take more) (rest.drop more) := by
  unfold triviaPiece? at found
  split at found
  · next lineBreak =>
    split at found
    · cases found
      exact newline_reads lineBreak
    · cases found
  split at found
  · next comment =>
    cases found
    rw [Bool.and_eq_true, beq_iff_eq, beq_iff_eq] at comment
    obtain ⟨rfl, head⟩ := comment
    obtain ⟨content, rfl⟩ := List.head?_eq_some_iff.mp head
    exact lineComment_reads content
  split at found
  · next comment =>
    cases found
    rw [Bool.and_eq_true, beq_iff_eq, beq_iff_eq] at comment
    obtain ⟨rfl, head⟩ := comment
    obtain ⟨text, rfl⟩ := List.head?_eq_some_iff.mp head
    rw [Nat.add_comm]
    exact blockComment_reads text
  split at found
  · next blank =>
    cases found
    exact whitespace_reads blank apart
  · cases found

/-- Where no piece of trivia begins, the beginning of a token may stand. -/
theorem bare_of_none (none : triviaPiece? true c rest = none) (n : Nat) : Token.Bare (c :: rest.take n) := by
  unfold triviaPiece? at none
  split at none
  · cases none
  next inLine =>
  split at none
  · cases none
  next line =>
  split at none
  · cases none
  next block =>
  split at none
  · cases none
  next filled =>
  have second {d : Char} (starts : ['/', d] <+: c :: rest.take n) : (c == '/' && rest.head? == some d) = true := by
    obtain ⟨behind, same⟩ := starts
    cases n with
    | zero => cases same
    | succ n =>
      cases rest with
      | nil => cases same
      | cons e rest =>
        cases same
        simp
  exact ⟨by simp [filled, inLine], fun starts => line (second starts), fun starts => block (second starts)⟩

end Pieces

section Runs

private theorem trivia_made (breaks : Bool) {before text : List Char} (apart : Apart before text) :
    ∃ front, text = front ++ (trivia breaks text).2 ∧
      Trivia.Made before (trivia breaks text).1 front (trivia breaks text).2 := by
  fun_induction trivia breaks text generalizing before with
  | case1 => exact ⟨[], rfl, .nil⟩
  | case2 c rest none => exact ⟨[], rfl, .nil⟩
  | case3 c rest kind more found pieces left split ih =>
    have reads := triviaPiece?_reads found apart
    obtain ⟨front, same, made⟩ := ih (apart_of_reads reads)
    rw [split] at same made
    refine ⟨c :: rest.take more ++ front, ?_, .cons ?_ rfl made⟩
    · rw [List.append_assoc, ← same, List.cons_append, List.take_append_drop]
    · rwa [← same]

variable {breaks : Bool} {c : Char} {rest : List Char} {kind : TriviaKind} {more : Nat}

private theorem breaks_of_newline (found : triviaPiece? breaks c rest = some (.newline, more)) : breaks = true := by
  unfold triviaPiece? at found
  split at found
  · split at found
    · assumption
    · cases found
  · repeat' split at found
    all_goals cases found

private theorem newline_of_breaks (found : triviaPiece? true c rest = some (kind, more)) (none : triviaPiece? false c rest = none) :
    kind = .newline := by
  unfold triviaPiece? at found none
  split at found
  · cases found
    rfl
  · next inLine =>
    rw [if_neg inLine] at none
    cases none.symm.trans found

private theorem kind_ne_newline (text : List Char) : ∀ piece ∈ (trivia false text).1, piece.kind ≠ .newline := by
  fun_induction trivia false text with
  | case1 => simp
  | case2 => simp
  | case3 c rest kind more found pieces left split ih =>
    intro piece member
    rcases List.mem_cons.mp member with rfl | later
    · rintro (rfl : kind = .newline)
      cases breaks_of_newline found
    · rw [split] at ih
      exact ih piece later

namespace Settled

variable {text : List Char} (settled : Settled text)

include settled

private theorem none_of_cons (split : text = c :: rest) : triviaPiece? false c rest = none :=
  triviaPiece?_of_left (by rw [settled, split])

private theorem head_not_blank : ∀ c ∈ text.head?, isBlank c = false := by
  intro c first
  obtain ⟨rest, rfl⟩ := List.head?_eq_some_iff.mp first
  have none := settled.none_of_cons rfl
  rw [Bool.eq_false_iff]
  intro blank
  unfold triviaPiece? at none
  split at none
  · next lineBreak => cases blank.symm.trans (not_blank_of_lineBreak lineBreak)
  · split at none
    · cases none
    · split at none
      · cases none
      · cases none

private theorem head_newline : ∀ piece ∈ (trivia true text).1.head?, piece.kind = .newline := by
  cases text with
  | nil => simp [trivia]
  | cons c rest =>
    rw [trivia]
    split
    · simp
    · next kind more found =>
      simp only [List.head?_cons, Option.mem_some_iff, forall_eq']
      exact newline_of_breaks found (settled.none_of_cons rfl)

end Settled

private theorem Cut.attached {text : String} {token : Token} {front lead : List Char} (apart : Apart front (lead ++ c :: rest))
    (split : text.toList = front ++ (lead ++ c :: rest)) (cut : Cut (width front) token lead c rest) :
    token.Attached text := by
  have bare := bare_of_none (triviaPiece?_of_left (by rw [cut.leading])) (lexeme c rest).2
  have leading := trivia_made true apart
  rw [cut.leading] at leading
  obtain ⟨_, same, leading⟩ := leading
  obtain rfl := List.append_cancel_right same
  have parted : Apart (front ++ lead ++ c :: rest.take (lexeme c rest).2) (rest.drop (lexeme c rest).2) := by
    rcases lexeme_apart c rest with last | first
    · refine .inl fun d final => ?_
      rw [List.getLast?_append, List.getLast?_cons] at final
      cases found : (rest.take (lexeme c rest).2).getLast? with
      | none =>
        rw [found] at final
        cases final
        exact (bare.head c rfl).1
      | some e =>
        rw [found] at final
        cases final
        exact last e found
    · exact .inr first
  obtain ⟨trail, behind, trailing⟩ := trivia_made false parted
  refine ⟨cut.trailing ▸ kind_ne_newline _, fun ended => absurd ended cut.kind_ne, front, lead,
    c :: rest.take (lexeme c rest).2, trail, (trivia false (rest.drop (lexeme c rest).2)).2, ?_, ?_, cut.trailing ▸ trailing, bare⟩
  · rw [← behind]
    exact cut.covers split
  · rw [← behind, List.cons_append, List.take_append_drop]
    exact leading

end Runs

end Lexer

open Lexer in
/-- Trivia is attached to the tokens of a text: what stands behind a token on its line trails it, and what comes from the
line break on leads the next token. -/
theorem tokenize_attaches (text : String) : Attaches text (tokenize text) := by
  constructor
  · intro token member
    obtain ⟨earlier, front, rest, split, rfl, -, place⟩ := scan_of_mem member
    have apart : Apart front rest := by
      rcases place with rfl | settled
      · exact .inl (by simp)
      · exact .inr settled.head_not_blank
    rw [Nat.zero_add]
    rcases scan_cases (width front) rest with ⟨ended, left, scanned⟩ | ⟨lead, c, others, rfl, cut, -⟩
    · have leading := trivia_made true apart
      rw [left] at leading
      obtain ⟨lead, same, leading⟩ := leading
      rw [List.append_nil] at same
      subst same
      rw [scanned]
      refine ⟨by simp, fun _ => rfl, front, rest, [], [], [], ⟨by simpa using split, ?_⟩, leading, .nil, ⟨by simp, by simp, by simp⟩⟩
      simp [Span.empty]
    · exact cut.attached apart split
  · intro token member
    have tokens : tokenize text = tokensFrom 0 text.toList := rfl
    rw [tokens, tokensFrom] at member
    split at member
    · cases member
    · next more =>
      have settled := settled_scan more
      obtain ⟨earlier, front, rest, split, rfl, -, place⟩ := scan_of_mem member
      have settled : Settled rest := by
        rcases place with rfl | place
        · rwa [split] at settled
        · exact place
      rw [leading_scan]
      exact settled.head_newline

end LosslessJava
