import LosslessJava.Proofs.Lexing

/-! Lexing goes on from token to token. What a token is depends on the text from its own trivia on and on nothing before
it; so all that can be said of the token at the front of a text holds of every token, and behind each of them the lexer
does what it would do with the rest alone. -/

namespace LosslessJava

/-- The token that far behind its place. -/
def Token.shift (distance : Nat) (token : Token) : Token :=
  { token with range := ⟨distance + token.range.start, distance + token.range.stop⟩ }

/-- A token covers these characters of a text, which stand between those before and those behind. -/
structure Token.Covers (text : String) (token : Token) (before body behind : List Char) : Prop where
  split : text.toList = before ++ (body ++ behind)
  range : token.range = ⟨Lexer.width before, Lexer.width before + Lexer.width body⟩

namespace Lexer

def Settled (text : List Char) : Prop := trivia false text = ([], text)

section Trivia

variable {breaks : Bool} {c : Char} {rest : List Char}

theorem trivia_eq_nil (none : triviaPiece? breaks c rest = none) : trivia breaks (c :: rest) = ([], c :: rest) := by
  rw [trivia, none]

theorem triviaPiece?_of_left {text : List Char} (left : (trivia breaks text).2 = c :: rest) :
    triviaPiece? breaks c rest = none := by
  fun_induction trivia breaks text with
  | case1 => cases left
  | case2 d others none =>
    cases left
    exact none
  | case3 d others kind more found pieces behind split ih =>
    rw [split] at ih
    exact ih left

private theorem trivia_left (breaks : Bool) (text : List Char) :
    trivia breaks (trivia breaks text).2 = ([], (trivia breaks text).2) := by
  cases left : (trivia breaks text).2 with
  | nil => rw [trivia]
  | cons c rest => exact trivia_eq_nil (triviaPiece?_of_left left)

end Trivia

section Cuts

/-- What comes out of a text whose first token begins with `c`: the characters of its trivia, and what it is cut from. -/
structure Cut (offset : Nat) (token : Token) (lead : List Char) (c : Char) (rest : List Char) : Prop where
  leading : trivia true (lead ++ c :: rest) = (token.leading, c :: rest)
  spells : Spells token.leading lead
  kind : token.kind = (lexeme c rest).1
  range : token.range = ⟨offset + width lead, offset + width lead + width (c :: rest.take (lexeme c rest).2)⟩
  trailing : token.trailing = (trivia false (rest.drop (lexeme c rest).2)).1

variable {offset : Nat} {text : List Char} {token : Token}

/-- A token at the front of a text is the end of input, or it is cut off. -/
theorem scan_cases (offset : Nat) (text : List Char) :
    ((scan offset text).1.kind = .eof ∧ (trivia true text).2 = [] ∧
      (scan offset text).1 = { kind := .eof, range := .empty (offset + width text), leading := (trivia true text).1 }) ∨
    ∃ lead c rest, text = lead ++ c :: rest ∧ Cut offset (scan offset text).1 lead c rest ∧
      (scan offset text).2 = (trivia false (rest.drop (lexeme c rest).2)).2 := by
  obtain ⟨lead, same, leading⟩ := trivia_spells true text
  have measured : (trivia true text).1.width = width lead := leading.width_eq
  cases left : (trivia true text).2 with
  | nil =>
    rw [left, List.append_nil] at same
    have scanned : scan offset text =
        ({ kind := .eof, range := .empty (offset + width text), leading := (trivia true text).1 }, []) := by
      rw [scan, left, measured, same]
    exact .inl ⟨by rw [scanned], rfl, by rw [scanned]⟩
  | cons c rest =>
    rw [left] at same
    refine .inr ⟨lead, c, rest, same, ?_, by rw [scan, left]⟩
    have front : trivia true (lead ++ c :: rest) = ((trivia true text).1, c :: rest) := by rw [← same, ← left]
    rw [scan, left]
    exact ⟨front, leading, rfl, by rw [measured], rfl⟩

theorem leading_scan (offset : Nat) (text : List Char) : (scan offset text).1.leading = (trivia true text).1 := by
  unfold scan
  dsimp only
  split <;> rfl

/-- Behind a token that is cut off, no trivia of its line is left. -/
theorem settled_scan (more : (scan offset text).1.kind ≠ .eof) : Settled (scan offset text).2 := by
  rcases scan_cases offset text with ⟨ended, -⟩ | ⟨_, _, _, -, -, left⟩
  · exact absurd ended more
  · rw [left]
    exact trivia_left false _

theorem Cut.kind_ne {lead : List Char} {c : Char} {rest : List Char} (cut : Cut offset token lead c rest) :
    token.kind ≠ .eof := by
  rw [cut.kind]
  exact (reads_lexeme c rest).holds.2

/-- Every token is the first one of the rest of the text, which is lexed as if nothing stood before it. -/
theorem scan_of_mem (member : token ∈ tokensFrom offset text) :
    ∃ earlier front rest, text = front ++ rest ∧ token = (scan (offset + width front) rest).1 ∧
      tokensFrom offset text = earlier ++ tokensFrom (offset + width front) rest ∧ (front = [] ∨ Settled rest) := by
  fun_induction tokensFrom offset text with
  | case1 offset text found ended =>
    obtain rfl := List.mem_singleton.mp member
    refine ⟨[], [], text, rfl, rfl, ?_, .inl rfl⟩
    rw [width_nil, Nat.add_zero, tokensFrom, if_pos ended]
    rfl
  | case2 offset text found more ih =>
    rcases List.mem_cons.mp member with rfl | later
    · refine ⟨[], [], text, rfl, rfl, ?_, .inl rfl⟩
      rw [width_nil, Nat.add_zero]
      conv_rhs => rw [tokensFrom, if_neg more]
      rfl
    · obtain ⟨lead, body, trail, same, spelled, -⟩ := scan_spelled offset text
      have reached : found.1.fullRange.stop = offset + width (lead ++ (body ++ trail)) := by rw [spelled.fullRange]
      have settled : Settled found.2 := settled_scan more
      obtain ⟨earlier, front, rest, split, scanned, tokens, place⟩ := ih later
      refine ⟨found.1 :: earlier, lead ++ (body ++ trail) ++ front, rest, ?_, ?_, ?_, ?_⟩
      · rw [List.append_assoc, ← split]
        exact same
      · rw [width_append, ← Nat.add_assoc, ← reached]
        exact scanned
      · rw [width_append, ← Nat.add_assoc, ← reached, tokens, List.cons_append]
      · rcases place with rfl | place
        · rw [split] at settled
          exact .inr settled
        · exact .inr place

/-- Every token but the end of input is cut off from the rest of the text, and behind it lexing goes on. -/
theorem cut_of_mem (member : token ∈ tokensFrom offset text) (more : token.kind ≠ .eof) :
    ∃ earlier front lead c rest, text = front ++ (lead ++ c :: rest) ∧ Cut (offset + width front) token lead c rest ∧
      tokensFrom offset text =
        earlier ++ token :: tokensFrom token.fullRange.stop (trivia false (rest.drop (lexeme c rest).2)).2 := by
  obtain ⟨earlier, front, text, rfl, rfl, tokens, -⟩ := scan_of_mem member
  rcases scan_cases (offset + width front) text with ⟨ended, -⟩ | ⟨lead, c, rest, rfl, cut, left⟩
  · exact absurd ended more
  · refine ⟨earlier, front, lead, c, rest, rfl, cut, ?_⟩
    rw [tokens, tokensFrom, if_neg more, left]

/-- A token covers the characters behind its leading trivia that its lexeme takes. -/
theorem Cut.covers {text : String} {front lead : List Char} {c : Char} {rest : List Char}
    (split : text.toList = front ++ (lead ++ c :: rest)) (cut : Cut (width front) token lead c rest) :
    token.Covers text (front ++ lead) (c :: rest.take (lexeme c rest).2) (rest.drop (lexeme c rest).2) where
  split := by simp [split]
  range := by rw [cut.range, width_append]

end Cuts

section Shifts

private theorem scan_shift (distance offset : Nat) (text : List Char) :
    scan (distance + offset) text = ((scan offset text).1.shift distance, (scan offset text).2) := by
  unfold scan
  dsimp only
  split
  · simp [Token.shift, Span.empty, Nat.add_assoc]
  · simp [Token.shift, Nat.add_assoc]

private theorem stop_shift (distance : Nat) {token : Token} :
    (token.shift distance).fullRange.stop = distance + token.fullRange.stop := by
  simp [Token.shift, Token.fullRange, Span.widen, Nat.add_assoc]

/-- The tokens of a text that begins further behind are the same ones, that far behind their places. -/
theorem tokensFrom_shift (distance offset : Nat) (text : List Char) :
    tokensFrom (distance + offset) text = (tokensFrom offset text).map (Token.shift distance) := by
  fun_induction tokensFrom offset text with
  | case1 offset text found ended =>
    have scanned : scan (distance + offset) text = (found.1.shift distance, found.2) := scan_shift distance offset text
    have ended : (found.1.shift distance).kind = .eof := ended
    rw [tokensFrom, scanned, if_pos ended]
    rfl
  | case2 offset text found more ih =>
    have scanned : scan (distance + offset) text = (found.1.shift distance, found.2) := scan_shift distance offset text
    have more : (found.1.shift distance).kind ≠ .eof := more
    rw [tokensFrom, scanned, if_neg more, stop_shift, ih]
    rfl

end Shifts

end Lexer

end LosslessJava
