import LosslessJava.Token.Stream
import Mathlib.Data.List.Chain

/-! Lexing loses nothing. A text is read as a row of tokens, each of which spells the characters it
was made of; all that is said about offsets follows from that. -/

namespace LosslessJava

/-- Where pieces of trivia begin, the first of them at `start`, and where the last one ends. -/
def Trivia.boundaries (start : Nat) : Trivia → List Nat
  | [] => [start]
  | piece :: rest => start :: boundaries (start + piece.length) rest

/-- Where a token and the pieces of its trivia begin and end. -/
def Token.boundaries (token : Token) : List Nat :=
  token.leading.boundaries token.fullRange.start ++ token.trailing.boundaries token.range.stop

/-- Tokens lie side by side from one end of a text to the other, and only the end of input, which
comes last, holds nothing of its own. -/
structure Tiles (text : String) (tokens : List Token) : Prop where
  starts : tokens.head?.map (·.fullRange.start) = some 0
  adjoin : tokens.IsChain fun token next => token.fullRange.stop = next.fullRange.start
  stops : tokens.getLast?.map (·.fullRange.stop) = some text.utf8ByteSize
  led : ∀ token ∈ tokens, token.leading.width ≤ token.range.start
  boundaries : ∀ token ∈ tokens, ∀ offset ∈ token.boundaries, String.Pos.Raw.IsValid text ⟨offset⟩
  filled : ∀ token ∈ tokens, token.kind ≠ .eof → token.range.start < token.range.stop
  pieces : ∀ token ∈ tokens, ∀ piece ∈ token.leading ++ token.trailing, 0 < piece.length
  ended : ∃ front last, tokens = front ++ [last] ∧ (∀ token ∈ front, token.kind ≠ .eof) ∧
    last.kind = .eof ∧ last.range.start = last.range.stop

namespace Lexer

@[simp] theorem width_nil : width [] = 0 := rfl

@[simp] theorem width_cons (c : Char) (rest : List Char) :
    width (c :: rest) = c.utf8Size + width rest := rfl

@[simp] theorem width_append (front back : List Char) :
    width (front ++ back) = width front + width back := by
  induction front with
  | nil => simp
  | cons c rest ih =>
    simp only [List.cons_append, width_cons, ih]
    omega

theorem width_pos {chars : List Char} (filled : chars ≠ []) : 0 < width chars := by
  cases chars with
  | nil => exact absurd rfl filled
  | cons c rest =>
    have size := c.utf8Size_pos
    simp only [width_cons]
    omega

theorem utf8ByteSize_ofList (chars : List Char) : (String.ofList chars).utf8ByteSize = width chars := by
  induction chars with
  | nil => rfl
  | cons c rest ih =>
    have split : String.ofList (c :: rest) = String.ofList [c] ++ String.ofList rest := by
      rw [← String.ofList_append, List.singleton_append]
    have single : (String.ofList [c]).utf8ByteSize = c.utf8Size := by
      rw [← String.singleton_eq_ofList, String.utf8ByteSize_singleton]
    rw [split, String.utf8ByteSize_append, ih, single, width_cons]

theorem utf8ByteSize_eq (text : String) : text.utf8ByteSize = width text.toList := by
  rw [← utf8ByteSize_ofList, String.ofList_toList]

/-- Between a text's characters there are only valid offsets. -/
theorem isValid_of_append {text : String} {front back : List Char} (split : text.toList = front ++ back) :
    String.Pos.Raw.IsValid text ⟨width front⟩ := by
  refine String.Pos.Raw.isValid_iff_exists_append.mpr ⟨.ofList front, .ofList back, ?_, ?_⟩
  · rw [← String.ofList_append, ← split, String.ofList_toList]
  · exact String.Pos.Raw.ext (utf8ByteSize_ofList front).symm

/-- Trivia is made of these characters, each piece of at least one. -/
inductive Spells : Trivia → List Char → Prop where
  | nil : Spells [] []
  | cons {piece rest front back} (filled : front ≠ []) (measured : piece.length = width front)
      (others : Spells rest back) : Spells (piece :: rest) (front ++ back)

structure Spelled (offset : Nat) (token : Token) (lead body trail : List Char) : Prop where
  leading : Spells token.leading lead
  trailing : Spells token.trailing trail
  range : token.range = ⟨offset + width lead, offset + width lead + width body⟩
  ended : token.kind = .eof ↔ body = []
  last : token.kind = .eof → trail = []
  isToken : token.kind.isToken
  reads : ∀ word, token.kind.text? = some word → String.ofList body = word

/-- Tokens from an offset on are made of these characters, and the only end of input is the last. -/
inductive Row : Nat → List Token → List Char → Prop where
  | last {offset token lead body trail} (spelled : Spelled offset token lead body trail)
      (ended : token.kind = .eof) : Row offset [token] (lead ++ (body ++ trail))
  | cons {offset token lead body trail tokens rest} (spelled : Spelled offset token lead body trail)
      (more : token.kind ≠ .eof)
      (others : Row (offset + width (lead ++ (body ++ trail))) tokens rest) :
      Row offset (token :: tokens) (lead ++ (body ++ trail) ++ rest)

theorem Spells.width_eq {trivia : Trivia} {chars : List Char} (spells : Spells trivia chars) :
    trivia.width = width chars := by
  induction spells with
  | nil => rfl
  | cons _ measured _ ih => rw [Trivia.width_cons, measured, ih, width_append]

theorem trivia_spells (breaks : Bool) (text : List Char) :
    ∃ front, text = front ++ (trivia breaks text).2 ∧ Spells (trivia breaks text).1 front := by
  fun_induction trivia breaks text with
  | case1 => exact ⟨[], rfl, .nil⟩
  | case2 c rest none => exact ⟨[], rfl, .nil⟩
  | case3 c rest kind more found pieces left split ih =>
    obtain ⟨front, same, spells⟩ := ih
    rw [split] at same spells
    refine ⟨(c :: rest.take more) ++ front, ?_, .cons (by simp) rfl spells⟩
    rw [List.append_assoc, ← same, List.cons_append, List.take_append_drop]

section Kinds

def Holds (kind : Kind) : Prop := kind.isToken ∧ kind ≠ .eof

instance (kind : Kind) : Decidable (Holds kind) := by
  unfold Holds
  infer_instance

def Varied (kind : Kind) : Prop := Holds kind ∧ kind.text? = none

theorem varied_number (first : Char) (text : List Char) : Varied (Number.scan first text).1 := by
  have decimal (text : List Char) : Varied (Number.decimal text).1 := by
    unfold Number.decimal
    dsimp only
    repeat' split
    all_goals exact ⟨⟨rfl, nofun⟩, rfl⟩
  have hexadecimal (text : List Char) : Varied (Number.hexadecimal text).1 := by
    unfold Number.hexadecimal
    dsimp only
    split <;> exact ⟨⟨rfl, nofun⟩, rfl⟩
  unfold Number.scan
  split
  · split
    · exact hexadecimal _
    · split
      · exact ⟨⟨rfl, nofun⟩, rfl⟩
      · exact decimal _
  · exact decimal _

theorem varied_string (text : List Char) : Varied (Quotation.string text).1 := by
  have block (text : List Char) : Varied (Quotation.block text).1 := by
    unfold Quotation.block
    dsimp only
    split
    · exact ⟨⟨rfl, by simp⟩, rfl⟩
    · split
      · dsimp only
        split <;> exact ⟨⟨rfl, by simp⟩, rfl⟩
      · exact ⟨⟨rfl, by simp⟩, rfl⟩
  unfold Quotation.string
  split
  · exact block _
  · dsimp only
    split <;> exact ⟨⟨rfl, by simp⟩, rfl⟩

theorem varied_character (text : List Char) : Varied (Quotation.character text).1 := by
  unfold Quotation.character
  dsimp only
  split <;> exact ⟨⟨rfl, nofun⟩, rfl⟩

/-- A kind that holds characters and a number of them behind the first one; if the kind has a text of its own, it is
that of the characters. -/
structure Reads (c : Char) (rest : List Char) (found : Kind × Nat) : Prop where
  holds : Holds found.1
  reads : ∀ word, found.1.text? = some word → String.ofList (c :: rest.take found.2) = word

variable {c : Char} {rest : List Char}

theorem Varied.reads {found : Kind × Nat} (varied : Varied found.1) : Reads c rest found :=
  ⟨varied.1, fun word same => by cases varied.2.symm.trans same⟩

theorem reads_word (c : Char) (rest : List Char) : Reads c rest (word c rest) := by
  unfold word
  dsimp only
  cases found : Kind.ofReservedWord? (String.ofList (c :: rest.take (Measure.run Text.isIdentifierPart rest))) with
  | none => exact Varied.reads ⟨⟨rfl, nofun⟩, rfl⟩
  | some kind =>
    have reserved := List.find?_some found
    simp only [Bool.and_eq_true, beq_iff_eq] at reserved
    have words : ∀ kind ∈ Kind.all, kind.isReservedWord → Holds kind := by decide +kernel
    exact ⟨words kind (Kind.mem_all kind) reserved.1, fun word same => Option.some.inj (reserved.2.symm.trans same)⟩

theorem reads_operator (c : Char) (rest : List Char) : Reads c rest (operator c rest) := by
  unfold operator
  cases found : punctuation.findSome? (matchText? c rest) with
  | none => exact Varied.reads ⟨⟨rfl, nofun⟩, rfl⟩
  | some longest =>
    obtain ⟨kind, member, matched⟩ := List.exists_of_findSome?_eq_some found
    have marks : ∀ kind ∈ punctuation, Holds kind := by decide
    unfold matchText? at matched
    split at matched
    · next d more spelled =>
      split at matched
      · next begins =>
        cases matched
        refine ⟨marks kind member, fun word same => ?_⟩
        rw [show kind.text? = some word from same, Option.map_some, Option.some.injEq] at spelled
        rw [Bool.and_eq_true, beq_iff_eq, List.isPrefixOf_iff_prefix] at begins
        show String.ofList (c :: rest.take more.length) = word
        rw [begins.1, ← List.prefix_iff_eq_take.mp begins.2, ← spelled, String.ofList_toList]
      · cases matched
    · cases matched

theorem reads_lexeme (c : Char) (rest : List Char) : Reads c rest (lexeme c rest) := by
  unfold lexeme
  split
  · exact (varied_number c rest).reads
  split
  · exact reads_word c rest
  split
  · exact (varied_character rest).reads
  split
  · exact (varied_string rest).reads
  split
  · exact Varied.reads ⟨⟨rfl, nofun⟩, rfl⟩
  · exact reads_operator c rest

end Kinds

section Rows

/-- The token at the front of a text is spelled by what stands in front of the text left. -/
theorem scan_spelled (offset : Nat) (text : List Char) :
    ∃ lead body trail, text = lead ++ (body ++ trail) ++ (scan offset text).2 ∧
      Spelled offset (scan offset text).1 lead body trail ∧
      ((scan offset text).1.kind = .eof → (scan offset text).2 = []) := by
  obtain ⟨lead, same, leading⟩ := trivia_spells true text
  have measured : (trivia true text).1.width = width lead := leading.width_eq
  unfold scan
  dsimp only
  split
  · next ended =>
    rw [ended, List.append_nil] at same
    refine ⟨lead, [], [], by simpa using same, ⟨leading, .nil, ?_, by simp, by simp, rfl, ?_⟩, by simp⟩
    · simp [Span.empty, measured]
    · intro word impossible
      cases impossible
  · next c rest more =>
    obtain ⟨trail, behind, trailing⟩ := trivia_spells false (rest.drop (lexeme c rest).2)
    obtain ⟨holds, reads⟩ := reads_lexeme c rest
    refine ⟨lead, c :: rest.take (lexeme c rest).2, trail, ?_, ⟨leading, trailing, ?_, ?_, ?_, holds.1, reads⟩, ?_⟩
    · rw [more] at same
      rw [List.append_assoc, List.append_assoc, ← behind, List.cons_append, List.take_append_drop]
      exact same
    · simp [measured]
    · simp [holds.2]
    · simp [holds.2]
    · simp [holds.2]

theorem Spelled.fullRange {offset : Nat} {token : Token} {lead body trail : List Char}
    (spelled : Spelled offset token lead body trail) :
    token.fullRange = ⟨offset, offset + width (lead ++ (body ++ trail))⟩ := by
  have before := spelled.leading.width_eq
  have behind := spelled.trailing.width_eq
  simp only [Token.fullRange, Span.widen, spelled.range, before, behind, width_append]
  congr 1 <;> omega

theorem tokensFrom_row (offset : Nat) (text : List Char) : Row offset (tokensFrom offset text) text := by
  fun_induction tokensFrom offset text with
  | case1 offset text found ended =>
    obtain ⟨lead, body, trail, same, spelled, last⟩ := scan_spelled offset text
    rw [last ended, List.append_nil] at same
    have row := Row.last spelled ended
    rw [← same] at row
    exact row
  | case2 offset text found more ih =>
    obtain ⟨lead, body, trail, same, spelled, -⟩ := scan_spelled offset text
    have reached : found.1.fullRange.stop = offset + width (lead ++ (body ++ trail)) := by
      rw [spelled.fullRange]
    rw [reached] at ih
    have row := Row.cons spelled more ih
    rw [← same] at row
    exact reached ▸ row

namespace Row

variable {offset : Nat} {tokens : List Token} {chars : List Char}

theorem starts (row : Row offset tokens chars) :
    tokens.head?.map (·.fullRange.start) = some offset := by
  cases row with
  | last spelled => simp [spelled.fullRange]
  | cons spelled => simp [spelled.fullRange]

private theorem adjoin (row : Row offset tokens chars) :
    tokens.IsChain fun token next => token.fullRange.stop = next.fullRange.start := by
  induction row with
  | last => exact .singleton _
  | @cons offset token lead body trail tokens rest spelled more others ih =>
    have next := others.starts
    cases tokens with
    | nil => exact .singleton _
    | cons second tokens =>
      simp only [List.head?_cons, Option.map_some, Option.some.injEq] at next
      exact .cons_cons (by rw [spelled.fullRange, next]) ih

private theorem stops (row : Row offset tokens chars) :
    tokens.getLast?.map (·.fullRange.stop) = some (offset + width chars) := by
  induction row with
  | last spelled => simp [spelled.fullRange]
  | cons spelled more others ih =>
    cases others <;> simpa [List.getLast?_cons_cons, Nat.add_assoc] using ih

/-- Every token is spelled by characters at its place in the text. -/
theorem spelled_of_mem (row : Row offset tokens chars) {token : Token} (member : token ∈ tokens) :
    ∃ front lead body trail back, chars = front ++ (lead ++ (body ++ (trail ++ back))) ∧
      Spelled (offset + width front) token lead body trail := by
  induction row with
  | @last offset token' lead body trail spelled =>
    obtain rfl := List.mem_singleton.mp member
    exact ⟨[], lead, body, trail, [], by simp, spelled⟩
  | @cons offset token' lead body trail tokens rest spelled more others ih =>
    rcases List.mem_cons.mp member with rfl | later
    · exact ⟨[], lead, body, trail, rest, by simp, spelled⟩
    · obtain ⟨front, lead', body', trail', back, rfl, spelled'⟩ := ih later
      refine ⟨lead ++ (body ++ trail) ++ front, lead', body', trail', back, by simp, ?_⟩
      rw [width_append, ← Nat.add_assoc]
      exact spelled'

private theorem ended (row : Row offset tokens chars) :
    ∃ front last, tokens = front ++ [last] ∧ (∀ token ∈ front, token.kind ≠ .eof) ∧
      last.kind = .eof ∧ last.range.start = last.range.stop := by
  induction row with
  | @last offset token lead body trail spelled ended =>
    have empty := spelled.ended.mp ended
    exact ⟨[], token, rfl, by simp, ended, by simp [spelled.range, empty]⟩
  | @cons offset token lead body trail tokens rest spelled more others ih =>
    obtain ⟨front, last, rfl, before, ended, empty⟩ := ih
    exact ⟨token :: front, last, rfl, by simpa using ⟨more, before⟩, ended, empty⟩

/-- What stands behind all other tokens is the trivia of the end of input. -/
theorem remainder (row : Row offset tokens chars) :
    ∃ front last before lead, tokens = front ++ [last] ∧ last.kind = .eof ∧ chars = before ++ lead ∧
      last.fullRange.start = offset + width before ∧ last.range.start = offset + width chars := by
  induction row with
  | @last offset token lead body trail spelled ended =>
    obtain rfl := spelled.ended.mp ended
    obtain rfl := spelled.last ended
    exact ⟨[], token, [], lead, rfl, ended, by simp, by simp [spelled.fullRange], by simp [spelled.range]⟩
  | @cons offset token lead body trail tokens rest spelled more others ih =>
    obtain ⟨front, last, before, lead', rfl, ended, rfl, starts, stops⟩ := ih
    refine ⟨token :: front, last, lead ++ (body ++ trail) ++ before, lead', rfl, ended, by simp, ?_, ?_⟩
    · rw [starts, width_append (lead ++ (body ++ trail)), Nat.add_assoc]
    · rw [stops, width_append (lead ++ (body ++ trail)), Nat.add_assoc]

end Row

private theorem Spells.pieces {trivia : Trivia} {chars : List Char} (spells : Spells trivia chars)
    {piece : TriviaPiece} (member : piece ∈ trivia) : 0 < piece.length := by
  induction spells with
  | nil => cases member
  | cons filled measured _ ih =>
    rcases List.mem_cons.mp member with rfl | later
    · exact measured ▸ width_pos filled
    · exact ih later

private theorem Spells.boundaries {text : String} {trivia : Trivia} {chars front back : List Char}
    (spells : Spells trivia chars) (split : text.toList = front ++ (chars ++ back)) {offset : Nat}
    (member : offset ∈ trivia.boundaries (width front)) : String.Pos.Raw.IsValid text ⟨offset⟩ := by
  induction spells generalizing front with
  | nil =>
    obtain rfl := List.mem_singleton.mp member
    exact isValid_of_append split
  | @cons piece rest first others filled measured _ ih =>
    rcases List.mem_cons.mp member with rfl | later
    · exact isValid_of_append split
    · rw [measured, ← width_append] at later
      exact ih (by simpa using split) later

end Rows

end Lexer

open Lexer in
/-- The tokens of a text tile it. -/
theorem tokenize_tiles (text : String) : Tiles text (tokenize text) := by
  have row := tokensFrom_row 0 text.toList
  have spelled {token : Token} (member : token ∈ tokenize text) :
      ∃ front lead body trail back, text.toList = front ++ (lead ++ (body ++ (trail ++ back))) ∧
        Spelled (width front) token lead body trail := by
    simpa using row.spelled_of_mem member
  refine ⟨row.starts, row.adjoin, ?_, ?_, ?_, ?_, ?_, row.ended⟩
  · rw [utf8ByteSize_eq, ← Nat.zero_add (width text.toList)]
    exact row.stops
  · intro token member
    obtain ⟨front, lead, body, trail, back, split, spelled⟩ := spelled member
    rw [spelled.leading.width_eq, spelled.range]
    exact Nat.le_add_left ..
  · intro token member offset inside
    obtain ⟨front, lead, body, trail, back, split, spelled⟩ := spelled member
    rcases List.mem_append.mp inside with before | behind
    · rw [spelled.fullRange] at before
      exact spelled.leading.boundaries split before
    · rw [spelled.range] at behind
      simp only [← width_append] at behind
      exact spelled.trailing.boundaries (by simpa using split) behind
  · intro token member more
    obtain ⟨front, lead, body, trail, back, split, spelled⟩ := spelled member
    have filled : body ≠ [] := fun empty => more (spelled.ended.mpr empty)
    have size := width_pos filled
    simp only [spelled.range]
    omega
  · intro token member piece inside
    obtain ⟨front, lead, body, trail, back, split, spelled⟩ := spelled member
    rcases List.mem_append.mp inside with before | behind
    · exact spelled.leading.pieces before
    · exact spelled.trailing.pieces behind

end LosslessJava
