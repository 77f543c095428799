import LosslessJava.Proofs.Lexemes

/-! What the lexer takes tokens for. A kind that has a text is given to that text alone, a word is as long as it can be
and reserved just if it is spelled so, and of the marks the longest one is taken. Two sorts of kinds are never given: the
marks that begin with `>`, which stands alone, and words that are keywords in some places only. -/

namespace LosslessJava

/-- Separators and operators, with those that are put together from several tokens. -/
def Kind.isPunctuation (kind : Kind) : Bool := decide (kind.ordinal ≤ Kind.ushrEq.ordinal)

/-- A kind is the right one for the characters that a token is made of, where so much of the text stands behind them. -/
structure Kind.Fits (kind : Kind) (body behind : List Char) : Prop where
  reads : ∀ word, kind.text? = some word → String.ofList body = word
  single : kind ∉ [.gtEq, .shr, .ushr, .shrEq, .ushrEq]
  plain : kind.isContextualKeyword = false
  word : kind = .identifier ∨ kind.isReservedWord = true →
    (∃ first rest, body = first :: rest ∧ Text.isIdentifierStart first = true ∧ ∀ c ∈ rest, Text.isIdentifierPart c = true) ∧
    (∀ c ∈ behind.head?, Text.isIdentifierPart c = false) ∧
    (kind = .identifier ↔ ∀ reserved : Kind, reserved.isReservedWord = true → reserved.text? ≠ some (String.ofList body))
  longest : kind.isPunctuation = true → kind ≠ .gt → ∀ (other : Kind) word, other.isPunctuation = true →
    other.text? = some word → word.toList <+: body ++ behind → word.length ≤ body.length

namespace Lexer

section Forms

variable {c : Char} {rest : List Char}

/-- The forms that tokens have. -/
inductive Form (c : Char) (rest : List Char) : Kind × Nat → Prop where
  | number {found} (kind : found.1 = .intLiteral ∨ found.1 = .floatLiteral) : Form c rest found
  | word (start : Text.isIdentifierStart c = true) : Form c rest (word c rest)
  | character (quote : c = '\x27') : Form c rest (Quotation.character rest)
  | string (quote : c = '\x22') : Form c rest (Quotation.string rest)
  | operator : Form c rest (operator c rest)

private theorem number_kind (first : Char) (text : List Char) :
    (Number.scan first text).1 = .intLiteral ∨ (Number.scan first text).1 = .floatLiteral := by
  unfold Number.scan Number.hexadecimal Number.decimal
  dsimp only
  repeat' split
  all_goals first | exact .inl rfl | exact .inr rfl

theorem lexeme_cases (c : Char) (rest : List Char) : Form c rest (lexeme c rest) := by
  unfold lexeme
  split
  · exact .number (number_kind c rest)
  split
  · next start => exact .word start
  split
  · next quote => exact .character (beq_iff_eq.mp quote)
  split
  · next quote => exact .string (beq_iff_eq.mp quote)
  split
  · exact .number (.inr rfl)
  · exact .operator

end Forms

section Words

variable {c : Char} {rest : List Char}

/-- A word is reserved just if it is spelled as one. -/
theorem word_kind (c : Char) (rest : List Char) :
    ((word c rest).1 = .identifier ↔ ∀ reserved : Kind, reserved.isReservedWord = true →
      reserved.text? ≠ some (String.ofList (c :: rest.take (word c rest).2))) ∧
    ((word c rest).1 = .identifier ∨ (word c rest).1.isReservedWord = true) := by
  unfold word
  dsimp only
  cases found : Kind.ofReservedWord? (String.ofList (c :: rest.take (Measure.run Text.isIdentifierPart rest))) with
  | none =>
    refine ⟨⟨fun _ reserved isReserved same => ?_, fun _ => rfl⟩, .inl rfl⟩
    have missed := List.find?_eq_none.mp found reserved (Kind.mem_all reserved)
    simp [isReserved, same] at missed
  | some kind =>
    have reserved := List.find?_some found
    simp only [Bool.and_eq_true, beq_iff_eq] at reserved
    have other : kind ≠ .identifier := by
      rintro rfl
      cases reserved.1
    exact ⟨⟨fun same => absurd same other, fun none => absurd reserved.2 (none kind reserved.1)⟩, .inr reserved.1⟩

private theorem word_ends (c : Char) (rest : List Char) :
    (∀ d ∈ rest.take (word c rest).2, Text.isIdentifierPart d = true) ∧
      ∀ d ∈ (rest.drop (word c rest).2).head?, Text.isIdentifierPart d = false := by
  have length : (word c rest).2 = Measure.run Text.isIdentifierPart rest := rfl
  rw [length, Measure.take_run, Measure.drop_run]
  refine ⟨List.all_eq_true.mp List.all_takeWhile, fun d first => ?_⟩
  have stops := List.head?_dropWhile_not Text.isIdentifierPart rest
  rw [Option.mem_def.mp first] at stops
  simpa using stops

end Words

section Marks

variable {c : Char} {rest : List Char}

/-- Where the text of a mark goes on as that of another one, the longer one is looked for first. -/
theorem longer_first : ∀ kind ∈ punctuation, kind ≠ .gt → ∀ other ∈ Kind.all, other.isPunctuation = true →
    ∀ word ∈ kind.text?, ∀ longer ∈ other.text?, word.toList <+: longer.toList → word.length < longer.length →
      other ∈ punctuation.takeWhile (· != kind) := by decide +kernel

private theorem operator_longest (known : (operator c rest).1 ≠ .unknown) (joins : (operator c rest).1 ≠ .gt) {other : Kind}
    {more : List Char} (mark : other.isPunctuation = true) (named : other.text? = some (String.ofList (c :: more)))
    (begins : more <+: rest) : more.length ≤ (operator c rest).2 := by
  unfold operator at known joins ⊢
  cases found : punctuation.findSome? (matchText? c rest) with
  | none => simp [found] at known
  | some longest =>
    obtain ⟨front, kind, back, split, matched, missed⟩ := List.findSome?_eq_some_iff.mp found
    obtain ⟨taken, named', begins', rfl⟩ := matchText?_eq_some.mp matched
    rw [found] at joins
    simp only [Option.getD_some] at joins ⊢
    by_contra longer
    rw [Nat.not_le] at longer
    have member : kind ∈ punctuation := by simp [split]
    have first := longer_first kind member joins other (Kind.mem_all other) mark _ named' _ named
      (by simpa using List.prefix_of_prefix_length_le begins' begins (Nat.le_of_lt longer)) (by simpa using longer)
    have early : other ∈ front := by
      rw [split, List.takeWhile_append] at first
      split at first
      · simpa using first
      · exact List.takeWhile_subset _ first
    cases (missed other early).symm.trans (matchText?_eq_some.mpr ⟨more, named, begins, rfl⟩)

end Marks

theorem operator_kind (c : Char) (rest : List Char) : (operator c rest).1 ∈ Kind.unknown :: punctuation := by
  unfold operator
  cases found : punctuation.findSome? (matchText? c rest) with
  | none => exact List.mem_cons_self
  | some longest =>
    obtain ⟨kind, member, matched⟩ := List.exists_of_findSome?_eq_some found
    obtain ⟨more, -, -, rfl⟩ := matchText?_eq_some.mp matched
    exact List.mem_cons_of_mem _ member

theorem character_kind (text : List Char) : (Quotation.character text).1 ∈ [Kind.charLiteral, .unknown] := by
  unfold Quotation.character
  dsimp only
  split <;> simp

theorem string_kind (text : List Char) : (Quotation.string text).1 ∈ [Kind.stringLiteral, .textBlock, .unknown] := by
  unfold Quotation.string Quotation.block
  dsimp only
  repeat' split
  all_goals simp

/-- Kinds without a text of their own, names apart, say nothing of the characters. -/
theorem fits_of_varied {kind : Kind} {body behind : List Char}
    (member : kind ∈ [.intLiteral, .floatLiteral, .charLiteral, .stringLiteral, .textBlock, .unknown]) :
    kind.Fits body behind := by
  have kinds : ∀ kind ∈ [Kind.intLiteral, .floatLiteral, .charLiteral, .stringLiteral, .textBlock, .unknown],
      kind.text? = none ∧ kind ∉ [.gtEq, .shr, .ushr, .shrEq, .ushrEq] ∧ kind.isContextualKeyword = false ∧
        ¬ (kind = .identifier ∨ kind.isReservedWord = true) ∧ kind.isPunctuation = false := by decide
  obtain ⟨text, single, plain, word, mark⟩ := kinds kind member
  refine ⟨fun _ same => ?_, single, plain, fun same => absurd same word, fun same => ?_⟩
  · cases text.symm.trans same
  · cases mark.symm.trans same

private theorem word_fits {c : Char} (start : Text.isIdentifierStart c = true) (rest : List Char) :
    (word c rest).1.Fits (c :: rest.take (word c rest).2) (rest.drop (word c rest).2) := by
  have kinds : ∀ kind ∈ Kind.all, kind = .identifier ∨ kind.isReservedWord = true →
      kind ∉ [.gtEq, .shr, .ushr, .shrEq, .ushrEq] ∧ kind.isContextualKeyword = false ∧ kind.isPunctuation = false := by
    decide +kernel
  obtain ⟨single, plain, mark⟩ := kinds _ (Kind.mem_all _) (word_kind c rest).2
  obtain ⟨inside, ended⟩ := word_ends c rest
  refine ⟨(reads_word c rest).reads, single, plain,
    fun _ => ⟨⟨c, _, rfl, start, inside⟩, ended, (word_kind c rest).1⟩, fun same => ?_⟩
  cases mark.symm.trans same

private theorem operator_fits (c : Char) (rest : List Char) :
    (operator c rest).1.Fits (c :: rest.take (operator c rest).2) (rest.drop (operator c rest).2) := by
  rcases List.mem_cons.mp (operator_kind c rest) with unknown | member
  · exact fits_of_varied (by simp [unknown])
  · have kinds : ∀ kind ∈ punctuation, kind ∉ [.gtEq, .shr, .ushr, .shrEq, .ushrEq] ∧ kind.isContextualKeyword = false ∧
        ¬ (kind = .identifier ∨ kind.isReservedWord = true) ∧ kind ≠ .unknown := by decide
    obtain ⟨single, plain, word, known⟩ := kinds _ member
    refine ⟨(reads_operator c rest).reads, single, plain, fun same => absurd same word,
      fun _ joins other longer mark named begins => ?_⟩
    rw [List.cons_append, List.take_append_drop] at begins
    cases spelled : longer.toList with
    | nil => simp [← String.length_toList, spelled]
    | cons d more =>
      rw [spelled] at begins
      obtain ⟨rfl, follows⟩ := List.cons_prefix_cons.mp begins
      have named : other.text? = some (String.ofList (d :: more)) := by rw [named, ← spelled, String.ofList_toList]
      have bound := operator_longest known joins mark named follows
      have enough := follows.length_le
      rw [← String.length_toList, spelled]
      simp only [List.length_cons, List.length_take]
      omega

private theorem lexeme_fits (c : Char) (rest : List Char) :
    (lexeme c rest).1.Fits (c :: rest.take (lexeme c rest).2) (rest.drop (lexeme c rest).2) := by
  have form := lexeme_cases c rest
  generalize lexeme c rest = found at form
  cases form with
  | number kind => exact fits_of_varied (by rcases kind with kind | kind <;> simp [kind])
  | word start => exact word_fits start rest
  | character quote =>
    refine fits_of_varied ?_
    rcases List.mem_pair.mp (character_kind rest) with kind | kind <;> simp [kind]
  | string quote =>
    refine fits_of_varied ?_
    have kind := string_kind rest
    simp only [List.mem_cons, List.not_mem_nil, or_false] at kind
    rcases kind with kind | kind | kind <;> simp [kind]
  | operator => exact operator_fits c rest

end Lexer

open Lexer in
/-- Every token but the end of input has the kind that fits its characters and what stands behind them. -/
theorem tokenize_classifies {text : String} {token : Token} (member : token ∈ tokenize text) (more : token.kind ≠ .eof) :
    ∃ before body behind, token.Covers text before body behind ∧ token.kind.Fits body behind := by
  obtain ⟨earlier, front, lead, c, rest, split, cut, -⟩ := cut_of_mem member more
  rw [Nat.zero_add] at cut
  exact ⟨_, _, _, cut.covers split, cut.kind ▸ lexeme_fits c rest⟩

/-- Of three plus signs and an equals sign, the first two are one token and the last two another. -/
theorem tokenize_classifies_plus :
    ∃ token ∈ tokenize "i+++=1", token.kind = .plusEq ∧ ∃ before body behind, token.Covers "i+++=1" before body behind ∧
      token.kind.Fits body behind := by
  have member : { kind := .plusEq, range := ⟨3, 5⟩ } ∈ tokenize "i+++=1" := by decide +kernel
  exact ⟨_, member, rfl, tokenize_classifies member nofun⟩

end LosslessJava
