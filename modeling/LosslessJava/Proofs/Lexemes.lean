import LosslessJava.Proofs.Quotations

/-! What is cut off as a token. Cut off from what follows it, a token reads as the same token again; and where blanks
follow it, it does not end with one. -/

namespace LosslessJava

open LosslessJava.Measure LosslessJava.Reading

section Spaces

variable {p : Char → Bool} {reading : Reading}

theorem blank_cases {c : Char} (blank : Quotation.isBlank c = true) : c = ' ' ∨ c = '\t' ∨ c = '\x0c' := by
  simpa [Quotation.isBlank, or_assoc] using blank

private theorem not_blank_of (space : p ' ' = false) (tab : p '\t' = false) (feed : p '\x0c' = false) (c : Char) (holds : p c = true) :
    (!Quotation.isBlank c) = true := by
  rw [Bool.not_eq_true', Bool.eq_false_iff]
  intro blank
  rcases blank_cases blank with rfl | rfl | rfl
  · cases space.symm.trans holds
  · cases tab.symm.trans holds
  · cases feed.symm.trans holds

def Reading.Apart (reading : Reading) : Prop :=
  ∀ text : List Char, (∀ c ∈ (text.take (reading text).2).getLast?, Quotation.isBlank c = false) ∨
    ∀ c ∈ (text.drop (reading text).2).head?, Quotation.isBlank c = false

private theorem Reading.Within.apart (within : Within (!Quotation.isBlank ·) reading) : Apart reading := by
  intro text
  exact .inl fun c last => by simpa using within text c (List.mem_of_getLast? last)

end Spaces

namespace Number

def binary : Reading := fun text => (.intLiteral, Measure.followedBy digits intSuffix text)

section Spaces

private theorem digits_within : digits.Within (!Quotation.isBlank ·) := (within_run _).mono (not_blank_of rfl rfl rfl)

private theorem hexDigits_within : hexDigits.Within (!Quotation.isBlank ·) := (within_run _).mono (not_blank_of rfl rfl rfl)

private theorem intSuffix_within : intSuffix.Within (!Quotation.isBlank ·) := (within_optional _).mono (not_blank_of rfl rfl rfl)

private theorem floatSuffix_within : floatSuffix.Within (!Quotation.isBlank ·) := (within_optional _).mono (not_blank_of rfl rfl rfl)

private theorem signedDigits_within : signedDigits.Within (!Quotation.isBlank ·) :=
  ((within_optional _).mono (not_blank_of rfl rfl rfl)).followedBy digits_within

private theorem exponent_within : exponent.Within (!Quotation.isBlank ·) := signedDigits_within.led (not_blank_of rfl rfl rfl)

private theorem fraction_within : fraction.Within (!Quotation.isBlank ·) :=
  digits_within.followedBy (exponent_within.followedBy floatSuffix_within)

private theorem hexFraction_within : hexFraction.Within (!Quotation.isBlank ·) :=
  (hexDigits_within.led (not_blank_of rfl rfl rfl)).followedBy (signedDigits_within.led (not_blank_of rfl rfl rfl))

private theorem decimalTail_within : decimalTail.Within (!Quotation.isBlank ·) := by
  intro text c taken
  unfold decimalTail at taken
  split at taken
  · next point =>
    obtain ⟨rest, rfl⟩ := head_of_startsFraction point
    rw [Nat.add_comm, List.take_succ_cons] at taken
    rcases List.mem_cons.mp taken with rfl | later
    · rfl
    · exact fraction_within rest c later
  split at taken
  · exact (exponent_within.followedBy floatSuffix_within) text c taken
  split at taken
  · next suffixed =>
    have one : floatSuffix text = 1 := Nat.le_antisymm (optional_le_one _ _) suffixed
    exact floatSuffix_within text c (one ▸ taken)
  · exact intSuffix_within text c taken

private theorem hexTail_within : hexTail.Within (!Quotation.isBlank ·) := by
  intro text c taken
  unfold hexTail at taken
  split at taken
  · exact (hexFraction_within.followedBy floatSuffix_within) text c taken
  · exact intSuffix_within text c taken

end Spaces

/-- A number has one of its forms, wherever it is cut off behind what is read. -/
theorem scan_form (first : Char) (text : List Char) : ∃ form : Reading, form.Repeats ∧ form.Within (!Quotation.isBlank ·) ∧
    ∀ n, (form text).2 ≤ n → scan first (text.take n) = form (text.take n) := by
  have marked {options : List Char} {form : Reading} {c : Char} (mark : isOneOf options c = true) (others : List Char) :
      Reading.behind (.optional (isOneOf options)) form (c :: others) = ((form others).1, 1 + (form others).2) := by
    have one : Measure.optional (isOneOf options) (c :: others) = 1 := if_pos mark
    rw [Reading.behind, one]
    rfl
  have plain : Reading.Repeats decimal ∧ Reading.Within (!Quotation.isBlank ·) decimal :=
    decimal_eq ▸ ⟨repeats_decimalTail.behind steady_digits, decimalTail_within.behind digits_within⟩
  cases text with
  | nil => exact ⟨decimal, plain.1, plain.2, fun n _ => by rw [List.take_nil, scan]⟩
  | cons c rest =>
    cases hex : first == '0' && isOneOf ['x', 'X'] c with
    | true =>
      have mark := (Bool.and_eq_true_iff.mp hex).2
      refine ⟨.behind (.optional (isOneOf ['x', 'X'])) hexadecimal, ?_, ?_, fun n enough => ?_⟩
      · exact hexadecimal_eq ▸ (repeats_hexTail.behind (steady_run _)).behind (steady_optional _)
      · exact hexadecimal_eq ▸ (hexTail_within.behind hexDigits_within).behind
          ((within_optional _).mono (not_blank_of rfl rfl rfl))
      · rw [marked mark] at enough
        obtain ⟨n, rfl⟩ := Nat.exists_eq_add_of_le' (Nat.le_trans (Nat.le_add_right 1 _) enough)
        rw [List.take_succ_cons, marked mark, scan, if_pos hex, Nat.add_comm 1]
    | false =>
      cases bin : first == '0' && isOneOf ['b', 'B'] c with
      | true =>
        have mark := (Bool.and_eq_true_iff.mp bin).2
        have steady : Steady (.followedBy digits intSuffix) := steady_digits.followedBy (steady_optional _)
        have within : Measure.Within (!Quotation.isBlank ·) (.followedBy digits intSuffix) :=
          digits_within.followedBy intSuffix_within
        refine ⟨.behind (.optional (isOneOf ['b', 'B'])) binary, ?_, ?_, fun n enough => ?_⟩
        · exact Repeats.behind (fun text => congrArg (Prod.mk Kind.intLiteral) (steady text _ (Nat.le_refl _)))
            (steady_optional _)
        · exact Reading.Within.behind within ((within_optional _).mono (not_blank_of rfl rfl rfl))
        · rw [marked mark] at enough
          obtain ⟨n, rfl⟩ := Nat.exists_eq_add_of_le' (Nat.le_trans (Nat.le_add_right 1 _) enough)
          rw [List.take_succ_cons, marked mark, scan, if_neg (by simp [hex]), if_pos bin]
          rfl
      | false =>
        refine ⟨decimal, plain.1, plain.2, fun n _ => ?_⟩
        cases n with
        | zero => rfl
        | succ n => rw [List.take_succ_cons, scan, if_neg (by simp [hex]), if_neg (by simp [bin])]

private theorem repeats_scan (first : Char) : Repeats (scan first) := by
  intro text
  obtain ⟨form, repeats, -, same⟩ := scan_form first text
  have whole := same ((form text).2 + text.length) (Nat.le_add_right _ _)
  rw [List.take_of_length_le (Nat.le_add_left _ _)] at whole
  rw [whole, same _ (Nat.le_refl _), repeats]

private theorem within_scan (first : Char) : Within (!Quotation.isBlank ·) (scan first) := by
  intro text
  obtain ⟨form, -, within, same⟩ := scan_form first text
  have whole := same ((form text).2 + text.length) (Nat.le_add_right _ _)
  rw [List.take_of_length_le (Nat.le_add_left _ _)] at whole
  exact whole ▸ within text

end Number

namespace Quotation

private theorem apart_onLine {quote : Char} (quoted : isBlank quote = false) (whole : Kind) : Apart (onLine quote whole) := by
  intro text
  have ends := line_ends quote text
  rw [onLine]
  generalize line quote false text = found at ends
  cases ends with
  | @closed content behind inside =>
    refine .inl fun c last => ?_
    have taken : (content ++ quote :: behind).take (content.length + 1) = content ++ [quote] := by
      rw [List.append_cons]
      exact List.take_left' (by simp)
    rw [taken, List.getLast?_concat, Option.mem_some_iff] at last
    exact last ▸ quoted
  | @unfinished content behind unclosed =>
    refine .inr fun c first => ?_
    rw [List.drop_left] at first
    cases unclosed with
    | line inside ended =>
      rw [Bool.eq_false_iff]
      intro blank
      have lineBreak := ended c first
      rcases blank_cases blank with rfl | rfl | rfl <;> cases lineBreak
    | dangling inside => cases first

private theorem apart_block : Apart block := by
  intro text
  have stops := Measure.drop_run isBlank text
  rw [block_eq]
  simp only [Reading.behind]
  cases left : text.drop (Measure.run isBlank text) with
  | nil => exact .inr (by simp [blockTail, left])
  | cons c rest =>
    have bare : isBlank c = false := by
      have head := List.head?_dropWhile_not isBlank text
      simpa [← stops, left] using head
    by_cases opens : isLineBreak c = true
    · have read : (blockTail (c :: rest)).2 = (blockContent false (c :: rest)).2 := by simp [blockTail, opens]
      rw [read]
      rcases blockContent_ends false (c :: rest) with ⟨-, last⟩ | ⟨-, all⟩
      · refine .inl fun d final => ?_
        rw [List.take_add, left, List.getLast?_append, last] at final
        cases final
        rfl
      · refine .inr ?_
        rw [← List.drop_drop, left, all, List.drop_length]
        simp
    · exact .inr (by simp [blockTail, opens, left, bare])

private theorem apart_string : Apart string := by
  intro text
  by_cases opens : text.take 2 = ['\x22', '\x22']
  · have apart := apart_block (text.drop 2)
    rw [string_of_block opens, Reading.behind, List.take_add, ← List.drop_drop, opens]
    refine apart.imp_left fun last c final => ?_
    rw [List.getLast?_append] at final
    cases found : ((text.drop 2).take (block (text.drop 2)).2).getLast? with
    | none =>
      rw [found] at final
      cases final
      rfl
    | some d =>
      rw [found] at final
      exact last c (found.trans final)
  · rw [string_of_line opens]
    exact apart_onLine rfl _ text

end Quotation

namespace Lexer

private theorem repeats_word (c : Char) : Repeats (word c) := by
  intro text
  have cut : Measure.run Text.isIdentifierPart (text.take (Measure.run Text.isIdentifierPart text)) =
      Measure.run Text.isIdentifierPart text := steady_run _ text _ (Nat.le_refl _)
  simp only [word, cut, List.take_take, Nat.min_self]

private theorem within_word (c : Char) : Within (!Quotation.isBlank ·) (word c) :=
  (within_run Text.isIdentifierPart).mono (not_blank_of (by decide) (by decide) (by decide))

section Marks

variable {c : Char} {rest : List Char} {kind : Kind} {found : Kind × Nat}

/-- A kind is found where its text stands in front. -/
theorem matchText?_eq_some : matchText? c rest kind = some found ↔
    ∃ more, kind.text? = some (String.ofList (c :: more)) ∧ more <+: rest ∧ found = (kind, more.length) := by
  unfold matchText?
  constructor
  · intro matched
    split at matched
    · next d more spelled =>
      split at matched
      · next begins =>
        cases matched
        rw [Bool.and_eq_true, beq_iff_eq, List.isPrefixOf_iff_prefix] at begins
        obtain ⟨rfl, begins⟩ := begins
        obtain ⟨word, named, spelled⟩ := Option.map_eq_some_iff.mp spelled
        exact ⟨more, by rw [named, ← spelled, String.ofList_toList], begins, rfl⟩
      · cases matched
    · cases matched
  · rintro ⟨more, named, begins, rfl⟩
    simp [named, List.isPrefixOf_iff_prefix, begins]

private theorem matchText?_take (matched : matchText? c rest kind = some found) :
    matchText? c (rest.take found.2) kind = some found := by
  obtain ⟨more, named, begins, rfl⟩ := matchText?_eq_some.mp matched
  exact matchText?_eq_some.mpr ⟨more, named, (List.prefix_iff_eq_take.mp begins) ▸ List.prefix_refl more, rfl⟩

private theorem matchText?_take_none (missed : matchText? c rest kind = none) (n : Nat) : matchText? c (rest.take n) kind = none := by
  rw [Option.eq_none_iff_forall_ne_some] at missed ⊢
  intro found matched
  obtain ⟨more, named, begins, same⟩ := matchText?_eq_some.mp matched
  exact missed found (matchText?_eq_some.mpr ⟨more, named, begins.trans (List.take_prefix n rest), same⟩)

end Marks

private theorem repeats_operator (c : Char) : Repeats (operator c) := by
  intro text
  unfold operator
  cases found : punctuation.findSome? (matchText? c text) with
  | none =>
    have missed : punctuation.findSome? (matchText? c (text.take 0)) = none :=
      List.findSome?_eq_none_iff.mpr fun kind member => matchText?_take_none (List.findSome?_eq_none_iff.mp found kind member) 0
    simp only [Option.getD_none, missed]
  | some longest =>
    obtain ⟨before, kind, behind, split, matched, missed⟩ := List.findSome?_eq_some_iff.mp found
    have again : punctuation.findSome? (matchText? c (text.take longest.2)) = some longest :=
      List.findSome?_eq_some_iff.mpr ⟨before, kind, behind, split, matchText?_take matched,
        fun other member => matchText?_take_none (missed other member) _⟩
    simp only [Option.getD_some, again]

private theorem within_operator (c : Char) : Within (!Quotation.isBlank ·) (operator c) := by
  have marks : ∀ kind ∈ punctuation, ∀ word ∈ kind.text?, word.toList.all (!Quotation.isBlank ·) = true := by decide
  intro text d taken
  unfold operator at taken
  cases found : punctuation.findSome? (matchText? c text) with
  | none => simp [found] at taken
  | some longest =>
    obtain ⟨kind, member, matched⟩ := List.exists_of_findSome?_eq_some found
    obtain ⟨more, named, begins, rfl⟩ := matchText?_eq_some.mp matched
    have all := marks kind member _ named
    rw [String.toList_ofList, List.all_eq_true] at all
    simp only [found, Option.getD_some] at taken
    rw [← List.prefix_iff_eq_take.mp begins] at taken
    exact all d (List.mem_cons_of_mem _ taken)

/-- What of a text decides the token at its front: the characters that the token takes behind the first one. -/
theorem lexeme_form (c : Char) (rest : List Char) : ∃ form : Reading, form.Repeats ∧ form.Apart ∧
    ∀ n, (form rest).2 ≤ n → lexeme c (rest.take n) = form (rest.take n) := by
  by_cases number : c.isDigit = true
  · exact ⟨Number.scan c, Number.repeats_scan c, (Number.within_scan c).apart, fun n _ => by rw [lexeme, if_pos number]⟩
  by_cases name : Text.isIdentifierStart c = true
  · exact ⟨word c, repeats_word c, (within_word c).apart, fun n _ => by rw [lexeme, if_neg number, if_pos name]⟩
  by_cases apostrophe : (c == '\x27') = true
  · exact ⟨Quotation.onLine '\x27' .charLiteral, Quotation.repeats_onLine _ _, Quotation.apart_onLine rfl _,
      fun n _ => by rw [lexeme, if_neg number, if_neg name, if_pos apostrophe, Quotation.character_eq]⟩
  by_cases quote : (c == '\x22') = true
  · exact ⟨Quotation.string, Quotation.repeats_string, Quotation.apart_string,
      fun n _ => by rw [lexeme, if_neg number, if_neg name, if_neg apostrophe, if_pos quote]⟩
  have other (text : List Char) : lexeme c text =
      if c == '.' && text.head?.any Char.isDigit then (.floatLiteral, Number.fraction text) else operator c text := by
    rw [lexeme, if_neg number, if_neg name, if_neg apostrophe, if_neg quote]
  by_cases point : (c == '.' && rest.head?.any Char.isDigit) = true
  · refine ⟨fun text => (.floatLiteral, Number.fraction text), fun text => ?_, ?_, fun n enough => ?_⟩
    · exact congrArg (Prod.mk Kind.floatLiteral) (Number.steady_fraction text _ (Nat.le_refl _))
    · exact Reading.Within.apart Number.fraction_within
    · have some : 0 < Number.digits rest := by
        cases rest with
        | nil => simp at point
        | cons d more =>
          have digit : Number.isDigitPart d = true := by
            simp only [List.head?_cons, Option.any_some, Bool.and_eq_true] at point
            simp [Number.isDigitPart, point.2]
          rw [Number.digits, run_cons, if_pos digit]
          exact Nat.succ_pos _
      have enough : Number.digits rest + _ ≤ n := enough
      have head : (rest.take n).head? = rest.head? := by rw [List.head?_take, if_neg (by omega)]
      rw [other, head, if_pos point]
  · refine ⟨operator c, repeats_operator c, (within_operator c).apart, fun n _ => ?_⟩
    rw [other, if_neg]
    rw [List.head?_take]
    split
    · simp
    · exact point

/-- A token that is cut off from what follows it reads as the same token. -/
theorem lexeme_take (c : Char) (rest : List Char) : lexeme c (rest.take (lexeme c rest).2) = lexeme c rest := by
  obtain ⟨form, repeats, -, same⟩ := lexeme_form c rest
  have whole := same ((form rest).2 + rest.length) (Nat.le_add_right _ _)
  rw [List.take_of_length_le (Nat.le_add_left _ _)] at whole
  rw [whole, same _ (Nat.le_refl _), repeats]

/-- A token does not end with a blank, or no blank follows it. -/
theorem lexeme_apart (c : Char) (rest : List Char) :
    (∀ d ∈ (rest.take (lexeme c rest).2).getLast?, Quotation.isBlank d = false) ∨
      ∀ d ∈ (rest.drop (lexeme c rest).2).head?, Quotation.isBlank d = false := by
  obtain ⟨form, -, apart, same⟩ := lexeme_form c rest
  have whole := same ((form rest).2 + rest.length) (Nat.le_add_right _ _)
  rw [List.take_of_length_le (Nat.le_add_left _ _)] at whole
  exact whole ▸ apart rest

end Lexer

end LosslessJava
