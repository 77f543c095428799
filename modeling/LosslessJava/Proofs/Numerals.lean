import LosslessJava.Proofs.Relexing

/-! Numbers as the language's grammar forms them. Each of them is one token, an integer or a floating-point number as its
form tells, but where a letter stands right behind the point of a decimal one: there the point is taken for that of a
member access, and the number ends in front of it. -/

namespace LosslessJava

namespace Number

open LosslessJava.Measure (Stops stops_cons run_append led_eq_zero optional_eq_zero)

section Grammar

def isOctalDigit (c : Char) : Bool := c.isDigit && decide (c ≤ '7')

def isBinaryDigit (c : Char) : Bool := c == '0' || c == '1'

def isHexDigit (c : Char) : Bool :=
  c.isDigit || (decide ('a' ≤ c) && decide (c ≤ 'f')) || (decide ('A' ≤ c) && decide (c ≤ 'F'))

/-- Digits, with underscores only between them. -/
structure DigitRow (isDigit : Char → Bool) (chars : List Char) : Prop where
  parts : ∀ c ∈ chars, c = '_' ∨ isDigit c = true
  starts : ∃ c ∈ chars.head?, isDigit c = true
  ends : ∃ c ∈ chars.getLast?, isDigit c = true

private theorem digitRow_iff {isDigit : Char → Bool} {chars : List Char} : DigitRow isDigit chars ↔
    (chars.all (fun c => c == '_' || isDigit c) && chars.head?.any isDigit && chars.getLast?.any isDigit) = true := by
  simp only [Bool.and_eq_true, List.all_eq_true, Bool.or_eq_true, beq_iff_eq, Option.any_eq_true, and_assoc]
  exact ⟨fun ⟨parts, starts, ends⟩ => ⟨parts, starts, ends⟩, fun ⟨parts, starts, ends⟩ => ⟨parts, starts, ends⟩⟩

instance (isDigit : Char → Bool) (chars : List Char) : Decidable (DigitRow isDigit chars) :=
  decidable_of_iff' _ digitRow_iff

/-- A part of a number that may be missing. -/
def Maybe (part : List Char → Prop) (chars : List Char) : Prop := chars = [] ∨ part chars

/-- One of these letters or signs. -/
def Mark (options : List Char) (chars : List Char) : Prop := ∃ c ∈ options, chars = [c]

inductive Exponent (marks : List Char) : List Char → Prop where
  | mk {mark sign row} (marked : mark ∈ marks) (signed : Maybe (Mark ['+', '-']) sign)
      (digits : DigitRow Char.isDigit row) : Exponent marks (mark :: (sign ++ row))

abbrev IntSuffix : List Char → Prop := Maybe (Mark ['l', 'L'])

abbrev FloatSuffix : List Char → Prop := Maybe (Mark ['f', 'F', 'd', 'D'])

inductive IntegerNumeral : List Char → Prop where
  | zero : IntegerNumeral ['0']
  | decimal {row} (digits : DigitRow Char.isDigit row) (plain : row.head? ≠ some '0') : IntegerNumeral row
  | octal {row} (digits : DigitRow isOctalDigit ('0' :: row)) (more : row ≠ []) : IntegerNumeral ('0' :: row)
  | hexadecimal {mark row} (marked : mark ∈ ['x', 'X']) (digits : DigitRow isHexDigit row) :
      IntegerNumeral ('0' :: mark :: row)
  | binary {mark row} (marked : mark ∈ ['b', 'B']) (digits : DigitRow isBinaryDigit row) :
      IntegerNumeral ('0' :: mark :: row)

/-- What stands in a hexadecimal floating-point number between its `0x` and its exponent. -/
inductive HexSignificand : List Char → Prop where
  | whole {row} (digits : DigitRow isHexDigit row) : HexSignificand row
  | pointed {row} (digits : DigitRow isHexDigit row) : HexSignificand (row ++ ['.'])
  | fraction {row more} (digits : Maybe (DigitRow isHexDigit) row) (others : DigitRow isHexDigit more) :
      HexSignificand (row ++ '.' :: more)

inductive FloatingNumeral : List Char → Prop where
  | pointed {row more power suffix} (digits : DigitRow Char.isDigit row) (others : Maybe (DigitRow Char.isDigit) more)
      (powered : Maybe (Exponent ['e', 'E']) power) (suffixed : FloatSuffix suffix) :
      FloatingNumeral (row ++ '.' :: (more ++ (power ++ suffix)))
  | fraction {more power suffix} (others : DigitRow Char.isDigit more) (powered : Maybe (Exponent ['e', 'E']) power)
      (suffixed : FloatSuffix suffix) : FloatingNumeral ('.' :: (more ++ (power ++ suffix)))
  | powered {row power suffix} (digits : DigitRow Char.isDigit row) (powered : Exponent ['e', 'E'] power)
      (suffixed : FloatSuffix suffix) : FloatingNumeral (row ++ (power ++ suffix))
  | suffixed {row suffix} (digits : DigitRow Char.isDigit row) (suffixed : Mark ['f', 'F', 'd', 'D'] suffix) :
      FloatingNumeral (row ++ suffix)
  | hexadecimal {mark significand power suffix} (marked : mark ∈ ['x', 'X']) (whole : HexSignificand significand)
      (powered : Exponent ['p', 'P'] power) (suffixed : FloatSuffix suffix) :
      FloatingNumeral ('0' :: mark :: (significand ++ (power ++ suffix)))

/-- A number of the language, with the kind of its token. -/
inductive Literal : Kind → List Char → Prop where
  | integer {numeral suffix} (number : IntegerNumeral numeral) (suffixed : IntSuffix suffix) :
      Literal .intLiteral (numeral ++ suffix)
  | floating {chars} (number : FloatingNumeral chars) : Literal .floatLiteral chars

/-- A letter stands right behind the point of a decimal number. -/
def LetterBehindPoint (chars : List Char) : Prop :=
  ∃ row c rest, chars = row ++ '.' :: c :: rest ∧ DigitRow Char.isDigit row ∧ Text.isIdentifierStart c = true

end Grammar

section Parts

variable {chars row more power suffix rest : List Char} {isDigit : Char → Bool}

/-- Marks are checked one by one, whether one of them begins what follows or nothing does. -/
theorem Maybe.stops {options : List Char} {p : Char → Bool} (suffixed : Maybe (Mark options) suffix)
    (others : options.any p = false) : Stops p suffix := by
  rcases suffixed with rfl | ⟨c, member, rfl⟩
  · exact .nil p
  · exact stops_cons (Bool.eq_false_iff.mpr (List.any_eq_false.mp others c member)) []

theorem Exponent.stops {marks : List Char} {p : Char → Bool} (powered : Exponent marks power)
    (others : marks.any p = false) (rest : List Char) : Stops p (power ++ rest) := by
  cases powered with
  | mk marked => exact stops_cons (Bool.eq_false_iff.mpr (List.any_eq_false.mp others _ marked)) _

theorem DigitRow.all (digits : DigitRow isDigit row) {p : Char → Bool} (underscore : p '_' = true)
    (stronger : ∀ c, isDigit c = true → p c = true) : ∀ c ∈ row, p c = true := by
  intro c member
  rcases digits.parts c member with rfl | digit
  · exact underscore
  · exact stronger c digit

private theorem isDigitPart_of_isDigit {c : Char} (digit : c.isDigit = true) : isDigitPart c = true := by
  simp [isDigitPart, digit]

private theorem isHexDigitPart_of_isHexDigit {c : Char} (digit : isHexDigit c = true) : isHexDigitPart c = true := by
  unfold isHexDigit at digit
  unfold isHexDigitPart isDigitPart
  simp only [Bool.or_eq_true] at digit ⊢
  tauto

private theorem isDigit_of_isOctalDigit {c : Char} (digit : isOctalDigit c = true) : c.isDigit = true :=
  (Bool.and_eq_true_iff.mp digit).1

private theorem isDigit_of_isBinaryDigit {c : Char} (digit : isBinaryDigit c = true) : c.isDigit = true := by
  simp only [isBinaryDigit, Bool.or_eq_true, beq_iff_eq] at digit
  rcases digit with rfl | rfl <;> rfl

theorem DigitRow.weaken {isOther : Char → Bool} (digits : DigitRow isDigit row)
    (stronger : ∀ c, isDigit c = true → isOther c = true) : DigitRow isOther row where
  parts c member := (digits.parts c member).imp_right (stronger c)
  starts := digits.starts.imp fun c found => ⟨found.1, stronger c found.2⟩
  ends := digits.ends.imp fun c found => ⟨found.1, stronger c found.2⟩

private theorem digits_append (digits : Maybe (DigitRow Char.isDigit) row) (stops : Stops isDigitPart rest) :
    Number.digits (row ++ rest) = row.length := by
  rcases digits with rfl | digits
  · exact run_append (by simp) stops
  · exact run_append (digits.all rfl fun c => isDigitPart_of_isDigit) stops

private theorem hexDigits_append (digits : Maybe (DigitRow isHexDigit) row) (stops : Stops isHexDigitPart rest) :
    hexDigits (row ++ rest) = row.length := by
  rcases digits with rfl | digits
  · exact run_append (by simp) stops
  · exact run_append (digits.all rfl fun c => isHexDigitPart_of_isHexDigit) stops

private theorem optional_eq_length {options : List Char} (marked : Maybe (Mark options) suffix) :
    Measure.optional (isOneOf options) suffix = suffix.length := by
  rcases marked with rfl | ⟨c, member, rfl⟩
  · rfl
  · simp [Measure.optional, isOneOf, member]

private theorem signedDigits_append {sign : List Char} (signed : Maybe (Mark ['+', '-']) sign) (digits : DigitRow Char.isDigit row)
    (stops : Stops isDigitPart rest) : signedDigits (sign ++ (row ++ rest)) = (sign ++ row).length := by
  have taken : Measure.optional (isOneOf ['+', '-']) (sign ++ (row ++ rest)) = sign.length := by
    rcases signed with rfl | ⟨c, member, rfl⟩
    · obtain ⟨first, starts, digit⟩ := digits.starts
      obtain ⟨more, rfl⟩ := List.head?_eq_some_iff.mp starts
      have other : first ∉ ['+', '-'] := by
        intro sign
        rcases List.mem_pair.mp sign with rfl | rfl <;> cases digit
      simp only [List.nil_append, List.cons_append, Measure.optional, isOneOf, List.contains_iff_mem, other, if_false,
        List.length_nil]
    · simp [Measure.optional, isOneOf, member]
  rw [signedDigits, Measure.followedBy, taken, List.drop_left, digits_append (.inr digits) stops, List.length_append]

/-- The measure of an exponent takes one as a whole, and nothing where there is none. -/
theorem led_append {marks : List Char} (powered : Exponent marks power) (stops : Stops isDigitPart rest) :
    Measure.led (isOneOf marks) signedDigits (power ++ rest) = power.length := by
  cases powered with
  | mk marked signed digits =>
    rw [List.cons_append, Measure.led, if_pos (by simpa [isOneOf] using marked), List.append_assoc,
      signedDigits_append signed digits stops, List.length_cons, Nat.add_comm]

end Parts

section Forms

variable {row more power suffix rest : List Char}

private theorem exponent_append (powered : Maybe (Exponent ['e', 'E']) power) (suffixed : FloatSuffix suffix) :
    exponent (power ++ suffix) = power.length := by
  rcases powered with rfl | powered
  · exact led_eq_zero (suffixed.stops rfl)
  · exact led_append powered (suffixed.stops rfl)

/-- Behind a number's digits there is nothing but its exponent and its suffix. -/
theorem suffixed_eq_length (powered : Maybe (Exponent ['e', 'E']) power) (suffixed : FloatSuffix suffix) :
    Measure.followedBy exponent floatSuffix (power ++ suffix) = (power ++ suffix).length := by
  rw [Measure.followedBy, exponent_append powered suffixed, List.drop_left, floatSuffix, isFloatSuffix,
    optional_eq_length suffixed, List.length_append]

private theorem fraction_eq_length (others : Maybe (DigitRow Char.isDigit) more) (powered : Maybe (Exponent ['e', 'E']) power)
    (suffixed : FloatSuffix suffix) : fraction (more ++ (power ++ suffix)) = (more ++ (power ++ suffix)).length := by
  have stops : Stops isDigitPart (power ++ suffix) := by
    rcases powered with rfl | powered
    · exact suffixed.stops rfl
    · exact powered.stops rfl suffix
  rw [fraction, Measure.followedBy, digits_append others stops, List.drop_left, suffixed_eq_length powered suffixed,
    ← List.length_append]

def isRadixMark : Char → Bool := isOneOf ['x', 'X', 'b', 'B']

/-- A number in decimal or octal digits goes on with what its digits are followed by. -/
theorem scan_row {first : Char} (digits : DigitRow Char.isDigit (first :: more)) (stops : Stops isDigitPart rest)
    (plain : Stops isRadixMark rest) :
    scan first (more ++ rest) = ((decimalTail rest).1, more.length + (decimalTail rest).2) := by
  have all : ∀ c ∈ more, isDigitPart c = true := by
    intro c member
    exact digits.all rfl (fun c => isDigitPart_of_isDigit) c (List.mem_cons_of_mem _ member)
  have taken : Number.digits (more ++ rest) = more.length := run_append all stops
  have read : decimal (more ++ rest) = ((decimalTail rest).1, more.length + (decimalTail rest).2) := by
    rw [decimal_eq, Reading.behind, taken, List.drop_left]
  have unmarked : Stops isRadixMark (more ++ rest) := by
    cases more with
    | nil => exact plain
    | cons c more =>
      have part := all c (List.mem_cons_self ..)
      apply stops_cons
      rw [Bool.eq_false_iff]
      intro marked
      simp only [isRadixMark, isOneOf, List.contains_iff_mem, List.mem_cons, List.not_mem_nil, or_false] at marked
      rcases marked with rfl | rfl | rfl | rfl <;> cases part
  rw [← read]
  cases text : more ++ rest with
  | nil => rw [scan]
  | cons c others =>
    rw [text] at unmarked
    have other := unmarked c rfl
    simp only [isRadixMark, isOneOf, List.contains_eq_mem, decide_eq_false_iff_not, List.mem_cons, List.not_mem_nil,
      or_false, not_or] at other
    rw [scan, if_neg (by simp [isOneOf, other]), if_neg (by simp [isOneOf, other])]

def Takes (kind : Kind) (chars : List Char) : Prop :=
  ∃ c rest, chars = c :: rest ∧ c.isDigit = true ∧ scan c rest = (kind, rest.length)

private theorem takes_of_row {kind : Kind} (digits : DigitRow Char.isDigit row) (stops : Stops isDigitPart rest)
    (plain : Stops isRadixMark rest) (tail : decimalTail rest = (kind, rest.length)) : Takes kind (row ++ rest) := by
  obtain ⟨first, starts, digit⟩ := digits.starts
  obtain ⟨more, rfl⟩ := List.head?_eq_some_iff.mp starts
  refine ⟨first, more ++ rest, rfl, digit, ?_⟩
  rw [scan_row digits stops plain, tail, List.length_append]

private theorem decimalTail_suffix (suffixed : IntSuffix suffix) : decimalTail suffix = (.intLiteral, suffix.length) := by
  have point : startsFraction suffix = false := by
    rcases suffixed with rfl | ⟨c, member, rfl⟩
    · rfl
    · rcases List.mem_pair.mp member with rfl | rfl <;> rfl
  have power : exponent suffix = 0 := led_eq_zero (suffixed.stops rfl)
  have float : floatSuffix suffix = 0 := optional_eq_zero (suffixed.stops rfl)
  have taken : intSuffix suffix = suffix.length := optional_eq_length suffixed
  rw [decimalTail, point, power, float, taken]
  rfl

/-- A point goes on as a fraction unless a letter stands behind it, or another point. -/
theorem decimalTail_point (stops : Stops Text.isIdentifierStart rest) (single : Stops (· == '.') rest) :
    decimalTail ('.' :: rest) = (.floatLiteral, 1 + fraction rest) := by
  have starts : startsFraction ('.' :: rest) = true := by
    cases rest with
    | nil => rfl
    | cons c rest => simpa [startsFraction, stops c rfl] using single c rfl
  rw [decimalTail, if_pos starts, List.drop_one, List.tail_cons]

private theorem decimalTail_letter {c : Char} (start : Text.isIdentifierStart c = true) :
    decimalTail ('.' :: c :: rest) = (.intLiteral, 0) := by
  have point : startsFraction ('.' :: c :: rest) = false := by simp [startsFraction, start]
  rw [decimalTail, point]
  rfl

private theorem not_startsFraction (stops : Stops (· == '.') rest) : startsFraction rest = false := by
  rw [Bool.eq_false_iff]
  intro starts
  obtain ⟨others, rfl⟩ := head_of_startsFraction starts
  cases stops '.' rfl

private theorem decimalTail_power (powered : Exponent ['e', 'E'] power) (suffixed : FloatSuffix suffix) :
    decimalTail (power ++ suffix) = (.floatLiteral, (power ++ suffix).length) := by
  have some : 0 < exponent (power ++ suffix) := by
    rw [exponent_append (.inr powered) suffixed]
    cases powered
    exact Nat.succ_pos _
  rw [decimalTail, not_startsFraction (powered.stops rfl suffix), if_neg Bool.false_ne_true, if_pos some,
    suffixed_eq_length (.inr powered) suffixed]

private theorem decimalTail_floatSuffix (suffixed : Mark ['f', 'F', 'd', 'D'] suffix) :
    decimalTail suffix = (.floatLiteral, suffix.length) := by
  have marked : FloatSuffix suffix := .inr suffixed
  have power : exponent suffix = 0 := led_eq_zero (marked.stops rfl)
  have taken : floatSuffix suffix = suffix.length := optional_eq_length marked
  have one : suffix.length = 1 := by
    obtain ⟨c, -, rfl⟩ := suffixed
    rfl
  rw [decimalTail, not_startsFraction (marked.stops rfl), power, taken, one]
  rfl

private theorem scan_hexadecimal {mark : Char} (marked : mark ∈ ['x', 'X']) :
    scan '0' (mark :: rest) = ((hexadecimal rest).1, (hexadecimal rest).2 + 1) := by
  rw [scan, if_pos (by simpa [isOneOf] using marked)]

private theorem takes_of_hexRow {kind : Kind} {mark : Char} (marked : mark ∈ ['x', 'X']) (digits : Maybe (DigitRow isHexDigit) row)
    (stops : Stops isHexDigitPart rest) (tail : hexTail rest = (kind, rest.length)) :
    Takes kind ('0' :: mark :: (row ++ rest)) := by
  refine ⟨'0', _, rfl, rfl, ?_⟩
  rw [scan_hexadecimal marked, hexadecimal_eq, Reading.behind, hexDigits_append digits stops, List.drop_left, tail,
    List.length_cons, List.length_append]

private theorem takes_of_binary {mark : Char} (marked : mark ∈ ['b', 'B']) (digits : DigitRow isBinaryDigit row)
    (suffixed : IntSuffix suffix) : Takes .intLiteral ('0' :: mark :: (row ++ suffix)) := by
  have decimal := digits.weaken fun c => isDigit_of_isBinaryDigit
  have other : isOneOf ['x', 'X'] mark = false := by rcases List.mem_pair.mp marked with rfl | rfl <;> rfl
  have taken : intSuffix suffix = suffix.length := optional_eq_length suffixed
  refine ⟨'0', _, rfl, rfl, ?_⟩
  rw [scan, if_neg (by simp [other]), if_pos (by simpa [isOneOf] using marked), Measure.followedBy,
    digits_append (.inr decimal) (suffixed.stops rfl), List.drop_left, taken, List.length_cons, List.length_append,
    Nat.add_comm]

/-- A point with digits behind it, or nothing, as a part of a hexadecimal number. -/
theorem hexTail_power {point : List Char} (pointed : point = [] ∨ ∃ row, point = '.' :: row ∧ Maybe (DigitRow isHexDigit) row)
    (powered : Exponent ['p', 'P'] power) (suffixed : FloatSuffix suffix) :
    hexTail (point ++ (power ++ suffix)) = (.floatLiteral, (point ++ (power ++ suffix)).length) := by
  have whole : Measure.led (· == '.') hexDigits (point ++ (power ++ suffix)) = point.length := by
    rcases pointed with rfl | ⟨row, rfl, digits⟩
    · exact led_eq_zero (powered.stops rfl suffix)
    · rw [List.cons_append, Measure.led, if_pos (beq_self_eq_true '.'), hexDigits_append digits (powered.stops rfl suffix), List.length_cons,
        Nat.add_comm]
  have taken : hexFraction (point ++ (power ++ suffix)) = (point ++ power).length := by
    rw [hexFraction, Measure.followedBy, whole, List.drop_left, binaryExponent, led_append powered (suffixed.stops rfl),
      List.length_append]
  have some : 0 < (point ++ power).length := by
    cases powered
    simp
  have ended : floatSuffix suffix = suffix.length := optional_eq_length suffixed
  rw [hexTail, taken, if_pos some, Measure.followedBy, taken, ← List.append_assoc, List.drop_left, ended,
    ← List.length_append]

private theorem integer_takes {numeral : List Char} (number : IntegerNumeral numeral) (suffixed : IntSuffix suffix) :
    Takes .intLiteral (numeral ++ suffix) := by
  have decimal {row : List Char} (digits : DigitRow Char.isDigit row) : Takes .intLiteral (row ++ suffix) :=
    takes_of_row digits (suffixed.stops rfl) (suffixed.stops rfl) (decimalTail_suffix suffixed)
  cases number with
  | zero => exact decimal ⟨by simp, ⟨'0', rfl, rfl⟩, ⟨'0', rfl, rfl⟩⟩
  | decimal digits => exact decimal digits
  | octal digits => exact decimal (digits.weaken fun c => isDigit_of_isOctalDigit)
  | hexadecimal marked digits =>
    apply takes_of_hexRow marked (.inr digits) (suffixed.stops rfl)
    have none : hexFraction suffix = 0 := by
      have point : Measure.led (· == '.') hexDigits suffix = 0 := led_eq_zero (suffixed.stops rfl)
      have power : binaryExponent suffix = 0 := led_eq_zero (suffixed.stops rfl)
      rw [hexFraction, Measure.followedBy, point, List.drop_zero, power]
    have taken : intSuffix suffix = suffix.length := optional_eq_length suffixed
    rw [hexTail, none, taken]
    rfl
  | binary marked digits => exact takes_of_binary marked digits suffixed

private theorem significand_takes {mark : Char} {significand : List Char} (marked : mark ∈ ['x', 'X'])
    (whole : HexSignificand significand) (powered : Exponent ['p', 'P'] power) (suffixed : FloatSuffix suffix) :
    Takes .floatLiteral ('0' :: mark :: (significand ++ (power ++ suffix))) := by
  cases whole with
  | whole digits =>
    exact takes_of_hexRow marked (.inr digits) (powered.stops rfl suffix) (hexTail_power (.inl rfl) powered suffixed)
  | pointed digits =>
    rw [List.append_assoc]
    exact takes_of_hexRow marked (.inr digits) (stops_cons rfl _)
      (hexTail_power (.inr ⟨[], rfl, .inl rfl⟩) powered suffixed)
  | fraction digits others =>
    rw [List.append_assoc]
    exact takes_of_hexRow marked digits (stops_cons rfl _) (hexTail_power (.inr ⟨_, rfl, .inr others⟩) powered suffixed)

end Forms

end Number

namespace Lexer

open Number LosslessJava.Measure

private theorem triviaPiece?_of_number {c : Char} (number : c.isDigit = true ∨ c = '.') (rest : List Char) :
    triviaPiece? true c rest = none := by
  have other : Quotation.isLineBreak c = false ∧ (c == '/') = false ∧ Quotation.isBlank c = false := by
    rcases number with digit | rfl
    · have ne {d : Char} (letter : d.isDigit = false) : c ≠ d := by
        rintro rfl
        cases letter.symm.trans digit
      have feed : c ≠ '\n' := ne rfl
      have carriage : c ≠ '\r' := ne rfl
      have slash : c ≠ '/' := ne rfl
      have space : c ≠ ' ' := ne rfl
      have tab : c ≠ '\t' := ne rfl
      have page : c ≠ '\x0c' := ne rfl
      simp [Quotation.isLineBreak, Quotation.isBlank, feed, carriage, slash, space, tab, page]
    · exact ⟨rfl, rfl, rfl⟩
  simp [triviaPiece?, other]

private theorem lexeme_of_digit {c : Char} (digit : c.isDigit = true) (rest : List Char) : lexeme c rest = Number.scan c rest := by
  rw [lexeme, if_pos digit]

private theorem lexeme_of_point {c : Char} (digit : c.isDigit = true) (rest : List Char) :
    lexeme '.' (c :: rest) = (.floatLiteral, fraction (c :: rest)) := by
  have other : Text.isIdentifierStart '.' = false := by decide +kernel
  have point : ('.' == '.' && (c :: rest).head?.any Char.isDigit) = true := by simp [digit]
  rw [lexeme, if_neg (by decide), if_neg (by simp [other]), if_neg (by decide), if_neg (by decide), if_pos point]

/-- A number is read to the end of a text, if it has no letter behind its point. -/
theorem lexeme_of_literal {kind : Kind} {chars : List Char} (literal : Literal kind chars) (plain : ¬ LetterBehindPoint chars) :
    ∃ c rest, chars = c :: rest ∧ (c.isDigit = true ∨ c = '.') ∧ lexeme c rest = (kind, rest.length) := by
  have of_takes {kind : Kind} {chars : List Char} (takes : Takes kind chars) :
      ∃ c rest, chars = c :: rest ∧ (c.isDigit = true ∨ c = '.') ∧ lexeme c rest = (kind, rest.length) := by
    obtain ⟨c, rest, rfl, digit, read⟩ := takes
    exact ⟨c, rest, rfl, .inl digit, (lexeme_of_digit digit rest).trans read⟩
  cases literal with
  | integer number suffixed => exact of_takes (integer_takes number suffixed)
  | floating number =>
    cases number with
    | @pointed row more power suffix digits others powered suffixed =>
      apply of_takes
      apply takes_of_row digits (stops_cons rfl _) (stops_cons rfl _)
      have letter : Stops Text.isIdentifierStart (more ++ (power ++ suffix)) := by
        intro c first
        obtain ⟨rest, same⟩ := List.head?_eq_some_iff.mp first
        rw [Bool.eq_false_iff]
        intro start
        exact plain ⟨row, c, rest, by rw [same], digits, start⟩
      have single : Stops (· == '.') (more ++ (power ++ suffix)) := by
        rcases others with rfl | others
        · rcases powered with rfl | powered
          · exact suffixed.stops rfl
          · exact powered.stops rfl suffix
        · obtain ⟨first, starts, digit⟩ := others.starts
          obtain ⟨more, rfl⟩ := List.head?_eq_some_iff.mp starts
          apply stops_cons
          rw [beq_eq_false_iff_ne]
          rintro rfl
          cases digit
      rw [decimalTail_point letter single, fraction_eq_length others powered suffixed, List.length_cons, Nat.add_comm]
    | @fraction more power suffix others powered suffixed =>
      have taken := fraction_eq_length (.inr others) powered suffixed
      obtain ⟨first, starts, digit⟩ := others.starts
      obtain ⟨more, rfl⟩ := List.head?_eq_some_iff.mp starts
      exact ⟨'.', _, rfl, .inr rfl, (lexeme_of_point digit _).trans (congrArg _ taken)⟩
    | powered digits powered suffixed =>
      exact of_takes (takes_of_row digits (powered.stops rfl _) (powered.stops rfl _) (decimalTail_power powered suffixed))
    | suffixed digits suffixed =>
      have marked : FloatSuffix _ := .inr suffixed
      exact of_takes (takes_of_row digits (marked.stops rfl) (marked.stops rfl) (decimalTail_floatSuffix suffixed))
    | hexadecimal marked whole powered suffixed => exact of_takes (significand_takes marked whole powered suffixed)

private theorem lexeme_of_letterBehindPoint {chars : List Char} (letter : LetterBehindPoint chars) :
    ∃ c rest, chars = c :: rest ∧ c.isDigit = true ∧ (lexeme c rest).2 < rest.length := by
  obtain ⟨row, d, behind, rfl, digits, start⟩ := letter
  obtain ⟨first, starts, digit⟩ := digits.starts
  obtain ⟨more, rfl⟩ := List.head?_eq_some_iff.mp starts
  refine ⟨first, more ++ '.' :: d :: behind, rfl, digit, ?_⟩
  rw [lexeme_of_digit digit, scan_row digits (stops_cons rfl _) (stops_cons rfl _), decimalTail_letter start]
  simp

end Lexer

open Lexer Number

/-- A number of the language is one token, unless a letter stands right behind the point of a decimal one. -/
theorem tokenize_number {text : String} {kind : Kind} (literal : Literal kind text.toList) :
    tokenize text = [{ kind, range := ⟨0, text.utf8ByteSize⟩ }, .endOfInput text.utf8ByteSize] ↔
      ¬ LetterBehindPoint text.toList := by
  rw [tokenize, utf8ByteSize_eq]
  constructor
  · intro single letter
    obtain ⟨c, rest, split, digit, less⟩ := lexeme_of_letterBehindPoint letter
    have bare := trivia_eq_nil (triviaPiece?_of_number (.inl digit) rest)
    have first : (tokensFrom 0 (c :: rest)).head? = some (Lexer.scan 0 (c :: rest)).1 := by
      rw [tokensFrom]
      split <;> rfl
    have range : (Lexer.scan 0 (c :: rest)).1.range = ⟨0, width (c :: rest.take (lexeme c rest).2)⟩ := by
      simp [Lexer.scan, bare]
    rw [split] at single
    rw [single, List.head?_cons, Option.some.injEq] at first
    rw [← first, Span.mk.injEq] at range
    have whole : width rest = width (rest.take (lexeme c rest).2) + width (rest.drop (lexeme c rest).2) := by
      rw [← width_append, List.take_append_drop]
    have left : 0 < width (rest.drop (lexeme c rest).2) := by
      apply width_pos
      intro none
      have enough := List.drop_eq_nil_iff.mp none
      omega
    simp only [width_cons] at range
    omega
  · intro plain
    obtain ⟨c, rest, split, number, read⟩ := lexeme_of_literal literal plain
    have lexed := tokensFrom_lexeme (triviaPiece?_of_number number rest)
    rw [read, List.take_length] at lexed
    rw [split, lexed]

/-- A hexadecimal number with all the parts that one can have. -/
theorem tokenize_number_hexadecimal : Literal .floatLiteral "0x1_F.8p-3f".toList ∧
    tokenize "0x1_F.8p-3f" = [{ kind := .floatLiteral, range := ⟨0, 11⟩ }, .endOfInput 11] := by
  have literal : Literal .floatLiteral "0x1_F.8p-3f".toList := by
    have whole : DigitRow isHexDigit ['1', '_', 'F'] := by decide
    have fraction : DigitRow isHexDigit ['8'] := by decide
    have sign : Mark ['+', '-'] ['-'] := ⟨'-', by decide, rfl⟩
    have digits : DigitRow Char.isDigit ['3'] := by decide
    have power : Exponent ['p', 'P'] ('p' :: (['-'] ++ ['3'])) := .mk (by decide) (.inr sign) digits
    have suffix : Mark ['f', 'F', 'd', 'D'] ['f'] := ⟨'f', by decide, rfl⟩
    have mark : 'x' ∈ ['x', 'X'] := by decide
    exact .floating (.hexadecimal mark (.fraction (.inr whole) fraction) power (.inr suffix))
  refine ⟨literal, (tokenize_number literal).mpr ?_⟩
  rintro ⟨row, c, rest, split, digits, -⟩
  have split : '0' :: 'x' :: "1_F.8p-3f".toList = row ++ '.' :: c :: rest := split
  match row, split, digits with
  | [], split, _ => cases split
  | [first], split, _ => cases split
  | first :: mark :: row, split, digits =>
    have same : 'x' = mark := (List.cons.inj (List.cons.inj split).2).1
    have part := digits.parts mark (by simp)
    rw [← same] at part
    simp [Char.isDigit] at part

/-- A suffix right behind the point is taken for a member's name. -/
theorem tokenize_letter_behind_point : Literal .floatLiteral "1.f".toList ∧
    tokenize "1.f" = [{ kind := .intLiteral, range := ⟨0, 1⟩ }, { kind := .dot, range := ⟨1, 2⟩ },
      { kind := .identifier, range := ⟨2, 3⟩ }, .endOfInput 3] := by
  have whole : DigitRow Char.isDigit ['1'] := by decide
  have suffix : Mark ['f', 'F', 'd', 'D'] ['f'] := ⟨'f', by decide, rfl⟩
  exact ⟨.floating (.pointed whole (.inl rfl) (.inl rfl) (.inr suffix)), by decide +kernel⟩

end LosslessJava
