import LosslessJava.Token.Number
import Mathlib.Tactic.ByContra

/-! Measures read what they take and hardly more. A steady measure takes the same of a text that is cut off anywhere
behind what it takes, so it does not look at what follows; numbers look one or two characters ahead, but only at what
would make them longer. -/

namespace LosslessJava

namespace Measure

def Steady (measure : Measure) : Prop := ∀ (text : List Char) n, measure text ≤ n → measure (text.take n) = measure text

def Within (p : Char → Bool) (measure : Measure) : Prop := ∀ (text : List Char), ∀ c ∈ text.take (measure text), p c = true

variable {p q : Char → Bool} {first next body : Measure}

theorem run_cons (p : Char → Bool) (c : Char) (rest : List Char) :
    run p (c :: rest) = if p c then run p rest + 1 else 0 := by
  by_cases taken : p c <;> simp [run, taken]

def Stops (p : Char → Bool) (text : List Char) : Prop := ∀ c ∈ text.head?, p c = false

section Stops

variable {rest : List Char}

theorem Stops.nil (p : Char → Bool) : Stops p [] := nofun

theorem stops_cons {c : Char} (other : p c = false) (rest : List Char) : Stops p (c :: rest) := by
  intro d first
  cases first
  exact other

theorem run_append {row : List Char} (all : ∀ c ∈ row, p c = true) (stops : Stops p rest) :
    run p (row ++ rest) = row.length := by
  have front : (row ++ rest).takeWhile p = row ++ rest.takeWhile p := List.takeWhile_append_of_pos all
  have back : rest.takeWhile p = [] := by
    cases rest with
    | nil => rfl
    | cons c rest => rw [List.takeWhile_cons, stops c rfl, if_neg Bool.false_ne_true]
  rw [run, front, back, List.append_nil]

theorem led_eq_zero (stops : Stops p rest) : led p body rest = 0 := by
  cases rest with
  | nil => rfl
  | cons c rest => rw [led, stops c rfl, if_neg Bool.false_ne_true]

theorem optional_eq_zero (stops : Stops p rest) : optional p rest = 0 := by
  cases rest with
  | nil => rfl
  | cons c rest => rw [optional, stops c rfl, if_neg Bool.false_ne_true]

end Stops

theorem steady_run (p : Char → Bool) : Steady (run p) := by
  intro text n enough
  induction text generalizing n with
  | nil => rw [List.take_nil]
  | cons c rest ih =>
    rw [run_cons] at enough
    cases n with
    | zero =>
      have stops : p c = false := by
        by_contra taken
        rw [if_pos (by simpa using taken)] at enough
        omega
      simp [run, stops]
    | succ n =>
      rw [List.take_succ_cons, run_cons, run_cons]
      split
      · next taken =>
        rw [if_pos taken] at enough
        rw [ih n (by omega)]
      · rfl

theorem steady_optional (p : Char → Bool) : Steady (optional p) := by
  intro text n enough
  cases text with
  | nil => rw [List.take_nil]
  | cons c rest =>
    cases n with
    | zero => exact (Nat.le_zero.mp enough).symm
    | succ n => rfl

theorem Steady.led (steady : Steady body) (p : Char → Bool) : Steady (led p body) := by
  intro text n enough
  cases text with
  | nil => rw [List.take_nil]
  | cons c rest =>
    simp only [Measure.led] at enough
    cases n with
    | zero =>
      split at enough
      · omega
      · next stops => simp [Measure.led, stops]
    | succ n =>
      simp only [List.take_succ_cons, Measure.led]
      split
      · next starts =>
        rw [if_pos starts] at enough
        rw [steady rest n (by omega)]
      · rfl

theorem Steady.followedBy (steady : Steady first) (later : Steady next) : Steady (followedBy first next) := by
  intro text n enough
  simp only [Measure.followedBy] at enough ⊢
  rw [steady text n (by omega), List.drop_take, later (text.drop (first text)) (n - first text) (by omega)]

theorem within_run (p : Char → Bool) : Within p (run p) := by
  intro text c taken
  rw [take_run] at taken
  exact (List.all_eq_true.mp List.all_takeWhile) c taken

theorem within_optional (p : Char → Bool) : Within p (optional p) := by
  intro text c taken
  cases text with
  | nil => simp at taken
  | cons d rest =>
    simp only [optional] at taken
    split at taken
    · next start =>
      obtain rfl : c = d := by simpa using taken
      exact start
    · simp at taken

theorem Within.mono (within : Within p first) (weaker : ∀ c, p c = true → q c = true) : Within q first :=
  fun text c taken => weaker c (within text c taken)

theorem Within.followedBy (within : Within p first) (later : Within p next) : Within p (followedBy first next) := by
  intro text c taken
  rw [Measure.followedBy, List.take_add] at taken
  rcases List.mem_append.mp taken with front | back
  · exact within text c front
  · exact later _ c back

theorem Within.led (within : Within p body) (weaker : ∀ c, q c = true → p c = true) : Within p (led q body) := by
  intro text c taken
  cases text with
  | nil => simp at taken
  | cons d rest =>
    simp only [Measure.led] at taken
    split at taken
    · next start =>
      rw [Nat.add_comm, List.take_succ_cons] at taken
      rcases List.mem_cons.mp taken with rfl | later
      · exact weaker c start
      · exact within rest c later
    · simp at taken

theorem optional_le_one (p : Char → Bool) (text : List Char) : optional p text ≤ 1 := by
  cases text with
  | nil => exact Nat.zero_le 1
  | cons c rest =>
    simp only [optional]
    split <;> omega

private theorem head_of_optional {text : List Char} (taken : 0 < optional p text) : ∃ c rest, text = c :: rest ∧ p c = true := by
  cases text with
  | nil => cases taken
  | cons c rest =>
    refine ⟨c, rest, rfl, ?_⟩
    by_contra other
    simp [optional, other] at taken

private theorem head_of_led {text : List Char} (taken : 0 < led p body text) : ∃ c rest, text = c :: rest ∧ p c = true := by
  cases text with
  | nil => cases taken
  | cons c rest =>
    refine ⟨c, rest, rfl, ?_⟩
    by_contra other
    simp [led, other] at taken

end Measure

abbrev Reading := List Char → Kind × Nat

namespace Reading

def behind (first : Measure) (reading : Reading) : Reading := fun text =>
  ((reading (text.drop (first text))).1, first text + (reading (text.drop (first text))).2)

def Repeats (reading : Reading) : Prop := ∀ text : List Char, reading (text.take (reading text).2) = reading text

def Within (p : Char → Bool) (reading : Reading) : Prop := ∀ text : List Char, ∀ c ∈ text.take (reading text).2, p c = true

variable {p : Char → Bool} {first : Measure} {reading : Reading}

theorem Repeats.behind (repeats : Repeats reading) (steady : first.Steady) : Repeats (behind first reading) := by
  intro text
  simp only [Reading.behind]
  rw [steady text _ (Nat.le_add_right _ _), List.drop_take, Nat.add_sub_cancel_left, repeats]

theorem Within.behind (within : Within p reading) (before : first.Within p) : Within p (behind first reading) := by
  intro text c taken
  rw [Reading.behind, List.take_add] at taken
  rcases List.mem_append.mp taken with front | back
  · exact before text c front
  · exact within _ c back

end Reading

namespace Number

open LosslessJava.Measure LosslessJava.Reading

theorem steady_digits : Steady digits := steady_run _

private theorem steady_exponent : Steady exponent := ((steady_optional _).followedBy steady_digits).led _

private theorem steady_suffixed : Steady (.followedBy exponent floatSuffix) := steady_exponent.followedBy (steady_optional _)

theorem steady_fraction : Steady fraction := steady_digits.followedBy steady_suffixed

def decimalTail : Reading := fun text =>
  if startsFraction text then (.floatLiteral, 1 + fraction (text.drop 1))
  else if 0 < exponent text then (.floatLiteral, Measure.followedBy exponent floatSuffix text)
  else if 0 < floatSuffix text then (.floatLiteral, 1)
  else (.intLiteral, intSuffix text)

def hexFraction : Measure := .followedBy (.led (· == '.') hexDigits) binaryExponent

def hexTail : Reading := fun text =>
  if 0 < hexFraction text then (.floatLiteral, Measure.followedBy hexFraction floatSuffix text)
  else (.intLiteral, intSuffix text)

theorem decimal_eq : decimal = Reading.behind digits decimalTail := by
  funext text
  simp only [decimal, Reading.behind, decimalTail]
  repeat' split
  all_goals simp only [Nat.add_assoc]

theorem hexadecimal_eq : hexadecimal = Reading.behind hexDigits hexTail := by
  funext text
  have tail : Measure.followedBy (.led (· == '.') hexDigits) binaryExponent (text.drop (hexDigits text)) =
      hexFraction (text.drop (hexDigits text)) := rfl
  simp only [hexadecimal, Reading.behind, hexTail, tail]
  split
  · simp only [Measure.followedBy, Nat.add_assoc]
  · rfl

theorem head_of_startsFraction {text : List Char} (starts : startsFraction text = true) :
    ∃ rest, text = '.' :: rest := by
  unfold startsFraction at starts
  split at starts
  · exact ⟨_, rfl⟩
  · exact ⟨_, rfl⟩
  · cases starts

private theorem startsFraction_take {text : List Char} (starts : startsFraction text = true) (n : Nat) :
    startsFraction (text.take (1 + n)) = true := by
  rw [Nat.add_comm]
  unfold startsFraction at starts
  split at starts
  · rw [List.take_succ_cons, List.take_nil]
    rfl
  · cases n with
    | zero => rfl
    | succ n => exact starts
  · cases starts

/-- What does not begin with a point is no fraction, wherever it is cut off. -/
theorem not_startsFraction_take {c : Char} (other : c ≠ '.') (rest : List Char) (n : Nat) :
    startsFraction ((c :: rest).take n) = false := by
  by_contra starts
  obtain ⟨others, same⟩ := head_of_startsFraction (by simpa using starts)
  cases n with
  | zero => cases same
  | succ n =>
    rw [List.take_succ_cons] at same
    cases same
    exact other rfl

theorem repeats_decimalTail : Repeats decimalTail := by
  intro text
  by_cases point : startsFraction text = true
  · obtain ⟨rest, rfl⟩ := head_of_startsFraction point
    have same := steady_fraction rest _ (Nat.le_refl _)
    have cut := startsFraction_take point (fraction rest)
    rw [Nat.add_comm, List.take_succ_cons] at cut
    simp only [decimalTail, point, if_true, List.drop_one, List.tail_cons, Nat.add_comm 1, List.take_succ_cons, cut, same]
  by_cases powered : 0 < exponent text
  · obtain ⟨c, rest, rfl, mark⟩ := head_of_led powered
    have cut (n : Nat) := not_startsFraction_take (c := c) (fun same => by cases same; cases mark) rest n
    have same := steady_suffixed (c :: rest) _ (Nat.le_refl _)
    have again := steady_exponent (c :: rest) (Measure.followedBy exponent floatSuffix (c :: rest)) (Nat.le_add_right _ _)
    simp only [decimalTail, point, powered, if_true, cut, again, same, Bool.false_eq_true, if_false]
  have plain (n : Nat) : exponent (text.take n) = 0 := by
    rw [steady_exponent text n (by omega)]
    omega
  by_cases suffixed : 0 < floatSuffix text
  · obtain ⟨c, rest, rfl, mark⟩ := head_of_optional suffixed
    have cut (n : Nat) := not_startsFraction_take (c := c) (fun same => by cases same; cases mark) rest n
    have same : floatSuffix ((c :: rest).take 1) = floatSuffix (c :: rest) :=
      steady_optional _ _ 1 (optional_le_one _ _)
    simp only [decimalTail, point, powered, suffixed, if_true, cut, plain, same, Bool.false_eq_true, if_false, Nat.lt_irrefl]
  have bare (n : Nat) : floatSuffix (text.take n) = 0 := by
    rw [show floatSuffix (text.take n) = floatSuffix text from steady_optional _ _ n (by simp only [floatSuffix] at suffixed; omega)]
    omega
  have same : intSuffix (text.take (intSuffix text)) = intSuffix text := steady_optional _ _ _ (Nat.le_refl _)
  have cut : startsFraction (text.take (intSuffix text)) = false := by
    rcases Nat.eq_zero_or_pos (intSuffix text) with none | some
    · rw [none]
      rfl
    · obtain ⟨c, rest, rfl, mark⟩ := head_of_optional some
      exact not_startsFraction_take (fun same => by cases same; cases mark) rest _
  simp only [decimalTail, point, powered, suffixed, cut, plain, bare, same, Bool.false_eq_true, if_false, Nat.lt_irrefl]

theorem repeats_hexTail : Repeats hexTail := by
  have steady : Steady hexFraction := ((steady_run _).led _).followedBy (((steady_optional _).followedBy steady_digits).led _)
  intro text
  by_cases pointed : 0 < hexFraction text
  · have again := steady text (Measure.followedBy hexFraction floatSuffix text) (Nat.le_add_right _ _)
    have same := (steady.followedBy (steady_optional _) : Steady (.followedBy hexFraction floatSuffix)) text _ (Nat.le_refl _)
    simp only [hexTail, pointed, if_true, again, same]
  · have plain : hexFraction (text.take (intSuffix text)) = hexFraction text := steady text _ (by omega)
    have same : intSuffix (text.take (intSuffix text)) = intSuffix text := steady_optional _ _ _ (Nat.le_refl _)
    simp only [hexTail, pointed, if_false, plain, same]

end Number

end LosslessJava
