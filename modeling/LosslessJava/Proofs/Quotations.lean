import LosslessJava.Proofs.Cutting
import LosslessJava.Proofs.LexerMeasures

/-! Literals between quotes. One on a line goes on to its closing quote, over characters that stand for themselves and
pairs of a backslash and any character; without a closing quote it ends with its line or with the text, as an unknown
token, and what follows is lexed as if nothing stood before it. A backslash takes a line break along, so a literal may
go on over lines. -/

namespace LosslessJava

namespace Quotation

/-- What stands between the quotes of a literal on a line. -/
inductive Content (quote : Char) : List Char → Prop where
  | nil : Content quote []
  | plain {c rest} (other : c ≠ quote) (bare : c ≠ '\\') (inLine : isLineBreak c = false) (more : Content quote rest) :
    Content quote (c :: rest)
  | escaped {c rest} (more : Content quote rest) : Content quote ('\\' :: c :: rest)

/-- A literal with this content is not closed: its line ends behind it, or the text does, maybe behind a backslash. -/
inductive Unfinished (quote : Char) : List Char → List Char → Prop where
  | line {content behind} (inside : Content quote content) (ended : ∀ c ∈ behind.head?, isLineBreak c = true) :
    Unfinished quote content behind
  | dangling {content} (inside : Content quote content) : Unfinished quote (content ++ ['\\']) []

/-- How a literal on a line ends behind its opening quote, and how many characters it takes. -/
inductive Ends (quote : Char) : List Char → Bool × Nat → Prop where
  | closed {content behind} (inside : Content quote content) : Ends quote (content ++ quote :: behind) (true, content.length + 1)
  | unfinished {content behind} (unclosed : Unfinished quote content behind) :
    Ends quote (content ++ behind) (false, content.length)

variable {quote : Char} {text : List Char}

private theorem Ends.plain {c : Char} {found : Bool × Nat} (ends : Ends quote text found) (other : c ≠ quote) (bare : c ≠ '\\')
    (inLine : isLineBreak c = false) : Ends quote (c :: text) (found.1, found.2 + 1) := by
  cases ends with
  | closed inside => exact .closed (.plain other bare inLine inside)
  | unfinished unclosed =>
    cases unclosed with
    | line inside ended => exact .unfinished (.line (.plain other bare inLine inside) ended)
    | dangling inside => exact .unfinished (.dangling (.plain other bare inLine inside))

private theorem Ends.escaped {found : Bool × Nat} (ends : Ends quote text found) (c : Char) :
    Ends quote ('\\' :: c :: text) (found.1, found.2 + 1 + 1) := by
  cases ends with
  | closed inside => exact .closed (.escaped inside)
  | unfinished unclosed =>
    cases unclosed with
    | line inside ended => exact .unfinished (.line (.escaped inside) ended)
    | dangling inside => exact .unfinished (.dangling (.escaped inside))

theorem line_ends (quote : Char) (text : List Char) : Ends quote text (line quote false text) := by
  induction size : text.length using Nat.strong_induction_on generalizing text with
  | _ size ih =>
    subst size
    cases text with
    | nil => exact .unfinished (.line .nil (by simp))
    | cons c rest =>
      rw [line, if_neg Bool.false_ne_true]
      split
      · next ended => exact .unfinished (.line .nil (by simpa using ended))
      · next inLine =>
        split
        · next backslash =>
          -- The backslash is read together with the character that it takes along, if there is one.
          obtain rfl : c = '\\' := by simpa using backslash
          cases rest with
          | nil => exact .unfinished (.dangling .nil)
          | cons d rest => exact (ih rest.length (by simp only [List.length_cons]; omega) rest rfl).escaped d
        · next bare =>
          split
          · next closing =>
            obtain rfl : c = quote := by simpa using closing
            exact .closed .nil
          · next other =>
            exact (ih rest.length (by simp) rest rfl).plain (by simpa using other) (by simpa using bare) (by simpa using inLine)

private theorem Content.line_append {content : List Char} (inside : Content quote content) (behind : List Char) :
    line quote false (content ++ behind) = ((line quote false behind).1, (line quote false behind).2 + content.length) := by
  induction inside with
  | nil => rfl
  | plain other bare inLine more ih => simp [line, other, bare, inLine, ih, Nat.add_assoc]
  | escaped more ih => simp [line, isLineBreak, ih, Nat.add_assoc]

theorem line_eq_of_closed {content : List Char} (inside : Content quote content) (proper : quote ≠ '\\')
    (inLine : isLineBreak quote = false) (behind : List Char) :
    line quote false (content ++ quote :: behind) = (true, content.length + 1) := by
  rw [inside.line_append]
  simp [line, proper, inLine, Nat.add_comm]

theorem Unfinished.line_eq {content behind : List Char} (unclosed : Unfinished quote content behind) :
    Quotation.line quote false (content ++ behind) = (false, content.length) := by
  cases unclosed with
  | line inside ended =>
    rw [inside.line_append]
    cases behind with
    | nil => simp [Quotation.line]
    | cons c rest => simp [Quotation.line, ended c rfl]
  | dangling inside =>
    rw [List.append_nil, inside.line_append]
    simp [Quotation.line, isLineBreak, Nat.add_comm]

/-- Between the quotes, a line break stands only behind a backslash. -/
theorem Content.backslash_of_break {content front back : List Char} {c : Char} (inside : Content quote content)
    (split : content = front ++ c :: back) (lineBreak : isLineBreak c = true) : front.getLast? = some '\\' := by
  induction inside generalizing front with
  | nil => simp at split
  | @plain d rest other bare inLine more ih =>
    cases front with
    | nil =>
      cases split
      cases lineBreak.symm.trans inLine
    | cons first front =>
      cases split
      have last := ih rfl
      simp [List.getLast?_cons, last]
  | @escaped d rest more ih =>
    cases front with
    | nil =>
      cases split
      cases lineBreak
    | cons first front =>
      cases front with
      | nil =>
        cases split
        rfl
      | cons second front =>
        cases split
        have last := ih rfl
        simp [List.getLast?_cons, last]

private theorem line_take (quote : Char) (escaped : Bool) (text : List Char) :
    line quote escaped (text.take (line quote escaped text).2) = line quote escaped text := by
  fun_induction line quote escaped text with
  | case1 => rfl
  | case2 c rest closed more found ih =>
    rw [found] at ih
    simp [line, ih]
  | case3 escaped c rest plain ended => rfl
  | case4 escaped c rest plain inLine backslash closed more found ih =>
    rw [found] at ih
    simp [line, plain, inLine, backslash, ih]
  | case5 escaped c rest plain inLine bare closing => simp [line, plain, inLine, bare, closing]
  | case6 escaped c rest plain inLine bare other closed more found ih =>
    rw [found] at ih
    simp [line, plain, inLine, bare, other, ih]

section Blocks

private theorem blockContent_take (escaped : Bool) (text : List Char) :
    blockContent escaped (text.take (blockContent escaped text).2) = blockContent escaped text := by
  fun_induction blockContent escaped text with
  | case1 => rfl
  | case2 c rest closed more found ih =>
    rw [found] at ih
    simp [blockContent, ih]
  | case3 escaped c rest plain backslash closed more found ih =>
    rw [found] at ih
    simp [blockContent, plain, backslash, ih]
  | case4 escaped c rest plain bare closing => simp [blockContent, plain, bare, List.take_take, closing]
  | case5 escaped c rest plain bare other closed more found ih =>
    rw [found] at ih
    -- Fewer characters do not hold the closing quotes either.
    have still : ¬ (c == '\x22' && (rest.take more).take 2 == ['\x22', '\x22']) = true := by
      intro same
      simp only [Bool.and_eq_true, beq_iff_eq, List.take_take] at same
      have length := congrArg List.length same.2
      have enough : min 2 more = 2 := by simp at length; omega
      rw [enough] at same
      exact other (by simp [same])
    simp [blockContent, plain, bare, still, ih]

/-- A text block that is closed ends with a quote, and any other one with the text. -/
theorem blockContent_ends (escaped : Bool) (text : List Char) :
    ((blockContent escaped text).1 = true ∧ (text.take (blockContent escaped text).2).getLast? = some '\x22') ∨
      ((blockContent escaped text).1 = false ∧ (blockContent escaped text).2 = text.length) := by
  have onward {c : Char} {rest : List Char} {closed : Bool} {more : Nat}
      (ends : (closed = true ∧ (rest.take more).getLast? = some '\x22') ∨ (closed = false ∧ more = rest.length)) :
      (closed = true ∧ ((c :: rest).take (more + 1)).getLast? = some '\x22') ∨
        (closed = false ∧ more + 1 = (c :: rest).length) := by
    rcases ends with ⟨closed, last⟩ | ⟨unclosed, all⟩
    · exact .inl ⟨closed, by simp [List.getLast?_cons, last]⟩
    · exact .inr ⟨unclosed, by simp [all]⟩
  fun_induction blockContent escaped text with
  | case1 => exact .inr ⟨rfl, rfl⟩
  | case2 c rest closed more found ih =>
    rw [found] at ih
    exact onward ih
  | case3 escaped c rest plain backslash closed more found ih =>
    rw [found] at ih
    exact onward ih
  | case4 escaped c rest plain bare closing =>
    simp only [Bool.and_eq_true, beq_iff_eq] at closing
    exact .inl ⟨rfl, by simp [closing.2]⟩
  | case5 escaped c rest plain bare other closed more found ih =>
    rw [found] at ih
    exact onward ih

private theorem blockContent_pos (c : Char) (rest : List Char) : 0 < (blockContent false (c :: rest)).2 := by
  rw [blockContent]
  repeat' split
  all_goals simp

def blockTail : Reading := fun text =>
  match text with
  | [] => (.unknown, 0)
  | c :: rest =>
    if isLineBreak c then (if (blockContent false (c :: rest)).1 then .textBlock else .unknown, (blockContent false (c :: rest)).2)
    else (.unknown, 0)

theorem block_eq : block = Reading.behind (.run isBlank) blockTail := by
  funext text
  simp only [block, Reading.behind, blockTail]
  cases text.drop (Measure.run isBlank text) with
  | nil => rfl
  | cons c rest =>
    by_cases ended : isLineBreak c
    · simp [ended]
    · simp [ended]

private theorem repeats_block : Reading.Repeats block := by
  rw [block_eq]
  refine Reading.Repeats.behind (fun text => ?_) (Measure.steady_run _)
  cases text with
  | nil => rfl
  | cons c rest =>
    by_cases ended : isLineBreak c
    · have cut := blockContent_take false (c :: rest)
      have some := blockContent_pos c rest
      obtain ⟨more, length⟩ := Nat.exists_eq_add_one.mpr some
      rw [length, List.take_succ_cons] at cut
      simp only [blockTail, ended, if_true, length, List.take_succ_cons, cut]
    · simp [blockTail, ended]

end Blocks

section Lines

def onLine (quote : Char) (whole : Kind) : Reading := fun text =>
  (if (line quote false text).1 then whole else .unknown, (line quote false text).2)

theorem character_eq : character = onLine '\x27' .charLiteral := rfl

theorem string_of_block {text : List Char} (opens : text.take 2 = ['\x22', '\x22']) :
    string text = Reading.behind (fun _ => 2) block text := by
  simp only [string, opens, beq_self_eq_true, if_true, Reading.behind]

theorem string_of_line {text : List Char} (plain : text.take 2 ≠ ['\x22', '\x22']) :
    string text = onLine '\x22' .stringLiteral text := by
  simp only [string, beq_iff_eq, plain, if_false, onLine]

theorem repeats_onLine (quote : Char) (whole : Kind) : Reading.Repeats (onLine quote whole) := by
  intro text
  have cut := line_take quote false text
  simp only [onLine, cut]

theorem repeats_string : Reading.Repeats string := by
  intro text
  by_cases opens : text.take 2 = ['\x22', '\x22']
  · have again : (text.take (string text).2).take 2 = ['\x22', '\x22'] := by
      rw [string_of_block opens, List.take_take, Reading.behind, Nat.min_eq_left (Nat.le_add_right _ _), opens]
    rw [string_of_block again, string_of_block opens]
    exact repeats_block.behind (fun _ _ _ => rfl) text
  · have again : (text.take (string text).2).take 2 ≠ ['\x22', '\x22'] := by
      intro same
      have length := congrArg List.length same
      rw [List.take_take] at same
      have enough : min 2 (string text).2 = 2 := by simp at length; omega
      exact opens (enough ▸ same)
    rw [string_of_line again, string_of_line opens]
    exact repeats_onLine _ _ text

end Lines

end Quotation

end LosslessJava
