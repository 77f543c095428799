import LosslessJava.Parser.Lookahead

/-! Words of brackets. A word is well nested if a stack of the brackets that are still open comes out
empty. If each bracket of a word has a label, and a bracket closes only one with its own label, then
so does each bracket that closes another one in the plain sense. -/

namespace LosslessJava

open LosslessJava.Parser.Lookahead (closing?)

namespace Kind

/-- Whether a kind is that of a bracket. -/
def isBracket : Kind → Bool
  | .leftParen | .rightParen | .leftBracket | .rightBracket | .leftBrace | .rightBrace => true
  | _ => false

/-- The brackets that are open behind a token, the last one first. There is no answer where a bracket
closes none, or one of another sort. -/
def nest (opened : List Kind) (kind : Kind) : Option (List Kind) :=
  if (closing? kind).isSome then
    some (kind :: opened)
  else if kind.isBracket then
    match opened with
    | [] => none
    | opener :: rest => if closing? opener = some kind then some rest else none
  else
    some opened

/-- Every bracket is closed, by one of its own sort, after those that were opened behind it. -/
def WellNested (kinds : List Kind) : Prop := kinds.foldlM nest [] = some []

instance (kinds : List Kind) : Decidable (WellNested kinds) :=
  inferInstanceAs (Decidable (kinds.foldlM nest [] = some []))

variable {opened after : List Kind} {kind opener closer : Kind} {kinds front back : List Kind}

private theorem nest_opener (closes : closing? opener = some closer) :
    nest opened opener = some (opener :: opened) := by simp [nest, closes]

private theorem closing_of_closing (closes : closing? opener = some closer) :
    closing? closer = none ∧ closer.isBracket = true := by
  unfold closing? at closes
  split at closes <;> cases closes <;> exact ⟨rfl, rfl⟩

private theorem nest_closer (closes : closing? opener = some closer) :
    nest (opener :: opened) closer = some opened := by
  simp [nest, closing_of_closing closes, closes]

theorem nest_plain (plain : kind.isBracket = false) : nest opened kind = some opened := by
  have opens : closing? kind = none := by
    revert plain
    cases kind <;> simp [closing?, isBracket]
  simp [nest, opens, plain]

private theorem nest_append (below : List Kind) (nests : nest opened kind = some after) :
    nest (opened ++ below) kind = some (after ++ below) := by
  unfold nest at nests ⊢
  split at nests
  · next opens =>
    cases nests
    exact if_pos opens
  · next opens =>
    rw [if_neg opens]
    split at nests
    · next bracket =>
      rw [if_pos bracket]
      rcases opened with _ | ⟨opener, rest⟩
      · cases nests
      · simp only [Option.ite_none_right_eq_some, Option.some.injEq] at nests
        obtain ⟨closes, rfl⟩ := nests
        exact if_pos closes
    · next bracket =>
      cases nests
      exact if_neg bracket

private theorem nestAll_append (below : List Kind) (nests : kinds.foldlM nest opened = some after) :
    kinds.foldlM nest (opened ++ below) = some (after ++ below) := by
  induction kinds generalizing opened with
  | nil =>
    cases nests
    rfl
  | cons kind rest ih =>
    rw [List.foldlM_cons, Option.bind_eq_bind, Option.bind_eq_some_iff] at nests ⊢
    obtain ⟨inner, first, later⟩ := nests
    exact ⟨_, nest_append below first, ih later⟩

namespace WellNested

/-- A well nested word leaves every stack as it is. -/
theorem leaves (nested : WellNested kinds) (opened : List Kind) :
    kinds.foldlM nest opened = some opened := nestAll_append opened nested

theorem nil : WellNested [] := rfl

theorem plain (plain : kind.isBracket = false) : WellNested [kind] := by
  simp [WellNested, nest_plain plain]

theorem append (first : WellNested front) (second : WellNested back) : WellNested (front ++ back) := by
  rw [WellNested, List.foldlM_append, first, Option.bind_eq_bind, Option.bind_some, second]

theorem between (closes : closing? opener = some closer) (inside : WellNested kinds) :
    WellNested (opener :: (kinds ++ [closer])) := by
  simp [WellNested, nest_opener closes, inside.leaves, nest_closer closes]

theorem cons (plain : kind.isBracket = false) (later : WellNested kinds) : WellNested (kind :: kinds) :=
  append (.plain plain) later

end WellNested

private theorem nestAll_filter (kinds : List Kind) (opened : List Kind) :
    (kinds.filter isBracket).foldlM nest opened = kinds.foldlM nest opened := by
  induction kinds generalizing opened with
  | nil => rfl
  | cons kind rest ih =>
    cases bracket : kind.isBracket with
    | true => simp [bracket, ih]
    | false => simp [bracket, ih, nest_plain bracket]

theorem wellNested_of_filter (same : front.filter isBracket = back.filter isBracket)
    (nested : WellNested back) : WellNested front := by
  rw [WellNested, ← nestAll_filter, same, nestAll_filter]
  exact nested

/-- A bracket that is open below others is closed, unless it stays open. -/
theorem exists_closer {mine below : List Kind} (reads : kinds.foldlM nest (mine ++ opener :: below) = some []) :
    ∃ inner closer back, kinds = inner ++ closer :: back ∧ inner.foldlM nest mine = some [] ∧
      closing? opener = some closer := by
  induction kinds generalizing mine with
  | nil => simp at reads
  | cons kind rest ih =>
    rw [List.foldlM_cons, Option.bind_eq_bind, Option.bind_eq_some_iff] at reads
    obtain ⟨inner, first, later⟩ := reads
    have further {mine' : List Kind} (own : nest mine kind = some mine')
        (later : rest.foldlM nest (mine' ++ opener :: below) = some []) :
        ∃ inner closer back, kind :: rest = inner ++ closer :: back ∧ inner.foldlM nest mine = some [] ∧
          closing? opener = some closer := by
      obtain ⟨inner, closer, back, rfl, nested, closes⟩ := ih later
      exact ⟨kind :: inner, closer, back, rfl, by simp [own, nested], closes⟩
    unfold nest at first
    split at first
    · next opens =>
      cases first
      exact further (if_pos opens) later
    · next opens =>
      split at first
      · next bracket =>
        rcases mine with _ | ⟨top, mine⟩
        · simp only [List.nil_append, Option.ite_none_right_eq_some, Option.some.injEq] at first
          exact ⟨[], kind, rest, rfl, rfl, first.1⟩
        · simp only [List.cons_append, Option.ite_none_right_eq_some, Option.some.injEq] at first
          obtain ⟨closes, rfl⟩ := first
          exact further (by simp [nest, opens, bracket, closes]) later
      · next bracket =>
        cases first
        exact further (nest_plain (by simpa using bracket)) later

/-- In a well nested word every bracket is closed, behind a well nested stretch. -/
theorem WellNested.exists_closer (nested : WellNested (front ++ opener :: back))
    (opens : (closing? opener).isSome) :
    ∃ inner closer rest, back = inner ++ closer :: rest ∧ WellNested inner ∧ closing? opener = some closer := by
  rw [WellNested, List.foldlM_append, Option.bind_eq_bind, Option.bind_eq_some_iff] at nested
  obtain ⟨below, -, reads⟩ := nested
  obtain ⟨closer, closes⟩ := Option.isSome_iff_exists.mp opens
  rw [List.foldlM_cons, nest_opener closes, Option.bind_eq_bind, Option.bind_some] at reads
  exact @Kind.exists_closer _ _ [] _ reads

section Labels

variable {α : Type} [DecidableEq α]

def nestLabelled (opened : List (Kind × α)) (token : Kind × α) : Option (List (Kind × α)) :=
  if (closing? token.1).isSome then
    some (token :: opened)
  else if token.1.isBracket then
    match opened with
    | [] => none
    | opener :: rest =>
      if closing? opener.1 = some token.1 ∧ opener.2 = token.2 then some rest else none
  else
    some opened

variable {stack below : List (Kind × α)} {tokens : List (Kind × α)}

/-- A word in which all brackets have one label is read as without labels. -/
theorem nestLabelled_of_nest (label : α) (nests : kinds.foldlM nest opened = some after) :
    (kinds.map (·, label)).foldlM nestLabelled (opened.map (·, label) ++ below) =
      some (after.map (·, label) ++ below) := by
  induction kinds generalizing opened with
  | nil =>
    cases nests
    rfl
  | cons kind rest ih =>
    rw [List.foldlM_cons, Option.bind_eq_bind, Option.bind_eq_some_iff] at nests
    obtain ⟨inner, first, later⟩ := nests
    have read : nestLabelled (opened.map (·, label) ++ below) (kind, label) =
        some (inner.map (·, label) ++ below) := by
      unfold nest at first
      unfold nestLabelled
      split at first
      · cases first
        simp [*]
      · split at first
        · rcases opened with _ | ⟨opener, opened⟩
          · cases first
          · simp only [Option.ite_none_right_eq_some, Option.some.injEq] at first
            obtain ⟨closes, rfl⟩ := first
            simp [*]
        · cases first
          simp [*]
    rw [List.map_cons, List.foldlM_cons, read, Option.bind_eq_bind, Option.bind_some, ih later]

/-- A word that is well nested without its labels leaves the stack as it is, if it can be read. -/
theorem nestLabelled_leaves {mine rest : List (Kind × α)}
    (nests : (tokens.map Prod.fst).foldlM nest (mine.map Prod.fst) = some after)
    (reads : tokens.foldlM nestLabelled (mine ++ below) = some rest) :
    ∃ left, rest = left ++ below ∧ left.map Prod.fst = after := by
  induction tokens generalizing mine with
  | nil =>
    cases nests
    cases reads
    exact ⟨mine, rfl, rfl⟩
  | cons token tokens ih =>
    rw [List.map_cons, List.foldlM_cons, Option.bind_eq_bind, Option.bind_eq_some_iff] at nests
    rw [List.foldlM_cons, Option.bind_eq_bind, Option.bind_eq_some_iff] at reads
    obtain ⟨inner, first, nests⟩ := nests
    obtain ⟨middle, read, reads⟩ := reads
    obtain ⟨left, rfl, rfl⟩ : ∃ left, middle = left ++ below ∧ left.map Prod.fst = inner := by
      unfold nest at first
      unfold nestLabelled at read
      split at first
      · next opens =>
        rw [if_pos opens] at read
        cases first
        cases read
        exact ⟨token :: mine, rfl, rfl⟩
      · next opens =>
        rw [if_neg opens] at read
        split at first
        · next bracket =>
          rw [if_pos bracket] at read
          rcases mine with _ | ⟨opener, mine⟩
          · cases first
          · simp only [List.map_cons, List.cons_append, Option.ite_none_right_eq_some,
              Option.some.injEq] at first read
            obtain ⟨-, rfl⟩ := first
            obtain ⟨-, rfl⟩ := read
            exact ⟨mine, rfl, rfl⟩
        · next bracket =>
          rw [if_neg bracket] at read
          cases first
          cases read
          exact ⟨mine, rfl, rfl⟩
    exact ih nests reads

/-- Where one bracket closes another in the plain sense, their labels are the same. -/
theorem label_eq {front inner back : List (Kind × α)} {opener closer : Kind × α} {stack : List (Kind × α)}
    (reads : (front ++ opener :: (inner ++ closer :: back)).foldlM nestLabelled [] = some stack)
    (closes : closing? opener.1 = some closer.1) (nested : WellNested (inner.map Prod.fst)) :
    opener.2 = closer.2 := by
  rw [List.foldlM_append, Option.bind_eq_bind, Option.bind_eq_some_iff] at reads
  obtain ⟨below, -, reads⟩ := reads
  have opens : nestLabelled below opener = some (opener :: below) := by simp [nestLabelled, closes]
  rw [List.foldlM_cons, opens, Option.bind_eq_bind, Option.bind_some, List.foldlM_append,
    Option.bind_eq_bind, Option.bind_eq_some_iff] at reads
  obtain ⟨middle, read, reads⟩ := reads
  obtain ⟨left, rfl, none⟩ := @nestLabelled_leaves _ _ _ (opener :: below) inner [] _ nested read
  obtain rfl : left = [] := by simpa using none
  rw [List.foldlM_cons, Option.bind_eq_bind, Option.bind_eq_some_iff] at reads
  obtain ⟨last, read, -⟩ := reads
  simp only [nestLabelled, closing_of_closing closes, Option.isSome_none, Bool.false_eq_true, if_false, if_true,
    List.nil_append, Option.ite_none_right_eq_some] at read
  exact read.1.2

end Labels

end Kind

end LosslessJava
