import LosslessJava.Proofs.RoundBrackets

/-! Angle brackets in what is read as type arguments. They are brackets there, and operators elsewhere; in type
arguments these other places are the arguments of annotations, which stand between round brackets. So angle brackets
count where no round bracket is open. No stretch in which both sorts are closed reaches from within type arguments
over the `>` behind them. -/

namespace LosslessJava

namespace Kind

def countAngles (opened : Nat × Nat) (kind : Kind) : Option (Nat × Nat) :=
  if opened.2 = 0 ∧ kind = .lt then
    some (opened.1 + 1, 0)
  else if opened.2 = 0 ∧ kind = .gt then
    if opened.1 = 0 then none else some (opened.1 - 1, 0)
  else
    (countParens opened.2 kind).map (opened.1, ·)

def Angled (kinds : List Kind) : Prop := kinds.foldlM countAngles (0, 0) = some (0, 0)

@[reducible] def isUnpaired : Kind → Bool
  | .lt | .gt | .leftParen | .rightParen => false
  | _ => true

variable {kind : Kind} {kinds front back more : List Kind} {angles angles' rounds rounds' : Nat}

private theorem countAngles_unpaired (unpaired : kind.isUnpaired = true) :
    countAngles (angles, rounds) kind = some (angles, rounds) := by
  have counts : countParens rounds kind = some rounds := by
    cases kind <;> first | rfl | cases unpaired
  have lt : kind ≠ .lt := by rintro rfl; cases unpaired
  have gt : kind ≠ .gt := by rintro rfl; cases unpaired
  simp [countAngles, counts, lt, gt]

private theorem countParens_within (outer : Nat) (counts : countParens rounds kind = some rounds') :
    countParens (rounds + outer) kind = some (rounds' + outer) := by
  cases kind with
  | leftParen =>
    cases counts
    simp only [countParens, Option.some.injEq]
    omega
  | rightParen =>
    simp only [countParens, Option.ite_none_left_eq_some, Option.some.injEq] at counts ⊢
    omega
  | _ =>
    cases counts
    rfl

private theorem countAllParens_within (outer : Nat) (counts : kinds.foldlM countParens rounds = some rounds') :
    kinds.foldlM countParens (rounds + outer) = some (rounds' + outer) := by
  induction kinds generalizing rounds with
  | nil =>
    cases counts
    rfl
  | cons kind rest ih =>
    rw [List.foldlM_cons, Option.bind_eq_bind, Option.bind_eq_some_iff] at counts ⊢
    obtain ⟨middle, first, later⟩ := counts
    exact ⟨_, countParens_within outer first, ih later⟩

private theorem countAllAngles_round (counts : kinds.foldlM countParens rounds = some rounds') :
    kinds.foldlM countAngles (angles, rounds + 1) = some (angles, rounds' + 1) := by
  induction kinds generalizing rounds with
  | nil =>
    cases counts
    rfl
  | cons kind rest ih =>
    rw [List.foldlM_cons, Option.bind_eq_bind, Option.bind_eq_some_iff] at counts ⊢
    obtain ⟨middle, first, later⟩ := counts
    refine ⟨_, ?_, ih later⟩
    simp [countAngles, countParens_within 1 first]

private theorem countParens_of_countAngles (counts : countAngles (angles, rounds) kind = some (angles', rounds')) :
    countParens rounds kind = some rounds' := by
  unfold countAngles at counts
  split at counts
  · next here =>
    obtain ⟨none, rfl⟩ : rounds = 0 ∧ kind = .lt := here
    cases counts
    rw [none]
    rfl
  · split at counts
    · next here =>
      obtain ⟨none, rfl⟩ : rounds = 0 ∧ kind = .gt := here
      simp only [Option.ite_none_left_eq_some, Option.some.injEq, Prod.mk.injEq] at counts
      rw [none, ← counts.2.2]
      rfl
    · obtain ⟨_, counted, same⟩ := Option.map_eq_some_iff.mp counts
      cases same
      exact counted

private theorem countAllParens_of_countAngles (counts : kinds.foldlM countAngles (angles, rounds) = some (angles', rounds')) :
    kinds.foldlM countParens rounds = some rounds' := by
  induction kinds generalizing angles rounds with
  | nil =>
    cases counts
    rfl
  | cons kind rest ih =>
    rw [List.foldlM_cons, Option.bind_eq_bind, Option.bind_eq_some_iff] at counts ⊢
    obtain ⟨⟨_, middle⟩, first, later⟩ := counts
    exact ⟨middle, countParens_of_countAngles first, ih later⟩

private theorem countAngles_within (outer : Nat) (counts : countAngles (angles, rounds) kind = some (angles', rounds')) :
    countAngles (angles + outer, rounds) kind = some (angles' + outer, rounds') := by
  unfold countAngles at counts ⊢
  split at counts
  · next here =>
    rw [if_pos here]
    cases counts
    simp only [Option.some.injEq, Prod.mk.injEq, and_true]
    omega
  · next away =>
    rw [if_neg away]
    split at counts
    · next here =>
      rw [if_pos here]
      simp only [Option.ite_none_left_eq_some, Option.some.injEq, Prod.mk.injEq] at counts ⊢
      omega
    · next away =>
      rw [if_neg away]
      obtain ⟨_, counted, same⟩ := Option.map_eq_some_iff.mp counts
      cases same
      exact Option.map_eq_some_iff.mpr ⟨_, counted, rfl⟩

private theorem countAllAngles_within (outer : Nat) (counts : kinds.foldlM countAngles (angles, rounds) = some (angles', rounds')) :
    kinds.foldlM countAngles (angles + outer, rounds) = some (angles' + outer, rounds') := by
  induction kinds generalizing angles rounds with
  | nil =>
    cases counts
    rfl
  | cons kind rest ih =>
    rw [List.foldlM_cons, Option.bind_eq_bind, Option.bind_eq_some_iff] at counts ⊢
    obtain ⟨⟨_, _⟩, first, later⟩ := counts
    exact ⟨_, countAngles_within outer first, ih later⟩

private theorem Level.not_past (level : Level (front ++ back)) : ¬ Level (back ++ .rightParen :: more) := by
  intro past
  rw [Level, List.foldlM_append, Option.bind_eq_bind, Option.bind_eq_some_iff] at level
  obtain ⟨opened, -, rest⟩ := level
  refine past.not_closed ?_
  rw [Level, List.foldlM_append, Option.bind_eq_bind, Option.bind_eq_some_iff] at past
  obtain ⟨left, reads, -⟩ := past
  have same : left + opened = 0 := by
    have whole := (countAllParens_within opened reads).symm.trans (by simpa using rest)
    simpa using whole
  rw [Level, reads, Option.some.injEq]
  omega

namespace Angled

theorem nil : Angled [] := rfl

theorem one (unpaired : kind.isUnpaired = true) : Angled [kind] := by
  simp [Angled, countAngles_unpaired unpaired]

theorem append (first : Angled front) (second : Angled back) : Angled (front ++ back) := by
  rw [Angled, List.foldlM_append, first, Option.bind_eq_bind, Option.bind_some, second]

theorem between (inside : Angled kinds) : Angled (.lt :: (kinds ++ [.gt])) := by
  have opened : kinds.foldlM countAngles (0 + 1, 0) = some (0 + 1, 0) := countAllAngles_within 1 inside
  rw [Angled, List.foldlM_cons, show countAngles (0, 0) .lt = some (1, 0) from rfl, Option.bind_eq_bind, Option.bind_some,
    List.foldlM_append, show kinds.foldlM countAngles (1, 0) = some (1, 0) from opened]
  rfl

/-- Behind the round brackets of an annotation as many angle brackets are open as before. -/
theorem enclosed (inside : Level kinds) : Angled (.leftParen :: (kinds ++ [.rightParen])) := by
  have opened : kinds.foldlM countAngles (0, 1) = some (0, 1) := countAllAngles_round inside
  rw [Angled, List.foldlM_cons, show countAngles (0, 0) .leftParen = some (0, 1) from rfl, Option.bind_eq_bind,
    Option.bind_some, List.foldlM_append, opened]
  rfl

private theorem level (angled : Angled kinds) : Level kinds := countAllParens_of_countAngles angled

/-- No stretch that closes its brackets goes from within another one over a `>` behind that. -/
theorem not_past (angled : Angled (front ++ back)) : ¬ Angled (back ++ .gt :: more) := by
  intro past
  rw [Angled, List.foldlM_append, Option.bind_eq_bind, Option.bind_eq_some_iff] at angled past
  obtain ⟨⟨angles, rounds⟩, -, rest⟩ := angled
  obtain ⟨⟨angles', rounds'⟩, reads, later⟩ := past
  -- Whatever is open where the second stretch starts is still open behind it.
  cases rounds with
  | zero =>
    have whole := (countAllAngles_within angles reads).symm.trans (by simpa using rest)
    simp only [Option.some.injEq, Prod.mk.injEq, Nat.add_eq_zero_iff] at whole
    obtain ⟨⟨rfl, -⟩, rfl⟩ := whole
    cases later
  | succ rounds =>
    have counts := countAllParens_of_countAngles reads
    have whole := (countAllAngles_round (countAllParens_within rounds counts)).symm.trans (by simpa using rest)
    simp at whole

end Angled

end Kind

/-- A name with type arguments between the tokens behind it and up to another one, if these are read so. Behind them
stands a token that goes on with a type or ends it as the receiver of a method reference; none of these starts an
operand. -/
structure TokenStream.Receiver (stream : TokenStream) (name close : Nat) : Prop where
  named : stream.kindAt name = .identifier
  opened : stream.kindAt (name + 1) = .lt
  order : name + 1 < close
  angled : Kind.Angled (stream.kinds (name + 2) close)
  closed : stream.kindAt close = .gt
  followed : stream.kindAt (close + 1) = .dot ∨ stream.kindAt (close + 1) = .leftBracket ∨
    stream.kindAt (close + 1) = .colonColon

namespace TokenStream.Receiver

variable {stream : TokenStream} {name close i j : Nat}

/-- The arguments are not the last of the stream. -/
theorem inside (receiver : stream.Receiver name close) : close + 1 < stream.size := by
  have more : stream.kindAt (close + 1) ≠ .eof := by
    rcases receiver.followed with dot | bracket | colons
    · exact ne_of_eq_of_ne dot (by decide)
    · exact ne_of_eq_of_ne bracket (by decide)
    · exact ne_of_eq_of_ne colons (by decide)
  exact Nat.lt_of_not_le fun behind => more (kind_tokenAt_of_le (by omega))

/-- What closes its brackets and starts within the arguments ends within them. -/
theorem within (receiver : stream.Receiver name close) (inside : name + 1 < i) (before : i ≤ close)
    (angled : Kind.Angled (stream.kinds i j)) : j ≤ close := by
  refine Nat.le_of_not_lt fun past => ?_
  have whole := receiver.angled
  rw [← stream.kinds_append inside before] at whole
  have beyond : Kind.Angled (stream.kinds i close ++ .gt :: stream.kinds (close + 1) j) := by
    rwa [← receiver.closed, ← stream.kinds_cons past, stream.kinds_append before (Nat.le_of_lt past)]
  exact whole.not_past beyond

/-- No round bracket that was opened before the name is closed within the arguments. -/
theorem not_enclosed (receiver : stream.Receiver name close) (before : i ≤ name) (behind : name < j) (order : j ≤ close)
    (level : Kind.Level (stream.kinds i j)) : stream.kindAt j ≠ .rightParen := by
  intro closer
  have last : j < close := Nat.lt_of_le_of_ne order fun same => by
    rw [same, receiver.closed] at closer
    cases closer
  have arguments : Kind.Level (stream.kinds name (close + 1)) := by
    have ended : stream.kinds (close + 1) (close + 1) = [] := by simp [kinds]
    have order := receiver.order
    rw [stream.kinds_cons (by omega), stream.kinds_cons (by omega), receiver.named, receiver.opened,
      ← stream.kinds_append (show name + 1 + 1 ≤ close by omega) (Nat.le_succ close), stream.kinds_cons (Nat.lt_succ_self close), receiver.closed, ended]
    have name : Kind.Level [.identifier] := .one (by decide) (by decide)
    exact name.append receiver.angled.between.level
  rw [← stream.kinds_append before (Nat.le_of_lt behind)] at level
  have beyond : Kind.Level (stream.kinds name j ++ .rightParen :: stream.kinds (j + 1) (close + 1)) := by
    rwa [← closer, ← stream.kinds_cons (by omega), stream.kinds_append (Nat.le_of_lt behind) (by omega)]
  exact level.not_past beyond

end TokenStream.Receiver

end LosslessJava
