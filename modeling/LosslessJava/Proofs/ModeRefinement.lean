import LosslessJava.Proofs.Entry

/-! The two modes. A strict run and a lenient one are the same up to the first error that is not
taken back. From there on the strict run has given up, and tells no more than that error. -/

namespace LosslessJava

/-- The same bounds in another mode. -/
def ParseOptions.inMode (options : ParseOptions) (mode : ParseMode) : ParseOptions :=
  { options with mode }

namespace Parser

def Env.inMode (env : Env) (mode : ParseMode) : Env :=
  { env with options := env.options.inMode mode }

namespace State

/-- No error was reported between two states. -/
structure Quiet (s t : State) : Prop where
  errorCount : t.errorCount = s.errorCount
  diagnostics : t.diagnostics = s.diagnostics

/-- No error was reported and none was overcome. -/
structure Calm (s t : State) : Prop extends Quiet s t where
  recovery : s.recovery ≠ .recovering → t.recovery = s.recovery

structure Grows (s t : State) : Prop where
  errorCount : s.errorCount ≤ t.errorCount
  diagnostics : s.diagnostics.toList <+: t.diagnostics.toList

def Silent (s t : State) : Prop :=
  s.recovery = .abandoned → t.recovery = .abandoned ∧ t.diagnostics = s.diagnostics

structure Tells (s : State) (first : Diagnostic) (t : State) : Prop where
  counted : s.errorCount < t.errorCount
  told : s.diagnostics.toList ++ [first] <+: t.diagnostics.toList

structure GivesUp (s : State) (first : Diagnostic) (t : State) : Prop where
  counted : s.errorCount < t.errorCount
  told : t.diagnostics = s.diagnostics.push first
  abandoned : t.recovery = .abandoned

variable {env : Env} {s t u : State}

theorem Quiet.refl : Quiet s s := ⟨rfl, rfl⟩

theorem Quiet.trans (first : Quiet s t) (second : Quiet t u) : Quiet s u :=
  ⟨second.errorCount.trans first.errorCount, second.diagnostics.trans first.diagnostics⟩

theorem Quiet.grows (quiet : Quiet s t) : Grows s t :=
  ⟨Nat.le_of_eq quiet.errorCount.symm, quiet.diagnostics ▸ List.prefix_refl _⟩

theorem Calm.refl : Calm s s := ⟨.refl, fun _ => rfl⟩

theorem Calm.trans (first : Calm s t) (second : Calm t u) : Calm s u :=
  ⟨first.toQuiet.trans second.toQuiet, fun settled => by
    have same := first.recovery settled
    exact (second.recovery (same ▸ settled)).trans same⟩

theorem Calm.silent (calm : Calm s t) : Silent s t := fun abandoned =>
  ⟨(calm.recovery (by simp [abandoned])).trans abandoned, calm.diagnostics⟩

theorem Grows.trans (first : Grows s t) (second : Grows t u) : Grows s u :=
  ⟨Nat.le_trans first.errorCount second.errorCount, first.diagnostics.trans second.diagnostics⟩

private theorem Silent.trans (first : Silent s t) (second : Silent t u) : Silent s u := fun abandoned =>
  have ⟨still, same⟩ := first abandoned
  have ⟨still', same'⟩ := second still
  ⟨still', same'.trans same⟩

theorem Tells.later {first : Diagnostic} (tells : Tells s first t) (grows : Grows t u) :
    Tells s first u :=
  ⟨Nat.lt_of_lt_of_le tells.counted grows.errorCount, tells.told.trans grows.diagnostics⟩

theorem Tells.from {first : Diagnostic} (tells : Tells t first u) (quiet : Quiet s t) :
    Tells s first u :=
  ⟨quiet.errorCount ▸ tells.counted, quiet.diagnostics ▸ tells.told⟩

private theorem GivesUp.later {first : Diagnostic} (given : GivesUp s first t) (grows : Grows t u)
    (silent : Silent t u) : GivesUp s first u :=
  have ⟨still, same⟩ := silent given.abandoned
  ⟨Nat.lt_of_lt_of_le given.counted grows.errorCount, same.trans given.told, still⟩

private theorem GivesUp.from {first : Diagnostic} (given : GivesUp t first u) (quiet : Quiet s t) :
    GivesUp s first u :=
  ⟨quiet.errorCount ▸ given.counted, quiet.diagnostics ▸ given.told, given.abandoned⟩

section Steps

theorem pushToken_calm (kind : Kind) (count : Nat) : Calm s (s.pushToken env kind count) := by
  refine ⟨⟨rfl, rfl⟩, fun settled => ?_⟩
  simp [pushToken, settled]

theorem consumeAny_calm : Calm s (s.consumeAny env) := by
  unfold consumeAny
  split
  · exact .refl
  · exact pushToken_calm _ _

theorem consume_calm {kind : Kind} (run : s.consume env kind = .ok t) : Calm s t := by
  unfold consume at run
  split at run
  · cases run
    exact pushToken_calm _ _
  · cases run

theorem consumeAs_calm {keyword : Kind} (run : s.consumeAs env keyword = .ok t) : Calm s t := by
  unfold consumeAs at run
  split at run
  · cases run
    exact pushToken_calm _ _
  · cases run

theorem complete_calm {mark : Mark} {kind : Kind} (run : s.complete mark kind = .ok t) : Calm s t := by
  unfold complete at run
  split at run
  · cases run
    exact ⟨⟨rfl, rfl⟩, fun _ => rfl⟩
  · cases run

theorem release_calm {mark : Mark} (run : s.release mark = .ok t) : Calm s t := by
  unfold release at run
  split at run
  · split at run
    · cases run
      exact ⟨⟨rfl, rfl⟩, fun _ => rfl⟩
    · cases run
  · cases run
    exact .refl

theorem precede_calm {first : Completed} (run : s.precede first = .ok t) : Calm s t := by
  simp only [precede] at run
  split at run
  · cases run
    exact ⟨⟨rfl, rfl⟩, fun _ => rfl⟩
  · cases run

theorem precede_still {first : Completed} (run : s.precede first = .ok t) :
    t.position = s.position ∧ t.recovery = s.recovery ∧ t.errorCount = s.errorCount := by
  simp only [precede] at run
  split at run
  · cases run
    exact ⟨rfl, rfl, rfl⟩
  · cases run

private theorem consumeRest_calm : Calm s (s.consumeRest env) := by
  fun_induction consumeRest env s with
  | case1 => exact .refl
  | case2 s more ih => exact (pushToken_calm _ _).trans ih

private theorem skipToken_quiet : Quiet s (s.skipToken env) := ⟨rfl, rfl⟩

private theorem skipBraces_quiet (depth : Nat) : Quiet s (s.skipBraces env depth) := by
  fun_induction skipBraces env depth s with
  | case1 => exact .refl
  | case2 => exact skipToken_quiet
  | case3 depth s more inner deeper ih => exact skipToken_quiet.trans ih

theorem skipTo_quiet (recovery : KindSet) : Quiet s (s.skipTo env recovery) := by
  fun_induction skipTo env recovery s with
  | case1 => exact .refl
  | case2 s away ih =>
    refine Quiet.trans ?_ ih
    unfold skipOne
    split
    · exact skipBraces_quiet 0
    · exact skipToken_quiet

theorem abandon_quiet (run : s.abandon env = .ok t) : Quiet s t ∧ t.recovery = .abandoned := by
  unfold abandon at run
  split at run
  · next abandoned =>
    cases run
    exact ⟨.refl, abandoned⟩
  · dsimp only at run
    split at run
    · cases run
      exact ⟨⟨rfl, rfl⟩, rfl⟩
    · have rest : Calm (s.withRecovery .abandoned).start
          ((s.withRecovery .abandoned).start.consumeRest env) := consumeRest_calm
      have swallowed := rest.trans (complete_calm run)
      exact ⟨⟨swallowed.errorCount, swallowed.diagnostics⟩, swallowed.recovery (by simp [start, withRecovery])⟩

theorem report_counts {issue : Issue} (run : s.report env issue = .ok t) : s.errorCount < t.errorCount := by
  have one : s.errorCount < s.count.errorCount := Nat.lt_succ_self _
  unfold report at run
  dsimp only at run
  split at run
  · cases run
    exact one
  · split at run
    · rw [(abandon_quiet run).1.errorCount]
      exact one
    · cases run
      exact one

/-- A report is told where there is no error to overcome, and gives a strict parse up. -/
theorem report_tells {issue : Issue} (normal : s.recovery = .normal)
    (run : s.report env issue = .ok t) :
    t.errorCount = s.errorCount + 1 ∧ t.diagnostics = s.diagnostics.push (s.count.diagnose env issue) ∧
      (env.options.mode = .strict → t.recovery = .abandoned) := by
  have untold : s.count.isTold = false := by simp [isTold, count, normal]
  simp only [report, untold, Bool.false_eq_true, if_false] at run
  split at run
  · obtain ⟨quiet, abandoned⟩ := abandon_quiet run
    exact ⟨quiet.errorCount, quiet.diagnostics, fun _ => abandoned⟩
  · next lenient =>
    cases run
    exact ⟨rfl, rfl, fun strict => absurd strict lenient⟩

theorem reportAndSkip_from {issue : Issue} (run : s.reportAndSkip env issue = .ok u) :
    ∃ t, s.report env issue = .ok t ∧ (t.recovery = .abandoned ∧ u = t ∨ Calm t u) := by
  unfold reportAndSkip at run
  obtain ⟨t, told, run⟩ := bind_eq_ok.mp run
  refine ⟨t, told, ?_⟩
  split at run
  · next atEnd =>
    cases run
    exact .inr .refl
  · have skipped : Calm t.start u := consumeAny_calm.trans (complete_calm run)
    exact .inr ⟨⟨skipped.errorCount, skipped.diagnostics⟩, skipped.recovery⟩

theorem settleAt_from {recovery : KindSet} (run : s.settleAt env recovery = .ok u) :
    u = s ∨ ∃ t, s.report env .recoveryRanOut = .ok t ∧ u = t.withRecovery .abandoned := by
  unfold settleAt at run
  split at run
  · obtain ⟨t, told, run⟩ := bind_eq_ok.mp run
    cases run
    exact .inr ⟨t, told, rfl⟩
  · cases run
    exact .inl rfl

theorem recover_from {recovery : KindSet} (run : s.recover env recovery = .ok u) :
    u = s ∨ s.recovery ≠ .abandoned ∧ ∃ t, Quiet s t ∧ t.recovery = .normal ∧
      t.settleAt env recovery = .ok u := by
  unfold recover at run
  split at run
  · cases run
    exact .inl rfl
  · next going =>
    obtain ⟨skipped, closed, run⟩ := bind_eq_ok.mp run
    have passed : Quiet (s.withRecovery .recovering).start skipped :=
      (skipTo_quiet recovery).trans (complete_calm closed).toQuiet
    simp only [not_or] at going
    exact .inr ⟨going.1, skipped.withRecovery .normal, ⟨passed.errorCount, passed.diagnostics⟩, rfl, run⟩

theorem abandonNested_from (run : s.abandonNested env = .ok u) :
    u = s ∧ s.recovery = .abandoned ∨ ∃ t issue, s.report env issue = .ok t ∧ Quiet t u ∧
      u.recovery = .abandoned := by
  unfold abandonNested at run
  split at run
  · next abandoned =>
    cases run
    exact .inl ⟨rfl, abandoned⟩
  · obtain ⟨t, told, run⟩ := bind_eq_ok.mp run
    exact .inr ⟨t, _, told, abandon_quiet run⟩

structure Extends (s t : State) : Prop where
  grows : Grows s t
  silent : Silent s t

theorem Calm.extends (calm : Calm s t) : Extends s t := ⟨calm.grows, calm.silent⟩

theorem Extends.trans (first : Extends s t) (second : Extends t u) : Extends s u :=
  ⟨first.grows.trans second.grows, first.silent.trans second.silent⟩

theorem report_extends {issue : Issue} (run : s.report env issue = .ok t) : Extends s t := by
  unfold report at run
  dsimp only at run
  split at run
  · cases run
    exact ⟨⟨Nat.le_succ _, List.prefix_refl _⟩, fun abandoned => ⟨abandoned, rfl⟩⟩
  · next untold =>
    have going : s.recovery ≠ .abandoned := by
      intro abandoned
      simp [isTold, count, abandoned] at untold
    have telling : Grows s (s.count.tell env issue) :=
      ⟨Nat.le_succ _, by simp [tell, count]⟩
    refine ⟨?_, fun abandoned => absurd abandoned going⟩
    split at run
    · exact telling.trans (abandon_quiet run).1.grows
    · cases run
      exact telling

private theorem reportAndSkip_extends {issue : Issue} (run : s.reportAndSkip env issue = .ok u) : Extends s u := by
  obtain ⟨t, told, ⟨-, rfl⟩ | calm⟩ := reportAndSkip_from run
  · exact report_extends told
  · exact (report_extends told).trans calm.extends

private theorem settleAt_extends {recovery : KindSet} (run : s.settleAt env recovery = .ok u) : Extends s u := by
  rcases settleAt_from run with rfl | ⟨t, told, rfl⟩
  · exact Calm.refl.extends
  · have told := report_extends told
    exact ⟨⟨told.grows.errorCount, told.grows.diagnostics⟩, fun abandoned => ⟨rfl, (told.silent abandoned).2⟩⟩

private theorem recover_extends {recovery : KindSet} (run : s.recover env recovery = .ok u) : Extends s u := by
  rcases recover_from run with rfl | ⟨going, t, quiet, -, settled⟩
  · exact Calm.refl.extends
  · exact ⟨quiet.grows.trans (settleAt_extends settled).grows, fun abandoned => absurd abandoned going⟩

theorem abandonNested_extends (run : s.abandonNested env = .ok u) : Extends s u := by
  rcases abandonNested_from run with ⟨rfl, -⟩ | ⟨t, issue, told, quiet, abandoned⟩
  · exact Calm.refl.extends
  · have told := report_extends told
    exact ⟨told.grows.trans quiet.grows, fun before =>
      ⟨abandoned, quiet.diagnostics.trans (told.silent before).2⟩⟩

end Steps

end State

theorem Result.of_done {after : Except Halt State} {a : Unit} {t : State}
    (done : Result.done after = .ok (a, t)) : after = .ok t := by
  cases after with
  | error => cases done
  | ok => cases done; rfl

theorem Action.run_extends {env : Env} {α : Type} {action : Action α} {s t : State} {a : α}
    (run : action.run env s = .ok (a, t)) : s.Extends t := by
  cases action with
  | cursor | noLambda | lookaheadLimit | allow | start =>
    cases run
    exact ⟨⟨Nat.le_refl _, List.prefix_refl _⟩, fun abandoned => ⟨abandoned, rfl⟩⟩
  | join kind count =>
    cases run
    exact (State.pushToken_calm _ _).extends
  | consumeAny =>
    cases run
    exact State.consumeAny_calm.extends
  | consume kind => exact (State.consume_calm (Result.of_done run)).extends
  | consumeAs keyword => exact (State.consumeAs_calm (Result.of_done run)).extends
  | release mark => exact (State.release_calm (Result.of_done run)).extends
  | report issue => exact State.report_extends (Result.of_done run)
  | reportAndSkip issue => exact State.reportAndSkip_extends (Result.of_done run)
  | recover recovery => exact State.recover_extends (Result.of_done run)
  | complete mark kind =>
    obtain ⟨u, closed, same⟩ := map_eq_ok.mp run
    cases same
    exact (State.complete_calm closed).extends
  | precede first =>
    obtain ⟨u, preceded, same⟩ := map_eq_ok.mp run
    cases same
    exact (State.precede_calm preceded).extends

section Runs

variable {N : Type → Type} {rules : (α : Type) → N α → Program N α} {α : Type} {env : Env}

namespace Program

/-- Whatever a run does, it only adds to the errors told, and says nothing once it was abandoned. -/
theorem Evaluates.extends {rule : Program N α} {s t : State} {r : Result α} {a : α}
    (run : Evaluates env rules rule s r) (given : r = .ok (a, t)) : s.Extends t := by
  induction run generalizing t with
  | pure =>
    cases given
    exact State.Calm.refl.extends
  | act => exact Action.run_extends given
  | bind _ _ first second => exact (first rfl).trans (second given)
  | bindHalt => cases given
  | loopEnd _ round =>
    cases given
    exact round rfl
  | loopNext _ _ round rest => exact (round rfl).trans (rest given)
  | loopHalt => cases given
  | tooDeep deep =>
    obtain ⟨u, given_up, same⟩ := map_eq_ok.mp given
    cases same
    exact State.abandonNested_extends given_up
  | nested room _ inner =>
    obtain ⟨⟨b, u⟩, rfl, same⟩ := map_eq_ok.mp given
    cases same
    have inside := inner rfl
    exact ⟨⟨inside.grows.errorCount, inside.grows.diagnostics⟩, inside.silent⟩
  | withNoLambda _ inner =>
    obtain ⟨⟨b, u⟩, rfl, same⟩ := map_eq_ok.mp given
    cases same
    have inside := inner rfl
    exact ⟨⟨inside.grows.errorCount, inside.grows.diagnostics⟩, inside.silent⟩
  | speculate _ inner =>
    obtain ⟨⟨b, u⟩, rfl, same⟩ := map_eq_ok.mp given
    have inside := inner rfl
    change settle _ b u = (a, t) at same
    unfold settle at same
    split at same
    · cases same
      exact inside
    · cases same
      exact State.Calm.refl.extends
  | call _ body => exact body given

/-- How a lenient run agrees with what a strict one gives: no error was told and both give the same,
or both told the same error first and the strict one has given up. -/
inductive Agrees (s : State) (a : α) (t : State) (strict : Option (Result α)) : Prop where
  | same (calm : s.Calm t) (only : ∀ b u, strict = some (.ok (b, u)) → b = a ∧ u = t)
  | told (first : Diagnostic) (tells : s.Tells first t)
      (gives : ∀ b u, strict = some (.ok (b, u)) → s.GivesUp first u)

theorem ok_of_andThen {β : Type} {ran : Option (Result α)} {next : α → State → Option (Result β)}
    {b : β} {u : State} (given : andThen ran next = some (.ok (b, u))) :
    ∃ a t, ran = some (.ok (a, t)) ∧ next a t = some (.ok (b, u)) := by
  rcases ran with _ | _ | ⟨a, t⟩
  · cases given
  · cases given
  · exact ⟨a, t, rfl, given⟩

private theorem ok_of_changed {β : Type} {change : α → State → β × State} {ran : Option (Result α)}
    {b : β} {u : State} (given : ran.map (changed change) = some (.ok (b, u))) :
    ∃ a t, ran = some (.ok (a, t)) ∧ change a t = (b, u) := by
  obtain ⟨r, ran, whole⟩ := Option.map_eq_some_iff.mp given
  obtain ⟨⟨a, t⟩, rfl, same⟩ := map_eq_ok.mp whole
  exact ⟨a, t, ran, same⟩

private theorem Agrees.andThen {β : Type} {s t u : State} {a : α} {b : β} {strict : Option (Result α)}
    {next : α → State → Option (Result β)} (first : Agrees s a t strict) (normal : s.recovery = .normal)
    (grows : t.Grows u) (quiet : ∀ a t b u, next a t = some (.ok (b, u)) → t.Extends u)
    (second : t.recovery = .normal → Agrees t b u (next a t)) :
    Agrees s b u (Program.andThen strict next) := by
  cases first with
  | same calm only =>
    have still : t.recovery = .normal := (calm.recovery (by simp [normal])).trans normal
    cases second still with
    | same calm' only' =>
      refine .same (calm.trans calm') fun c v given => ?_
      obtain ⟨a', t', ran, rest⟩ := ok_of_andThen given
      obtain ⟨rfl, rfl⟩ := only a' t' ran
      exact only' c v rest
    | told first tells gives =>
      refine .told first (tells.from calm.toQuiet) fun c v given => ?_
      obtain ⟨a', t', ran, rest⟩ := ok_of_andThen given
      obtain ⟨rfl, rfl⟩ := only a' t' ran
      exact (gives c v rest).from calm.toQuiet
  | told first tells gives =>
    refine .told first (tells.later grows) fun c v given => ?_
    obtain ⟨a', t', ran, rest⟩ := ok_of_andThen given
    have later := quiet a' t' c v rest
    exact (gives a' t' ran).later later.grows later.silent

/-- A run with something of the state set for its time agrees with another one if its inside does. -/
theorem Agrees.changed {β : Type} {s s' t : State} {a : α} {strict : Option (Result α)}
    (change : α → State → β × State) (inner : Agrees s' a t strict)
    (outer : s'.errorCount = s.errorCount ∧ s'.diagnostics = s.diagnostics ∧ s'.recovery = s.recovery)
    (kept : ∀ a t, (change a t).2.errorCount = t.errorCount ∧
      (change a t).2.diagnostics = t.diagnostics ∧ (change a t).2.recovery = t.recovery) :
    Agrees s (change a t).1 (change a t).2 (strict.map (Program.changed change)) := by
  obtain ⟨count, diagnostics, recovery⟩ := outer
  cases inner with
  | same calm only =>
    have ⟨count', diagnostics', recovery'⟩ := kept a t
    refine .same ⟨⟨?_, ?_⟩, ?_⟩ fun b u given => ?_
    · rw [count', calm.errorCount, count]
    · rw [diagnostics', calm.diagnostics, diagnostics]
    · rw [recovery', ← recovery]
      exact calm.recovery
    · obtain ⟨a', t', ran, same⟩ := ok_of_changed given
      obtain ⟨rfl, rfl⟩ := only a' t' ran
      rw [same]
      exact ⟨rfl, rfl⟩
  | told first tells gives =>
    have ⟨count', diagnostics', recovery'⟩ := kept a t
    refine .told first ⟨?_, ?_⟩ fun b u given => ?_
    · rw [count', ← count]
      exact tells.counted
    · rw [diagnostics', ← diagnostics]
      exact tells.told
    · obtain ⟨a', t', ran, same⟩ := ok_of_changed given
      have ⟨count', diagnostics', recovery'⟩ := kept a' t'
      rw [same] at count' diagnostics' recovery'
      have gave := gives a' t' ran
      refine ⟨?_, ?_, recovery'.trans gave.abandoned⟩
      · rw [count', ← count]
        exact gave.counted
      · rw [diagnostics', ← diagnostics]
        exact gave.told

private theorem Agrees.settle {s t : State} {found : Option Completed}
    {strict : Option (Result (Option Completed))} (inner : Agrees s found t strict) :
    Agrees s (settle s found t).1 (settle s found t).2 (strict.map (Program.changed (settle s))) := by
  have away {found : Option Completed} {t : State} (more : s.errorCount < t.errorCount) :
      Program.settle s found t = (none, s) := if_neg fun kept => by omega
  cases inner with
  | same calm only =>
    have gives {b u} (given : strict.map (Program.changed (Program.settle s)) = some (.ok (b, u))) :
        Program.settle s found t = (b, u) := by
      obtain ⟨a', t', ran, same⟩ := ok_of_changed given
      obtain ⟨rfl, rfl⟩ := only a' t' ran
      exact same
    refine .same ?_ fun b u given => by rw [gives given]; exact ⟨rfl, rfl⟩
    unfold Program.settle
    split
    · exact calm
    · exact .refl
  | told first tells gives =>
    rw [away tells.counted]
    refine .same .refl fun b u given => ?_
    obtain ⟨a', t', ran, same⟩ := ok_of_changed given
    rw [away (gives a' t' ran).counted] at same
    cases same
    exact ⟨rfl, rfl⟩

private theorem skipBraces_inMode (mode : ParseMode) (depth : Nat) (s : State) :
    s.skipBraces (env.inMode mode) depth = s.skipBraces env depth := by
  fun_induction State.skipBraces env depth s with
  | case1 depth s ended =>
    rw [State.skipBraces]
    exact if_pos ended
  | case2 depth s more inner closed =>
    rw [State.skipBraces]
    exact (if_neg more).trans (if_pos closed)
  | case3 depth s more inner deeper ih =>
    rw [State.skipBraces]
    exact (if_neg more).trans ((if_neg deeper).trans ih)

private theorem skipTo_inMode (mode : ParseMode) (recovery : KindSet) (s : State) :
    s.skipTo (env.inMode mode) recovery = s.skipTo env recovery := by
  fun_induction State.skipTo env recovery s with
  | case1 s sync =>
    rw [State.skipTo]
    exact if_pos sync
  | case2 s away ih =>
    have step : s.skipOne (env.inMode mode) = s.skipOne env := by
      unfold State.skipOne
      rw [skipBraces_inMode]
      rfl
    rw [State.skipTo]
    refine (if_neg away).trans ?_
    rw [step]
    exact ih

theorem Agrees.report (env : Env) {s t : State} {a : α} {strict : Option (Result α)} (issue : Issue)
    (normal : s.recovery = .normal)
    (lenient : ∃ v, s.report (env.inMode .lenient) issue = .ok v ∧ v.Quiet t)
    (gives : ∀ b u, strict = some (.ok (b, u)) → ∃ v, s.report (env.inMode .strict) issue = .ok v ∧
      v.Quiet u ∧ (v.recovery = .abandoned → u.recovery = .abandoned)) : Agrees s a t strict := by
  obtain ⟨v, told, quiet⟩ := lenient
  obtain ⟨count, diagnostics, -⟩ := State.report_tells normal told
  refine .told (s.count.diagnose env issue) ⟨?_, ?_⟩ fun b u given => ?_
  · rw [quiet.errorCount, count]
    exact Nat.lt_succ_self _
  · rw [quiet.diagnostics, diagnostics, Array.toList_push]
    exact List.prefix_refl _
  · obtain ⟨v, told, quiet, givesUp⟩ := gives b u given
    obtain ⟨count, diagnostics, abandoned⟩ := State.report_tells normal told
    refine ⟨?_, quiet.diagnostics.trans diagnostics, givesUp (abandoned rfl)⟩
    rw [quiet.errorCount, count]
    exact Nat.lt_succ_self _

private theorem Agrees.of_eq {s t : State} {a : α} {strict : Option (Result α)} (calm : s.Calm t)
    (same : strict = some (.ok (a, t))) : Agrees s a t strict :=
  .same calm fun b u given => by
    cases same.symm.trans given
    exact ⟨rfl, rfl⟩

private theorem agrees_settleAt {s t : State} {recovery : KindSet} (normal : s.recovery = .normal)
    (run : s.settleAt (env.inMode .lenient) recovery = .ok t) :
    Agrees s () t (some (Result.done (s.settleAt (env.inMode .strict) recovery))) := by
  by_cases ended : s.current env = .eof ∧ ¬ recovery.contains .eof
  · have settle (mode : ParseMode) {u : State} (run : s.settleAt (env.inMode mode) recovery = .ok u) :
        ∃ v, s.report (env.inMode mode) .recoveryRanOut = .ok v ∧ v.Quiet u ∧ u.recovery = .abandoned := by
      obtain ⟨v, told, run⟩ := bind_eq_ok.mp ((if_pos ended).symm.trans run)
      cases run
      exact ⟨v, told, ⟨rfl, rfl⟩, rfl⟩
    refine .report env .recoveryRanOut normal ?_ fun b u given => ?_
    · obtain ⟨v, told, quiet, -⟩ := settle .lenient run
      exact ⟨v, told, quiet⟩
    · obtain ⟨v, told, quiet, givesUp⟩ := settle .strict (Result.of_done (Option.some.inj given))
      exact ⟨v, told, quiet, fun _ => givesUp⟩
  · have settled (mode : ParseMode) : s.settleAt (env.inMode mode) recovery = .ok s := if_neg ended
    cases (settled .lenient).symm.trans run
    exact .of_eq .refl (by rw [settled]; rfl)

private theorem agrees_recover {s t : State} {recovery : KindSet} (normal : s.recovery = .normal)
    (run : s.recover (env.inMode .lenient) recovery = .ok t) :
    Agrees s () t (some (Result.done (s.recover (env.inMode .strict) recovery))) := by
  by_cases stops : s.recovery = .abandoned ∨ s.atSync env recovery
  · have stays (mode : ParseMode) : s.recover (env.inMode mode) recovery = .ok s := if_pos stops
    cases (stays .lenient).symm.trans run
    exact .of_eq .refl (by rw [stays]; rfl)
  · have skips (mode : ParseMode) : s.recover (env.inMode mode) recovery =
        (((s.withRecovery .recovering).start.skipTo env recovery).complete s.mark .error >>= fun skipped =>
          (skipped.withRecovery .normal).settleAt (env.inMode mode) recovery) := by
      rw [← skipTo_inMode mode]
      exact if_neg stops
    rw [skips] at run ⊢
    obtain ⟨skipped, closed, run⟩ := bind_eq_ok.mp run
    rw [closed]
    have passed : (s.withRecovery .recovering).start.Quiet skipped :=
      (State.skipTo_quiet recovery).trans (State.complete_calm closed).toQuiet
    have settled : Agrees (skipped.withRecovery .normal) () t _ := agrees_settleAt rfl run
    have whole := settled.changed (s := s) (fun a t => (a, t))
      ⟨passed.errorCount, passed.diagnostics, normal.symm⟩ fun _ _ => ⟨rfl, rfl, rfl⟩
    have unchanged (r : Result Unit) : Program.changed (fun a t => (a, t)) r = r := by
      cases r <;> rfl
    rw [Option.map_some, unchanged] at whole
    exact whole

private theorem agrees_act {action : Action α} {s t : State} {a : α} (normal : s.recovery = .normal)
    (run : action.run (env.inMode .lenient) s = .ok (a, t)) :
    Agrees s a t (some (action.run (env.inMode .strict) s)) := by
  have calm (calm : s.Calm t) (same : action.run (env.inMode .strict) s =
      action.run (env.inMode .lenient) s) : Agrees s a t (some (action.run (env.inMode .strict) s)) :=
    .of_eq calm (by rw [same, run])
  cases action with
  | cursor =>
    cases run
    exact calm .refl rfl
  | noLambda =>
    cases run
    exact calm .refl rfl
  | lookaheadLimit =>
    cases run
    exact calm .refl rfl
  | allow =>
    cases run
    exact calm ⟨⟨rfl, rfl⟩, fun _ => rfl⟩ rfl
  | start =>
    cases run
    exact calm ⟨⟨rfl, rfl⟩, fun _ => rfl⟩ rfl
  | join kind count =>
    cases run
    exact calm (State.pushToken_calm _ _) rfl
  | consumeAny =>
    cases run
    exact calm State.consumeAny_calm rfl
  | consume kind => exact calm (State.consume_calm (Result.of_done run)) rfl
  | consumeAs keyword => exact calm (State.consumeAs_calm (Result.of_done run)) rfl
  | release mark => exact calm (State.release_calm (Result.of_done run)) rfl
  | complete mark kind =>
    obtain ⟨u, closed, same⟩ := map_eq_ok.mp run
    cases same
    exact calm (State.complete_calm closed) rfl
  | precede first =>
    obtain ⟨u, preceded, same⟩ := map_eq_ok.mp run
    cases same
    exact calm (State.precede_calm preceded) rfl
  | report issue =>
    refine .report env issue normal ⟨t, Result.of_done run, .refl⟩ fun b u given => ?_
    exact ⟨u, Result.of_done (Option.some.inj given), .refl, id⟩
  | reportAndSkip issue =>
    refine .report env issue normal ?_ fun b u given => ?_
    · obtain ⟨v, told, ⟨-, rfl⟩ | calm⟩ := State.reportAndSkip_from (Result.of_done run)
      · exact ⟨_, told, .refl⟩
      · exact ⟨v, told, calm.toQuiet⟩
    · obtain ⟨v, told, ⟨-, rfl⟩ | calm⟩ := State.reportAndSkip_from (Result.of_done (Option.some.inj given))
      · exact ⟨_, told, .refl, id⟩
      · exact ⟨v, told, calm.toQuiet, fun abandoned => (calm.silent abandoned).1⟩
  | recover recovery => exact agrees_recover normal (Result.of_done run)

private theorem agrees_tooDeep {s t : State} {otherwise : α} (normal : s.recovery = .normal)
    (run : s.abandonNested (env.inMode .lenient) = .ok t) :
    Agrees s otherwise t (some ((s.abandonNested (env.inMode .strict)).map fun t => (otherwise, t))) := by
  have gives (mode : ParseMode) {u : State} (run : s.abandonNested (env.inMode mode) = .ok u) :
      ∃ v, s.report (env.inMode mode) (.nestingTooDeep env.options.maxDepth) = .ok v ∧
        v.Quiet u ∧ u.recovery = .abandoned := by
    have going : s.recovery ≠ .abandoned := by simp [normal]
    obtain ⟨v, told, run⟩ := bind_eq_ok.mp ((if_neg going).symm.trans run)
    exact ⟨v, told, State.abandon_quiet run⟩
  refine .report env (.nestingTooDeep env.options.maxDepth) normal ?_ fun b u given => ?_
  · obtain ⟨v, told, quiet, -⟩ := gives .lenient run
    exact ⟨v, told, quiet⟩
  · obtain ⟨u', strict, same⟩ := map_eq_ok.mp (Option.some.inj given)
    cases same
    obtain ⟨v, told, quiet, givesUp⟩ := gives .strict strict
    exact ⟨v, told, quiet, fun _ => givesUp⟩

/-- Runs of one rule in the two modes agree, from any state without errors to overcome. -/
theorem Evaluates.agrees {rule : Program N α} {s t : State} {r : Result α} {a : α}
    (run : Evaluates (env.inMode .lenient) rules rule s r) (given : r = .ok (a, t))
    (normal : s.recovery = .normal) :
    Agrees s a t (rule.exec (env.inMode .strict) rules s) := by
  induction run generalizing t with
  | pure =>
    cases given
    exact .of_eq .refl (exec_pure _ _)
  | act =>
    rw [exec_act]
    exact agrees_act normal given
  | bind first second ih ih' =>
    refine (congrArg _ (exec_bind _ _ _)).mpr ?_
    exact (ih rfl normal).andThen normal (second.extends given).grows
      (fun _ _ _ _ run => (evaluates_of_exec run).extends rfl) (ih' given)
  | bindHalt => cases given
  | loopEnd round ih =>
    cases given
    rw [exec_loopFrom]
    refine (ih rfl normal).andThen normal (State.Calm.refl.extends).grows (fun b t c u run => ?_) fun _ =>
      .of_eq .refl rfl
    cases b with
    | some b => exact (evaluates_of_exec run).extends rfl
    | none =>
      cases run
      exact State.Calm.refl.extends
  | loopNext round rest ih ih' =>
    rw [exec_loopFrom]
    refine (ih rfl normal).andThen normal (rest.extends given).grows (fun b t c u run => ?_) (ih' given)
    cases b with
    | some b => exact (evaluates_of_exec run).extends rfl
    | none =>
      cases run
      exact State.Calm.refl.extends
  | loopHalt => cases given
  | tooDeep deep =>
    obtain ⟨u, given_up, same⟩ := map_eq_ok.mp given
    cases same
    have deep : (env.inMode .strict).options.maxDepth ≤ _ := deep
    rw [exec_nested_of_le deep]
    exact agrees_tooDeep normal given_up
  | @nested _ _ _ s' r room inner ih =>
    obtain ⟨⟨b, u⟩, rfl, same⟩ := map_eq_ok.mp given
    cases same
    have room : s'.depth < (env.inMode .strict).options.maxDepth := room
    rw [exec_nested_of_lt room]
    exact (ih rfl normal).changed (fun a t => (a, t.leave)) ⟨rfl, rfl, rfl⟩ fun _ _ => ⟨rfl, rfl, rfl⟩
  | withNoLambda inner ih =>
    obtain ⟨⟨b, u⟩, rfl, same⟩ := map_eq_ok.mp given
    cases same
    rw [exec_withNoLambda]
    exact (ih rfl normal).changed (fun a t => (a, t.withNoLambda _)) ⟨rfl, rfl, rfl⟩
      fun _ _ => ⟨rfl, rfl, rfl⟩
  | @speculate rule s' r inner ih =>
    obtain ⟨⟨b, u⟩, rfl, same⟩ := map_eq_ok.mp given
    have same : settle s' b u = (a, t) := same
    rw [exec_speculate]
    have settled := (ih rfl normal).settle
    rw [same] at settled
    exact settled
  | call _ ih =>
    rw [exec_call]
    exact ih given normal

end Program

end Runs

end Parser

namespace Parse

open LosslessJava.Parser Program

/-- What a strict parse comes to, if it comes to something, by what a lenient one of the same text
with the same bounds does. -/
structure Refines (strict lenient : Parse) : Prop where
  clean : lenient.diagnostics = [] → strict.tree = lenient.tree ∧ strict.diagnostics = [] ∧
    lenient.state = .normal ∧ strict.state = .normal
  first : ∀ first rest, lenient.diagnostics = first :: rest → strict.diagnostics = [first] ∧
    strict.state = .abandoned ∧ strict.result = .error (.first first)

private theorem refines_of_run {rule : Grammar.Rule Unit} {stream : TokenStream} {options : ParseOptions}
    {lenient strict : Parse} (one : run rule stream (options.inMode .lenient) = .ok lenient)
    (two : run rule stream (options.inMode .strict) = .ok strict) : Refines strict lenient := by
  let env : Env := { stream, options }
  obtain ⟨t, ran, built⟩ := run_ok one
  obtain ⟨u, ran', built'⟩ := run_ok two
  obtain ⟨steps, tree, found, made, rfl⟩ := ofState_ok built
  obtain ⟨steps', tree', found', made', rfl⟩ := ofState_ok built'
  have evaluates : Evaluates (env.inMode .lenient) Grammar.rule rule {} (.ok ((), t)) :=
    evaluates_of_exec ran
  have agrees : Agrees {} () t (rule.exec (env.inMode .strict) Grammar.rule {}) :=
    evaluates.agrees rfl rfl
  cases agrees with
  | same calm only =>
    obtain ⟨-, rfl⟩ := only () u ran'
    have normal : u.recovery = .normal := calm.recovery (by simp)
    have untold : u.diagnostics = #[] := calm.diagnostics
    have steps_eq : steps' = steps := Option.some.inj (found'.symm.trans found)
    subst steps_eq
    have tree_eq : tree' = tree := Except.ok.inj (made'.symm.trans made)
    subst tree_eq
    exact ⟨fun _ => ⟨rfl, by simp [untold], by simp [normal], by simp [normal]⟩, by simp [untold]⟩
  | told first tells gives =>
    have gave := gives () u ran'
    obtain ⟨more, whole⟩ := tells.told
    have told : u.diagnostics.toList = [first] := by simp [gave.told]
    refine ⟨fun none => ?_, fun first' rest same => ?_⟩
    · simp only at none
      simp [none] at whole
    · simp only at same
      simp only [same, List.nil_append, List.cons_append, List.cons.injEq] at whole
      obtain ⟨rfl, -⟩ := whole
      refine ⟨told, by simp [gave.abandoned], ?_⟩
      simp only [result, told]
      rfl

end Parse

/-- A strict parse of a text that comes to a result refines the lenient parse. -/
theorem strict_refines_lenient (entry : EntryPoint) (text : String) (options : ParseOptions)
    {lenient strict : Parse} (one : entry.parse text (options.inMode .lenient) = .ok lenient)
    (two : entry.parse text (options.inMode .strict) = .ok strict) : strict.Refines lenient := by
  rw [EntryPoint.parse_eq] at one two
  exact Parse.refines_of_run one two

theorem strict_refines_lenient_import :
    ∃ lenient strict, EntryPoint.file.parse "import;" {} = .ok lenient ∧
      EntryPoint.file.parse "import;" { mode := .strict } = .ok strict ∧
      lenient.diagnostics ≠ [] ∧ strict.Refines lenient := by
  have one : Parse.givesWithin 100 (!·.diagnostics.isEmpty) Grammar.compilationUnit
      (.lex "import;") {} = true := by decide +kernel
  have two : Parse.givesWithin 100 (fun _ => true) Grammar.compilationUnit
      (.lex "import;") { mode := .strict } = true := by decide +kernel
  obtain ⟨lenient, one, told⟩ := Parse.run_of_givesWithin one
  obtain ⟨strict, two, -⟩ := Parse.run_of_givesWithin two
  exact ⟨lenient, strict, one, two, by simpa using told,
    strict_refines_lenient .file "import;" {} one two⟩

/-- At a depth at which the innermost receiver is only made out if nothing around it is tried, a strict
parse stops though a lenient one finds no error. -/
theorem strict_stops_in_trial :
    let text := "@A({a<b,@X(h<@Y({c<d<e>>::m})?>::k)}) class Z {}"
    let options : ParseOptions := { maxDepth := 10 }
    (∃ lenient, EntryPoint.file.parse text (options.inMode .lenient) = .ok lenient ∧
        lenient.diagnostics = []) ∧
      ∀ strict, EntryPoint.file.parse text (options.inMode .strict) ≠ .ok strict := by
  intro text options
  have one : Parse.givesWithin 300 (·.diagnostics.isEmpty) Grammar.compilationUnit (.lex text)
      (options.inMode .lenient) = true := by decide +kernel
  have two : Parse.stopsWithin 300 (fun _ => true) Grammar.compilationUnit (.lex text)
      (options.inMode .strict) = true := by decide +kernel
  obtain ⟨lenient, one, clean⟩ := Parse.run_of_givesWithin one
  obtain ⟨halt, two, -⟩ := Parse.run_of_stopsWithin two
  refine ⟨⟨lenient, one, by simpa using clean⟩, fun strict given => ?_⟩
  cases two.symm.trans given

end LosslessJava
