import LosslessJava.Proofs.Endless
import LosslessJava.Proofs.Invariants

/-! What a tried rule leaves behind. A parser takes a trial back by cutting off what was recorded and told since,
and by putting back the few values it remembered; whatever the trial changed in place among what was there before
would stay changed. In every state that a run comes to, a trial of a type changes nothing there, so that this is
as good as never having tried. -/

namespace LosslessJava

namespace Parser

/-- What a parser remembers of its state before a trial. -/
structure Snapshot where
  /-- How many events were recorded. -/
  events : Nat
  position : Nat
  /-- How many diagnostics were told. -/
  diagnostics : Nat
  errorCount : Nat
  expected : KindSet
  recovery : RecoveryState
  depth : Nat

namespace State

def snapshot (s : State) : Snapshot where
  events := s.events.size
  position := s.position
  diagnostics := s.diagnostics.size
  errorCount := s.errorCount
  expected := s.expected
  recovery := s.recovery
  depth := s.depth

/-- Takes back what was done since a snapshot. The restriction on lambdas is not part of one, and no event or
diagnostic is looked at that was there already. -/
def rewind (t : State) (before : Snapshot) : State :=
  { t with
    events := t.events.take before.events
    position := before.position
    diagnostics := t.diagnostics.take before.diagnostics
    errorCount := before.errorCount
    expected := before.expected
    recovery := before.recovery
    depth := before.depth }

variable {env : Env} {s t u : State}

private theorem take_of_prefix {β : Type} {front whole : Array β} (kept : front.toList <+: whole.toList) :
    whole.take front.size = front := by
  obtain ⟨rest, split⟩ := kept
  apply Array.ext'
  rw [Array.take_eq_extract, Array.toList_extract, ← split]
  simp

/-- Where events and diagnostics were only added and the restriction on lambdas is the same, a rewind leads back. -/
theorem rewind_snapshot (passes : Passes s t) (grows : Grows s t) : t.rewind s.snapshot = s := by
  obtain ⟨more, recorded, -⟩ := passes.events
  have events : t.events.take s.events.size = s.events := take_of_prefix ⟨more, recorded.symm⟩
  have diagnostics : t.diagnostics.take s.diagnostics.size = s.diagnostics := take_of_prefix grows.diagnostics
  simp only [rewind, snapshot, events, diagnostics, passes.noLambda]

def Counts (s t : State) : Prop := Quiet s t ∨ s.errorCount < t.errorCount

private theorem Counts.later (counts : Counts s t) (grows : Grows s t) (later : Counts t u) : Counts s u := by
  rcases counts with quiet | more
  · rcases later with quiet' | more
    · exact .inl (quiet.trans quiet')
    · exact .inr (quiet.errorCount ▸ more)
  · rcases later with quiet' | more'
    · exact .inr (quiet'.errorCount ▸ more)
    · exact .inr (Nat.lt_of_le_of_lt grows.errorCount more')

private theorem abandonNested_counts (run : s.abandonNested env = .ok t) : Counts s t := by
  rcases abandonNested_from run with ⟨rfl, -⟩ | ⟨u, issue, told, quiet, -⟩
  · exact .inl .refl
  · exact .inr (quiet.errorCount ▸ report_counts told)

section Goodness

theorem Good.kept (good : s.Good env) (position : t.position = s.position) (recovery : t.recovery = s.recovery) :
    t.Good env where
  inside := position ▸ good.inside
  ended abandoned := by
    rw [current, cursor, position]
    exact good.ended (recovery ▸ abandoned)
  strict mode := recovery ▸ good.strict mode

variable (regular : env.stream.Regular) (good : s.Good env)

include regular good

private theorem pushToken_good (kind : Kind) (count : Nat) : (s.pushToken env kind count).Good env where
  inside := (s.cursor env).index_lt_size count
  ended abandoned := by
    have before : s.recovery = .abandoned := by
      simp only [pushToken] at abandoned
      split at abandoned
      · cases abandoned
      · exact abandoned
    -- Once the parse is abandoned it is at the last token, behind which no step leads.
    have last := good.position_of_eof regular (good.ended before)
    have still : (s.pushToken env kind count).position = s.position := by
      show min (s.position + count) (env.stream.size - 1) = s.position
      omega
    rw [current, cursor, still]
    exact good.ended before
  strict mode := by
    have settled := good.strict mode
    simp only [pushToken, if_neg settled]
    exact settled

private theorem consume_good {kind : Kind} (run : s.consume env kind = .ok t) : t.Good env := by
  unfold State.consume at run
  split at run
  · cases run
    exact pushToken_good regular good _ _
  · cases run

private theorem consumeAs_good {keyword : Kind} (run : s.consumeAs env keyword = .ok t) : t.Good env := by
  unfold State.consumeAs at run
  split at run
  · cases run
    exact pushToken_good regular good _ _
  · cases run

private theorem consumeAny_good : (s.consumeAny env).Good env := by
  unfold State.consumeAny
  split
  · exact good
  · exact pushToken_good regular good _ _

end Goodness

end State

open State

variable {env : Env} {s t : State} {α : Type}

private theorem Action.run_counts {action : Action α} {a : α} (run : action.run env s = .ok (a, t)) : s.Counts t := by
  cases action with
  | cursor | noLambda | lookaheadLimit | allow | start =>
    cases run
    exact .inl ⟨rfl, rfl⟩
  | join =>
    cases run
    exact .inl (pushToken_calm _ _).toQuiet
  | consumeAny =>
    cases run
    exact .inl consumeAny_calm.toQuiet
  | consume => exact .inl (consume_calm (Result.of_done run)).toQuiet
  | consumeAs => exact .inl (consumeAs_calm (Result.of_done run)).toQuiet
  | release => exact .inl (release_calm (Result.of_done run)).toQuiet
  | report => exact .inr (report_counts (Result.of_done run))
  | reportAndSkip =>
    obtain ⟨u, told, rest⟩ := reportAndSkip_from (Result.of_done run)
    have more := report_counts told
    rcases rest with ⟨-, rfl⟩ | calm
    · exact .inr more
    · exact .inr (calm.errorCount ▸ more)
  | recover =>
    rcases recover_from (Result.of_done run) with rfl | ⟨-, u, quiet, -, settled⟩
    · exact .inl .refl
    · rcases settleAt_from settled with rfl | ⟨v, told, rfl⟩
      · exact .inl quiet
      · have more : u.errorCount < v.errorCount := report_counts told
        exact .inr (quiet.errorCount ▸ more)
  | complete =>
    obtain ⟨u, closed, same⟩ := map_eq_ok.mp run
    cases same
    exact .inl (complete_calm closed).toQuiet
  | precede =>
    obtain ⟨u, preceded, same⟩ := map_eq_ok.mp run
    cases same
    exact .inl (precede_calm preceded).toQuiet

private theorem counts_invariant (env : Env) (s : State) : Invariant env (fun _ => True) fun t => s.Grows t ∧ s.Counts t where
  act _ before run := ⟨before.1.trans (Action.run_extends run).grows, before.2.later before.1 (Action.run_counts run)⟩
  tooDeep before run :=
    ⟨before.1.trans (abandonNested_extends run).grows, before.2.later before.1 (abandonNested_counts run)⟩
  depth _ before := ⟨⟨before.1.errorCount, before.1.diagnostics⟩, before.2.imp (fun quiet => ⟨quiet.1, quiet.2⟩) id⟩
  noLambda _ before := ⟨⟨before.1.errorCount, before.1.diagnostics⟩, before.2.imp (fun quiet => ⟨quiet.1, quiet.2⟩) id⟩

/-- What all states of a run have in common, every step keeps. -/
theorem good_invariant (regular : env.stream.Regular) : Invariant env (fun _ => True) (Good env) where
  act {_ action a s t} _ good run := by
    cases action with
    | cursor | noLambda | lookaheadLimit | allow | start =>
      cases run
      exact good.kept rfl rfl
    | join =>
      cases run
      exact pushToken_good regular good _ _
    | consumeAny =>
      cases run
      exact consumeAny_good regular good
    | consume => exact consume_good regular good (Result.of_done run)
    | consumeAs => exact consumeAs_good regular good (Result.of_done run)
    | report issue =>
      obtain ⟨u, told, after⟩ := report_ok regular good issue
      cases told.symm.trans (Result.of_done run)
      exact after.good
    | reportAndSkip issue =>
      obtain ⟨u, told, after, -⟩ := reportAndSkip_ok regular good issue
      cases told.symm.trans (Result.of_done run)
      exact after.good
    | recover recovery =>
      obtain ⟨u, recovered, after⟩ := recover_ok regular good recovery
      cases recovered.symm.trans (Result.of_done run)
      exact after.good
    | complete mark kind =>
      obtain ⟨u, closed, same⟩ := map_eq_ok.mp run
      cases same
      unfold State.complete at closed
      split at closed
      · cases closed
        exact good.kept rfl rfl
      · cases closed
    | release mark =>
      have released := Result.of_done run
      unfold State.release at released
      split at released
      · split at released
        · cases released
          exact good.kept rfl rfl
        · cases released
      · cases released
        exact good
    | precede first =>
      obtain ⟨u, preceded, same⟩ := map_eq_ok.mp run
      cases same
      obtain ⟨position, recovery, -⟩ := precede_still preceded
      exact good.kept position recovery
  tooDeep good run := by
    obtain ⟨u, abandoned, after, -⟩ := abandonNested_ok regular good
    cases abandoned.symm.trans run
    exact after.good
  depth _ good := good.kept rfl rfl
  noLambda _ good := good.kept rfl rfl

namespace Program

variable {N : Type → Type} {rules : (α : Type) → N α → Program N α}

/-- A rule that is run from a state comes to a part of it in another state. -/
inductive Comes (env : Env) (rules : (α : Type) → N α → Program N α) {β : Type} (part : Program N β) (t : State) :
    {α : Type} → Program N α → State → Prop where
  | here : Comes env rules part t part t
  | first {α γ : Type} {rule : Program N γ} {next : γ → Program N α} {s} (comes : Comes env rules part t rule s) :
      Comes env rules part t (.bind rule next) s
  | next {α γ : Type} {rule : Program N γ} {next : γ → Program N α} {s u} {a : γ}
      (ran : rule.exec env rules s = some (.ok (a, u))) (comes : Comes env rules part t (next a) u) :
      Comes env rules part t (.bind rule next) s
  | round {α : Type} {a : α} {step : α → Program N (Option α)} {s} (comes : Comes env rules part t (step a) s) :
      Comes env rules part t (.loopFrom a step) s
  | later {α : Type} {a b : α} {step : α → Program N (Option α)} {s u}
      (ran : (step a).exec env rules s = some (.ok (some b, u)))
      (comes : Comes env rules part t (.loopFrom b step) u) : Comes env rules part t (.loopFrom a step) s
  | nested {α : Type} {otherwise : α} {rule : Program N α} {s} (room : s.depth < env.options.maxDepth)
      (comes : Comes env rules part t rule s.enter) : Comes env rules part t (.nested otherwise rule) s
  | withNoLambda {α : Type} {noLambda : Bool} {rule : Program N α} {s}
      (comes : Comes env rules part t rule (s.withNoLambda noLambda)) :
      Comes env rules part t (.withNoLambda noLambda rule) s
  | speculate {rule : Program N (Option Completed)} {s} (comes : Comes env rules part t rule s) :
      Comes env rules part t (.speculate rule) s
  | call {α : Type} {name : N α} {s} (comes : Comes env rules part t (rules α name) s) :
      Comes env rules part t (.call name) s

private theorem Comes.keeps {Holds : State → Prop} (invariant : Invariant env (fun _ => True) Holds) {β : Type}
    {part : Program N β} {rule : Program N α} (comes : Comes env rules part t rule s) (before : Holds s) : Holds t := by
  have keeps {γ : Type} {rule : Program N γ} {a : γ} {s u} (ran : rule.exec env rules s = some (.ok (a, u)))
      (before : Holds s) : Holds u :=
    (evaluates_of_exec ran).keeps invariant (fun _ _ => uses_any _) (uses_any _) rfl before
  induction comes with
  | here => exact before
  | first _ ih | round _ ih | speculate _ ih | call _ ih => exact ih before
  | next ran _ ih | later ran _ ih => exact ih (keeps ran before)
  | nested _ _ ih => exact ih (invariant.depth _ before)
  | withNoLambda _ ih => exact ih (invariant.noLambda _ before)

end Program

end Parser

namespace EntryPoint

open LosslessJava.Parser

/-- A parse of a text comes to a state: some part of its rule is run from there. -/
def ComesTo (entry : EntryPoint) (text : String) (options : ParseOptions) (s : State) : Prop :=
  ∃ (β : Type) (part : Grammar.Rule β),
    Program.Comes { stream := .lex text, options } Grammar.rule part s entry.rule {}

private theorem ComesTo.good {entry : EntryPoint} {text : String} {options : ParseOptions} {s : State}
    (comes : entry.ComesTo text options s) : s.Good { stream := .lex text, options } := by
  obtain ⟨β, part, comes⟩ := comes
  apply comes.keeps (good_invariant (regular_lex text))
  exact ⟨(TokenStream.lex text).size_pos, nofun, nofun⟩

end EntryPoint

namespace Grammar

open LosslessJava.Parser

variable {env : Env} {s t : State}

/-- What is tried at a name with `<` behind it: a type, and `::` behind that. -/
def receiverTrial : Rule (Option Completed) := do
  match ← call .type with
  | some type => return if ← sees .colonColon then some type else none
  | none => return none

/-- What is answered and left behind after a trial: a node without an error is kept, and of anything else all
that was done since the snapshot is taken back. -/
def afterTrial (s : State) (found : Option Completed) (t : State) : Option Completed × State :=
  if found.isSome ∧ t.errorCount = s.errorCount then (found, t) else (none, t.rewind s.snapshot)

/-- A type that is read, and a look behind it, only add to what was there. -/
theorem receiverTrial_passes (regular : env.stream.Regular) (good : s.Good env) {found : Option Completed}
    (ran : receiverTrial.exec env rule s = some (.ok (found, t))) : s.Passes t := by
  rw [receiverTrial, Program.exec_bind] at ran
  obtain ⟨type, u, read, ran⟩ := Program.ok_of_andThen ran
  have passes : s.Passes u := by
    cases call_settles regular _ ⟨False, False⟩ .type s good (Nat.lt_succ_self _) trivial with
    | gives ran' holds =>
      cases read.symm.trans ran'.exec_eq
      exact holds.1.toPasses
    | halts ran' => cases read.symm.trans ran'.exec_eq
    | sticks cause => cases read.symm.trans (exec_eq_none_of_sticks cause)
  cases type with
  | none =>
    cases ran.symm.trans (Program.exec_return _ _)
    exact passes
  | some type =>
    have looked : t = u.allow (.singleton .colonColon) := by
      simp only [sees, nthIs, nth, cursor, allow, Program.exec_bind, Program.exec_act, Program.exec_return, Action.run,
        Program.andThen_ok] at ran
      cases ran
      rfl
    subst looked
    exact passes.trans (.of_eq rfl rfl rfl rfl)

variable {entry : EntryPoint} {text : String} {options : ParseOptions}

/-- In every state that a parse comes to, be it at a name with `<` behind it or elsewhere, the trial of a type
leaves nothing behind unless it is kept: to take it back leads to the very state it was made in. If it is kept,
nothing was told and no error was counted. -/
theorem receiver_trial_atomic (comes : entry.ComesTo text options s) {found : Option Completed}
    (ran : receiverTrial.exec { stream := .lex text, options } rule s = some (.ok (found, t))) :
    genericReceiver?.exec { stream := .lex text, options } rule s = some (.ok (afterTrial s found t)) ∧
      ((afterTrial s found t).1 = none → (afterTrial s found t).2 = s) ∧
      ((afterTrial s found t).1.isSome → (afterTrial s found t).2.diagnostics = s.diagnostics ∧
        (afterTrial s found t).2.errorCount = s.errorCount) := by
  have passes := receiverTrial_passes (regular_lex text) comes.good ran
  obtain ⟨grows, counts⟩ := (Program.evaluates_of_exec ran).keeps (counts_invariant _ s) (fun _ _ => Program.uses_any _)
    (Program.uses_any _) rfl ⟨State.Quiet.refl.grows, .inl .refl⟩
  have back : t.rewind s.snapshot = s := State.rewind_snapshot passes grows
  have settled : Program.settle s found t = afterTrial s found t := by rw [Program.settle, afterTrial, back]
  refine ⟨?_, ?_, ?_⟩
  · rw [genericReceiver?, speculate, Program.exec_speculate]
    show (receiverTrial.exec _ rule s).map _ = _
    rw [ran, ← settled]
    rfl
  · unfold afterTrial
    split
    · next kept =>
      intro absent
      rw [show found = none from absent] at kept
      cases kept.1
    · intro _
      exact back
  · unfold afterTrial
    split
    · next kept =>
      intro _
      rcases counts with quiet | more
      · exact ⟨quiet.diagnostics, quiet.errorCount⟩
      · omega
    · intro given
      cases given

def triesWithin (fuel : Nat) (env : Env) (size : Nat) : Bool :=
  (receiverTrial.execWithin env rule fuel {}).any fun
    | .ok (found, t) => found.isSome && t.events.size == size && t.errorCount == 1
    | .error _ => false

private theorem exec_of_triesWithin {fuel : Nat} {env : Env} {size : Nat} (tries : triesWithin fuel env size = true) :
    ∃ found t, receiverTrial.exec env rule {} = some (.ok (found, t)) ∧ found.isSome ∧ t.events.size = size ∧
      t.errorCount = 1 := by
  obtain ⟨given, ran, checked⟩ := (Option.any_eq_true _ _).mp tries
  rcases given with halt | ⟨found, t⟩
  · cases checked
  · simp only [Bool.and_eq_true, beq_iff_eq] at checked
    exact ⟨found, t, Program.exec_of_execWithin ran, checked.1.1, checked.1.2, checked.2⟩

/-- A type is read and `::` stands behind it, but a class in its annotation lacks a `;`. -/
theorem receiver_trial_atomic_annotated :
    ∃ found t, found.isSome ∧ t.events.size = 42 ∧
      receiverTrial.exec { stream := .lex "a<@B(new C(){int x})e>::f", options := {} } rule {} = some (.ok (found, t)) ∧
      t.rewind ({} : State).snapshot = {} := by
  obtain ⟨found, t, exec, some, size, count⟩ : ∃ found t, receiverTrial.exec
      { stream := .lex "a<@B(new C(){int x})e>::f", options := {} } rule {} = some (.ok (found, t)) ∧ found.isSome ∧
      t.events.size = 42 ∧ t.errorCount = 1 := by
    apply exec_of_triesWithin (show triesWithin 300 _ _ = true by decide +kernel)
  have comes : EntryPoint.expression.ComesTo "a<@B(new C(){int x})e>::f" {} {} := ⟨Unit, expressionRoot, .here⟩
  have atomic := receiver_trial_atomic comes exec
  refine ⟨found, t, some, size, exec, ?_⟩
  have undone : afterTrial {} found t = (none, t.rewind ({} : State).snapshot) := if_neg fun kept => by
    rw [count] at kept
    cases kept.2
  rw [undone] at atomic
  exact atomic.2.1 rfl

end Grammar

end LosslessJava
