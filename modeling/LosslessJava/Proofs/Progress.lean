import LosslessJava.Proofs.Files
import LosslessJava.Proofs.Grammar.Inputs
import LosslessJava.Proofs.Invariants
import LosslessJava.Proofs.Lossless

/-! Loops over elements get on. In each round the rule for an element moves, or else a token is reported and put into an
error node by itself. So such a loop is over at the latest when the tokens are, and what no rule takes is told. -/

namespace LosslessJava

open LosslessJava.Parser

namespace Parser.State

variable {env : Env} {s t u : State}

/-- A parse that was given up has come to the end of input. -/
def Coherent (env : Env) (s : State) : Prop := s.recovery = .abandoned → s.current env = .eof

/-- The events at a place are a node for an error with one token. -/
def Lone (t : State) (place : Nat) (kind : Kind) : Prop :=
  (∃ pointer, t.events[place]? = some (.start .error pointer)) ∧ t.events[place + 1]? = some (.token kind 1) ∧
    t.events[place + 2]? = some .finish

/-- There is a diagnostic for the token at an index. -/
def Reported (t : State) (index : Nat) : Prop := ∃ d ∈ t.diagnostics.toList, d.tokenIndex = index

/-- Nodes that have their kind in a state keep it: the marks of their starts are used up. -/
def Respects (s t : State) : Prop :=
  ∀ (place : Nat) (kind : Kind) (pointer : Option Nat), kind ≠ .tombstone →
    s.events[place]? = some (.start kind pointer) → ∃ other, t.events[place]? = some (.start kind other)

structure Retains (s t : State) : Prop where
  events (place : Nat) (event : Event) (inner : ∀ kind pointer, event ≠ .start kind pointer)
    (here : s.events[place]? = some event) : t.events[place]? = some event
  told : s.diagnostics.toList <+: t.diagnostics.toList

theorem Respects.trans (first : Respects s t) (second : Respects t u) : Respects s u := by
  intro place kind pointer proper here
  obtain ⟨_, there⟩ := first place kind pointer proper here
  exact second place kind _ proper there

theorem Retains.trans (first : Retains s t) (second : Retains t u) : Retains s u where
  events place event inner here := second.events place event inner (first.events place event inner here)
  told := first.told.trans second.told

private theorem Lone.later {place : Nat} {kind : Kind} (lone : s.Lone place kind) (respects : Respects s t)
    (retains : Retains s t) : t.Lone place kind := by
  obtain ⟨⟨pointer, start⟩, token, finish⟩ := lone
  exact ⟨respects place .error pointer (by decide) start, retains.events _ _ (by simp) token,
    retains.events _ _ (by simp) finish⟩

private theorem Reported.later {index : Nat} (reported : s.Reported index) (retains : Retains s t) : t.Reported index := by
  obtain ⟨d, among, here⟩ := reported
  exact ⟨d, retains.told.subset among, here⟩

private theorem respects_of_append {more : List Event} (recorded : t.events.toList = s.events.toList ++ more) :
    Respects s t := by
  intro place kind pointer _ here
  refine ⟨pointer, ?_⟩
  rw [← Array.getElem?_toList] at here ⊢
  rw [recorded, List.getElem?_append_left (List.getElem?_eq_some_iff.mp here).1, here]

private theorem retains_of_append {more : List Event} (recorded : t.events.toList = s.events.toList ++ more)
    (told : s.diagnostics.toList <+: t.diagnostics.toList) : Retains s t where
  events place event _ here := by
    rw [← Array.getElem?_toList] at here ⊢
    rw [recorded, List.getElem?_append_left (List.getElem?_eq_some_iff.mp here).1, here]
  told := told

/-! ### What runs retain -/

section Retained

variable {place : Nat} {event : Event}

private theorem retained_set {events : Array Event} {index : Nat} {kind other : Kind} {old new : Option Nat}
    (inner : ∀ kind pointer, event ≠ .start kind pointer) (found : events[index]? = some (.start kind old))
    (here : events[place]? = some event) : (events.setIfInBounds index (.start other new))[place]? = some event := by
  have away : index ≠ place := by
    rintro rfl
    exact inner _ _ (Option.some.inj (here.symm.trans found))
  rw [Array.getElem?_setIfInBounds_ne away, here]

private theorem retained_push {events : Array Event} (next : Event) (here : events[place]? = some event) :
    (events.push next)[place]? = some event := by
  have bound := (Array.getElem?_eq_some_iff.mp here).1
  rw [Array.getElem?_push, if_neg (by omega), here]

private theorem retained_complete {mark : Mark} {kind : Kind} (inner : ∀ kind pointer, event ≠ .start kind pointer)
    (run : s.complete mark kind = .ok t) (here : s.events[place]? = some event) : t.events[place]? = some event := by
  unfold complete at run
  split at run
  · next found =>
    cases run
    exact retained_push _ (retained_set inner found here)
  · cases run

private theorem retained_release {mark : Mark} (inner : ∀ kind pointer, event ≠ .start kind pointer)
    (run : s.release mark = .ok t) (here : s.events[place]? = some event) : t.events[place]? = some event := by
  unfold release at run
  split at run
  · split at run
    · next last =>
      cases run
      have apart : place ≠ s.events.size - 1 := by
        rintro rfl
        rw [Array.back?_eq_getElem?, here] at last
        exact inner _ _ (Option.some.inj last)
      have bound := (Array.getElem?_eq_some_iff.mp here).1
      rw [Array.getElem?_pop, if_pos (by omega), here]
    · cases run
  · cases run
    exact here

private theorem retained_precede {first : Completed} (inner : ∀ kind pointer, event ≠ .start kind pointer)
    (run : s.precede first = .ok t) (here : s.events[place]? = some event) : t.events[place]? = some event := by
  simp only [precede] at run
  split at run
  · next found =>
    cases run
    exact retained_set inner found (retained_push _ here)
  · cases run

private theorem retained_growth (inner : ∀ kind pointer, event ≠ .start kind pointer) :
    Growth env fun s t => s.events[place]? = some event → t.events[place]? = some event where
  trans first second := second ∘ first
  still events _ _ here := events ▸ here
  push := retained_push _
  error inside closed here := retained_complete inner closed (inside (retained_push _ here))

private theorem retained_act {α : Type} {action : Action α} {a : α} (inner : ∀ kind pointer, event ≠ .start kind pointer)
    (run : action.run env s = .ok (a, t)) (here : s.events[place]? = some event) : t.events[place]? = some event := by
  cases action with
  | start | join =>
    cases run
    exact retained_push _ here
  | consumeAs keyword =>
    have run := Result.of_done run
    unfold consumeAs at run
    split at run
    · cases run
      exact retained_push _ here
    · cases run
  | release mark => exact retained_release inner (Result.of_done run) here
  | complete mark kind =>
    obtain ⟨u, closed, same⟩ := map_eq_ok.mp run
    cases same
    exact retained_complete inner closed here
  | precede first =>
    obtain ⟨u, preceded, same⟩ := map_eq_ok.mp run
    cases same
    exact retained_precede inner preceded here
  | _ => exact (retained_growth inner).act rfl run here

end Retained

end Parser.State

namespace Parser.Program

variable {N : Type → Type} {env : Env} {rules : (α : Type) → N α → Program N α} {α : Type} {s t : State}

/-- Whatever a run does, tokens and the ends of nodes stay recorded where they are. -/
theorem retains_of_exec {rule : Program N α} {a : α} (run : rule.exec env rules s = some (.ok (a, t))) :
    s.Retains t where
  events place event inner here := by
    have kept : Invariant env (fun _ => True) fun s => s.events[place]? = some event :=
      { act := fun _ before run => State.retained_act inner run before
        tooDeep := fun before run => (State.retained_growth inner).abandonNested run before
        depth := fun _ before => before
        noLambda := fun _ before => before }
    exact (evaluates_of_exec run).keeps kept (fun _ _ => uses_any _) (uses_any _) rfl here
  told := ((evaluates_of_exec run).extends rfl).grows.diagnostics

end Parser.Program

/-! ### A token that is forced -/

namespace Parser.State

variable {env : Env} {s t u : State}

/-- A lenient report at a token that the parse was not given up before leaves a diagnostic for it, be it an earlier
one. -/
theorem report_reported (lenient : env.options.mode = .lenient) (going : s.recovery ≠ .abandoned) (issue : Issue) :
    ∃ t, s.report env issue = .ok t ∧ t.events = s.events ∧ t.position = s.position ∧ t.recovery ≠ .abandoned ∧
      t.Reported s.position := by
  by_cases told : s.count.isTold
  · refine ⟨s.count, by simp only [report, told, if_true], rfl, rfl, going, ?_⟩
    have last : s.diagnostics.back?.map Diagnostic.tokenIndex = some s.position := by
      simp only [isTold, count, Bool.or_eq_true, Bool.and_eq_true, beq_iff_eq] at told
      exact (told.resolve_left going).2
    obtain ⟨d, found, here⟩ := Option.map_eq_some_iff.mp last
    exact ⟨d, Array.mem_toList_iff.mpr (Array.mem_of_back? found), here⟩
  · refine ⟨s.count.tell env issue, by simp [report, told, lenient], rfl, rfl, by simp [tell], ?_⟩
    exact ⟨_, by simp [tell, count]; exact .inr rfl, rfl⟩

private theorem reportAndSkip_lone (lenient : env.options.mode = .lenient) (going : s.recovery ≠ .abandoned)
    (more : s.current env ≠ .eof) (issue : Issue) :
    ∃ u, s.reportAndSkip env issue = .ok u ∧ u.position = s.position + 1 ∧ u.recovery ≠ .abandoned ∧
      u.events.toList = s.events.toList ++ [.start .error none, .token (s.current env) 1, .finish] ∧
      u.Reported s.position ∧ s.diagnostics.toList <+: u.diagnostics.toList := by
  obtain ⟨t, run, events, still, going', d, among, here⟩ := report_reported lenient going issue
  have same : t.current env = s.current env := by simp [current, cursor, still]
  have more' : t.start.current env ≠ .eof := same ▸ more
  let pushed := t.start.pushToken env (t.current env) 1
  have recorded : pushed.events.toList = s.events.toList ++ [.tombstone, .token (s.current env) 1] := by
    simp [pushed, pushToken, start, events, same]
  have found : pushed.events[t.mark.position]? = some .tombstone := by
    rw [← Array.getElem?_toList, recorded]
    simp [mark, events]
  let closed : State :=
    { pushed with events := (pushed.events.setIfInBounds t.mark.position (.start .error none)).push .finish }
  have done : pushed.complete t.mark .error = .ok closed := by
    simp only [complete, found]
    rfl
  have skip : t.start.consumeAny env = pushed := if_neg more'
  refine ⟨closed, ?_, ?_, ?_, ?_, ⟨d, among, here⟩, (report_extends run).grows.diagnostics⟩
  · rw [reportAndSkip, run]
    exact (if_neg (by simp [same, more, going'])).trans (skip ▸ done)
  · exact (@position_pushToken env t.start more' (t.current env)).trans (congrArg (· + 1) still)
  · by_cases recovering : t.recovery = .recovering <;>
      simp [closed, pushed, pushToken, start, recovering, going']
  · simp only [closed, Array.toList_push, Array.toList_setIfInBounds, recorded]
    simp [mark, events, List.set_append_right]

end Parser.State

namespace Grammar

open LosslessJava.Parser.State

section Loops

variable (env : Env) (rules : (α : Type) → Nonterminal α → Rule α)

/-- What an element rule does in a state from which it may be called: it gives an answer, does not move back, keeps the
state coherent, and does not rename the nodes of others. -/
structure Serves (rule : Rule Unit) (s t : State) : Prop where
  ran : rule.exec env rules s = some (.ok ((), t))
  forward : s.position ≤ t.position
  coherent : t.Coherent env
  respects : s.Respects t

/-- A rule for an element, that may be called in any coherent state. -/
def IsElement (rule : Rule Unit) : Prop := ∀ s, s.Coherent env → ∃ t, Serves env rules rule s t

def elementRound (guard : Rule Bool) (rule : Rule Unit) (issue : Kind → Issue) : Rule Bool := do
  if ← guard then
    return false
  else
    skipUnmoved rule issue
    return true

/-- The states in which an element rule was called and came back. -/
structure Attempt where
  called : State
  back : State

/-- The attempts that bring a loop from one state to another. Where the rule comes back to where it was called, the token
there is skipped. -/
inductive Attempts (guard : Rule Bool) (rule : Rule Unit) (issue : Kind → Issue) : State → List Attempt → State → Prop
  | nil {s : State} : Attempts guard rule issue s [] s
  | moved {s t : State} {attempt : Attempt} {attempts : List Attempt}
      (seen : guard.exec env rules s = some (.ok (false, attempt.called)))
      (ran : rule.exec env rules attempt.called = some (.ok ((), attempt.back)))
      (away : attempt.back.position ≠ attempt.called.position) (rest : Attempts guard rule issue attempt.back attempts t) :
      Attempts guard rule issue s (attempt :: attempts) t
  | skipped {s t u : State} {attempt : Attempt} {attempts : List Attempt}
      (seen : guard.exec env rules s = some (.ok (false, attempt.called)))
      (ran : rule.exec env rules attempt.called = some (.ok ((), attempt.back)))
      (still : attempt.back.position = attempt.called.position)
      (forced : attempt.back.reportAndSkip env (issue (attempt.back.current env)) = .ok u)
      (rest : Attempts guard rule issue u attempts t) : Attempts guard rule issue s (attempt :: attempts) t

def Guards (guard : Rule Bool) (stops : Kind → Bool) : Prop :=
  ∀ s : State, ∃ expected, guard.exec env rules s = some (.ok (stops (s.current env), { s with expected }))

/-- How a loop over elements got on between two states: in no more rounds than there are tokens before the end of input,
to a token at which it stops, and so that each token no call of the rule took is told and in an error node by itself. -/
structure Progress (stops : Kind → Bool) (s : State) (attempts : List Attempt) (t : State) : Prop where
  few : attempts.length ≤ env.stream.size - 1 - s.position
  stopped : stops (t.current env) = true
  alone (index : Nat) (behind : s.position ≤ index) (before : index < t.position)
    (missed : ∀ attempt ∈ attempts, index < attempt.called.position ∨ attempt.back.position ≤ index) :
    ∃ attempt ∈ attempts, attempt.back.position = index ∧
      t.Lone attempt.back.events.size (env.stream.kindAt index) ∧ t.Reported index

end Loops

section Runs

variable {env : Env} {rules : (α : Type) → Nonterminal α → Rule α} {guard : Rule Bool} {rule : Rule Unit}
  {issue : Kind → Issue} {stops : Kind → Bool} {s t u : State}

private theorem listUntil_eq (closer : Kind) (rule : Rule Unit) :
    listUntil closer rule = loop (elementRound (sees closer <||> sees .eof) rule .unexpected) := rfl

private theorem fileRound_eq : fileRound = elementRound (sees .eof) topLevelItem (.expected "a declaration") := rfl

private theorem sees_guards (kind : Kind) : Guards env rules (sees kind) (· == kind) := fun s =>
  ⟨s.expected.union (.singleton kind), by
    rw [sees, Program.exec_bind, Parser.allow, Program.exec_act, Action.run, Program.andThen_ok, nthIs, nth,
      Parser.cursor, Program.exec_bind, Program.exec_bind, Program.exec_act, Action.run, Program.andThen_ok,
      Program.exec_return, Program.andThen_ok, Program.exec_return]
    rfl⟩

private theorem Guards.or {first second : Rule Bool} {one two : Kind → Bool} (guards : Guards env rules first one)
    (guards' : Guards env rules second two) :
    Guards env rules (first <||> second) fun kind => one kind || two kind := by
  intro s
  obtain ⟨expected, ran⟩ := guards s
  obtain ⟨expected', ran'⟩ := guards' { s with expected }
  dsimp only
  rw [orM, Program.exec_bind, ran, Program.andThen_ok]
  generalize one (s.current env) = found
  cases found with
  | true => exact ⟨expected, Program.exec_return _ _⟩
  | false => exact ⟨expected', ran'⟩

private theorem exec_loop (step : Rule Bool) (s : State) :
    (loop step).exec env rules s = Program.andThen (step.exec env rules s) fun more t =>
      if more then (loop step).exec env rules t else some (.ok ((), t)) := by
  rw [loop, loopFrom, Program.exec_loopFrom, stepTo, Program.exec_bind]
  rcases step.exec env rules s with _ | _ | ⟨more, t⟩
  · rfl
  · rfl
  · cases more <;> rw [Program.andThen_ok, Program.exec_return] <;> rfl

private theorem loop_stops (seen : guard.exec env rules s = some (.ok (true, t))) :
    (loop (elementRound guard rule issue)).exec env rules s = some (.ok ((), t)) := by
  rw [exec_loop, elementRound, Program.exec_bind, seen, Program.andThen_ok, if_pos rfl, Program.exec_return,
    Program.andThen_ok, if_neg (by simp)]

private theorem loop_moves (seen : guard.exec env rules s = some (.ok (false, t)))
    (ran : (skipUnmoved rule issue).exec env rules t = some (.ok ((), u))) :
    (loop (elementRound guard rule issue)).exec env rules s = (loop (elementRound guard rule issue)).exec env rules u := by
  rw [exec_loop, elementRound, Program.exec_bind, seen, Program.andThen_ok, if_neg (by simp), Program.exec_bind, ran,
    Program.andThen_ok, Program.exec_return, Program.andThen_ok, if_pos rfl]

private theorem exec_position (s : State) : (Parser.position : Rule Nat).exec env rules s = some (.ok (s.position, s)) := by
  rw [Parser.position, Parser.cursor, Program.exec_bind, Program.exec_act, Action.run, Program.andThen_ok,
    Program.exec_return, State.cursor]

private theorem exec_skipUnmoved {called back : State} (ran : rule.exec env rules called = some (.ok ((), back))) :
    (skipUnmoved rule issue).exec env rules called =
      if back.position = called.position then
        some (.done (back.reportAndSkip env (issue (back.current env))))
      else
        some (.ok ((), back)) := by
  have here : (Parser.current : Rule Kind).exec env rules back = some (.ok (back.current env, back)) := by
    rw [Parser.current, nth, Parser.cursor, Program.exec_bind, Program.exec_act, Action.run, Program.andThen_ok,
      Program.exec_return]
    rfl
  rw [skipUnmoved, Program.exec_bind, exec_position, Program.andThen_ok, Program.exec_bind, ran, Program.andThen_ok,
    Program.exec_bind, exec_position, Program.andThen_ok]
  split
  · rw [Program.exec_bind, here, Program.andThen_ok, Parser.reportAndSkip, Program.exec_act]
    rfl
  · rw [Program.exec_return]

private theorem Attempts.exec_eq {attempts : List Attempt} (led : Attempts env rules guard rule issue s attempts t) :
    (loop (elementRound guard rule issue)).exec env rules s = (loop (elementRound guard rule issue)).exec env rules t := by
  induction led with
  | nil => rfl
  | moved seen ran away rest ih =>
    refine (loop_moves seen ?_).trans ih
    rw [exec_skipUnmoved ran, if_neg away]
  | skipped seen ran still forced rest ih =>
    refine (loop_moves seen ?_).trans ih
    rw [exec_skipUnmoved ran, if_pos still, forced]
    rfl

structure Keeping (env : Env) (rules : (α : Type) → Nonterminal α → Rule α) (rule : Rule Unit) (Holds : State → Prop) :
    Prop where
  coherent {s : State} (holds : Holds s) : s.Coherent env
  looked {s : State} (expected : KindSet) (holds : Holds s) : Holds { s with expected }
  served {s t : State} (holds : Holds s) (ran : rule.exec env rules s = some (.ok ((), t))) :
    Holds t ∧ s.position ≤ t.position ∧ s.Respects t
  forced {s t : State} {issue : Issue} (holds : Holds s) (more : s.current env ≠ .eof)
    (run : s.reportAndSkip env issue = .ok t) : Holds t

structure Advances (env : Env) (rules : (α : Type) → Nonterminal α → Rule α) (guard : Rule Bool) (rule : Rule Unit)
    (issue : Kind → Issue) (s : State) (attempt : Attempt) (t : State) : Prop where
  led : ∀ {attempts u}, Attempts env rules guard rule issue t attempts u → Attempts env rules guard rule issue s (attempt :: attempts) u
  called : attempt.called.position = s.position
  forward : s.position < t.position
  respects : s.Respects t
  retains : s.Retains t
  took : attempt.back.position = t.position ∨ attempt.back.position = s.position ∧ t.position = s.position + 1 ∧
    t.Lone attempt.back.events.size (env.stream.kindAt s.position) ∧ t.Reported s.position

private theorem kindAt_eq_current (s : State) : env.stream.kindAt s.position = s.current env := by
  rw [State.current, TokenCursor.current, TokenCursor.nth_eq, Nat.add_zero]
  rfl

private theorem Keeping.advances {Holds : State → Prop} (kept : Keeping env rules rule Holds) (lenient : env.options.mode = .lenient)
    {attempt : Attempt} (holds : Holds attempt.called) (more : s.current env ≠ .eof)
    (called : ∃ expected, attempt.called = { s with expected })
    (seen : guard.exec env rules s = some (.ok (false, attempt.called)))
    (ran : rule.exec env rules attempt.called = some (.ok ((), attempt.back))) :
    ∃ t, Holds t ∧ Advances env rules guard rule issue s attempt t := by
  obtain ⟨expected, same⟩ := called
  obtain ⟨holds', forward, respects⟩ := kept.served holds ran
  have retains := Program.retains_of_exec ran
  have start : attempt.called.position = s.position := by rw [same]
  have respects : s.Respects attempt.back := by simpa only [same, State.Respects] using respects
  have retains : s.Retains attempt.back := by
    rw [same] at retains
    exact ⟨retains.events, retains.told⟩
  by_cases still : attempt.back.position = attempt.called.position
  · have here : attempt.back.current env = s.current env := by simp [State.current, State.cursor, still, start]
    have going : attempt.back.recovery ≠ .abandoned := fun abandoned => more (here ▸ kept.coherent holds' abandoned)
    obtain ⟨t, forced, moved, going', recorded, reported, told⟩ :=
      reportAndSkip_lone lenient going (here ▸ more) (issue (attempt.back.current env))
    refine ⟨t, kept.forced holds' (here ▸ more) forced, fun rest => .skipped seen ran still forced rest, start, by omega,
      respects.trans (respects_of_append recorded), retains.trans (retains_of_append recorded told),
      .inr ⟨by omega, by omega, ?_, by rwa [still, start] at reported⟩⟩
    have stretch (n : Nat) : t.events[attempt.back.events.size + n]? =
        [Event.start .error none, .token (attempt.back.current env) 1, .finish][n]? := by
      rw [← Array.getElem?_toList, recorded, List.getElem?_append_right (by simp)]
      simp
    exact ⟨⟨none, stretch 0⟩, by rw [stretch 1, kindAt_eq_current, here]; rfl, stretch 2⟩
  · exact ⟨attempt.back, holds', fun rest => .moved seen ran still rest, start, by omega, respects, retains, .inl rfl⟩

/-- From wherever a loop over elements starts, it gets on to a token at which it stops, or the rule is called where it
gives no answer. -/
theorem Keeping.progress {Holds : State → Prop} (kept : Keeping env rules rule Holds) (lenient : env.options.mode = .lenient)
    (guards : Guards env rules guard stops) (eof : stops .eof = true) (issue : Kind → Issue) (s : State)
    (holds : Holds s) :
    (∃ attempts u t, Attempts env rules guard rule issue s attempts u ∧ guard.exec env rules u = some (.ok (true, t)) ∧
      Progress env stops s attempts t ∧ s.Respects t ∧ s.Retains t) ∨
    ∃ attempts u called, Attempts env rules guard rule issue s attempts u ∧ guard.exec env rules u = some (.ok (false, called)) ∧
      Holds called ∧ ∀ t, rule.exec env rules called ≠ some (.ok ((), t)) := by
  induction left : env.stream.size - s.position using Nat.strongRecOn generalizing s with
  | ind left ih =>
    obtain ⟨expected, seen⟩ := guards s
    cases found : stops (s.current env) with
    | true =>
      rw [found] at seen
      refine .inl ⟨[], s, _, .nil, seen, ⟨Nat.zero_le _, found, fun index behind before => ?_⟩, ?_, ?_⟩
      · exact absurd before (Nat.not_lt.mpr behind)
      · exact fun place kind pointer _ here => ⟨pointer, here⟩
      · exact ⟨fun _ _ _ here => here, List.prefix_refl _⟩
    | false =>
      rw [found] at seen
      have more : s.current env ≠ .eof := by
        intro ended
        rw [ended, eof] at found
        cases found
      have bound := State.position_succ_lt more
      have holds' := kept.looked expected holds
      by_cases answers : ∃ t, rule.exec env rules { s with expected } = some (.ok ((), t))
      · obtain ⟨back, ran⟩ := answers
        let attempt : Attempt := ⟨{ s with expected }, back⟩
        obtain ⟨t, holds', round⟩ : ∃ t, Holds t ∧ Advances env rules guard rule issue s attempt t :=
          kept.advances lenient holds' more ⟨expected, rfl⟩ seen ran
        have forward := round.forward
        rcases ih _ (by omega) t holds' rfl with
          ⟨attempts, u, v, led, stopped, progress, respects, retains⟩ | ⟨attempts, u, called, led, seen, holds, silent⟩
        · refine .inl ⟨_, u, v, round.led led, stopped, ⟨?_, progress.stopped, ?_⟩, round.respects.trans respects,
            round.retains.trans retains⟩
          · have few := progress.few
            simp only [List.length_cons]
            omega
          · intro index behind before missed
            rcases Nat.lt_or_ge index t.position with early | late
            · have first := missed _ List.mem_cons_self
              rcases round.took with moved | ⟨still, stepped, lone, reported⟩
              · have start := round.called
                exact absurd first (by omega)
              · obtain rfl : index = s.position := by omega
                exact ⟨_, List.mem_cons_self, still, lone.later respects retains, reported.later retains⟩
            · obtain ⟨attempt, among, held⟩ := progress.alone index late before fun attempt among =>
                missed attempt (List.mem_cons_of_mem _ among)
              exact ⟨attempt, List.mem_cons_of_mem _ among, held⟩
        · exact .inr ⟨_, u, called, round.led led, seen, holds, silent⟩
      · exact .inr ⟨[], s, _, .nil, seen, holds', fun t ran => answers ⟨t, ran⟩⟩

private theorem loop_silent {called : State} (seen : guard.exec env rules s = some (.ok (false, called)))
    (silent : ∀ t, rule.exec env rules called ≠ some (.ok ((), t))) (t : State) :
    (loop (elementRound guard rule issue)).exec env rules s ≠ some (.ok ((), t)) := by
  rw [exec_loop, elementRound, Program.exec_bind, seen, Program.andThen_ok, if_neg (by simp), Program.exec_bind,
    skipUnmoved, Program.exec_bind, exec_position, Program.andThen_ok, Program.exec_bind]
  rcases found : rule.exec env rules called with _ | halt | ⟨_, back⟩
  · simp
  · simp
  · exact absurd found (silent back)

private theorem kept_of_isElement (lenient : env.options.mode = .lenient) (element : IsElement env rules rule) :
    Keeping env rules rule (State.Coherent env) where
  coherent holds := holds
  looked _ holds := holds
  served {s t} holds ran := by
    obtain ⟨u, serves⟩ := element s holds
    cases serves.ran.symm.trans ran
    exact ⟨serves.coherent, serves.forward, serves.respects⟩
  forced {s t issue} holds more run := by
    have going : s.recovery ≠ .abandoned := fun abandoned => more (holds abandoned)
    obtain ⟨u, forced, -, going', -⟩ := reportAndSkip_lone lenient going more issue
    cases forced.symm.trans run
    exact fun abandoned => absurd abandoned going'

private theorem kept_of_steady {rank : Nat} (regular : env.stream.Regular) (small : rank ≤ 4)
    (steady : Steady (Scope.root regular) rank rule) : Keeping env Grammar.rule rule (State.Good env) where
  coherent good := good.ended
  looked _ good := ⟨good.inside, good.ended, good.strict⟩
  served {s t} good ran := by
    have room : (Scope.root regular).Room rank s.position := by
      simp only [Scope.Room, Scope.root]
      omega
    cases steady s.position room s good rfl with
    | gives ran' given =>
      cases ran'.exec_eq.symm.trans ran
      obtain ⟨more, recorded, -⟩ := given.1.events
      exact ⟨given.1.good, given.1.position_le, respects_of_append recorded⟩
    | halts ran' => cases ran'.exec_eq.symm.trans ran
    | sticks cause => cases ran.symm.trans (exec_eq_none_of_sticks cause)
  forced {s t issue} good _ run := by
    obtain ⟨u, skipped, after, -⟩ := State.reportAndSkip_ok regular good issue
    cases skipped.symm.trans run
    exact after.good

private theorem accept_isElement {kind : Kind} (proper : kind ≠ .eof) :
    IsElement env rules (Functor.discard (accept kind)) := by
  intro s coherent
  obtain ⟨expected, seen⟩ := @sees_guards env rules kind s
  by_cases here : s.current env = kind
  · have more : s.current env ≠ .eof := here ▸ proper
    let looked : State := { s with expected }
    have run : (Action.consume kind).run env looked = .ok ((), looked.pushToken env kind 1) :=
      State.run_consume.mpr (if_pos here)
    have recorded : (looked.pushToken env kind 1).events.toList = s.events.toList ++ [.token kind 1] := by
      simp [looked, State.pushToken]
    have moved : (looked.pushToken env kind 1).position = s.position + 1 := @State.position_pushToken env looked more kind
    refine ⟨looked.pushToken env kind 1, ?_, by omega, ?_, respects_of_append recorded⟩
    · have answer : (s.current env == kind) = true := beq_iff_eq.mpr here
      rw [Program.exec_discard, accept, Program.exec_bind, seen, Program.andThen_ok, if_pos answer, Program.exec_bind,
        Parser.consume, Program.exec_act, run, Program.andThen_ok, Program.exec_return, Program.andThen_ok]
    · intro abandoned
      refine absurd (coherent ?_) more
      by_contra going
      by_cases recovering : s.recovery = .recovering <;> simp [looked, State.pushToken, recovering, going] at abandoned
  · refine ⟨{ s with expected }, ?_, Nat.le_refl _, coherent, fun place kind pointer _ given => ⟨pointer, given⟩⟩
    have answer : ¬(s.current env == kind) = true := fun same => here (beq_iff_eq.mp same)
    rw [Program.exec_discard, accept, Program.exec_bind, seen, Program.andThen_ok, if_neg answer, Program.exec_return,
      Program.andThen_ok]

/-- Wherever the loop over the items of a file calls the rule for one, that rule returns. -/
def ItemsReturn (env : Env) (s : State) : Prop :=
  ∀ attempts u called, Attempts env Grammar.rule (sees .eof) topLevelItem (.expected "a declaration") s attempts u →
    (sees .eof : Rule Bool).exec env Grammar.rule u = some (.ok (false, called)) →
      ∃ t, topLevelItem.exec env Grammar.rule called = some (.ok ((), t))

/-- Loops over elements get on. The elements up to a closing token are read in no more rounds than there are tokens
left, up to that token or the end of input, whatever the rule for them does as long as it answers. So are the items of a
file if the rule for an item returns wherever it is called, and otherwise the loop over them does not return. -/
theorem loops_get_on (lenient : env.options.mode = .lenient) :
    (∀ (rules : (α : Type) → Nonterminal α → Rule α) (closer : Kind) (rule : Rule Unit) (s : State),
      IsElement env rules rule → s.Coherent env →
        ∃ attempts u t, Attempts env rules (sees closer <||> sees .eof) rule .unexpected s attempts u ∧
          (sees closer <||> sees .eof : Rule Bool).exec env rules u = some (.ok (true, t)) ∧
          (listUntil closer rule).exec env rules s = some (.ok ((), t)) ∧
          Progress env (fun kind => kind == closer || kind == .eof) s attempts t) ∧
    (env.stream.Regular → ∀ s : State, s.Good env →
      (ItemsReturn env s →
        ∃ attempts u t, Attempts env Grammar.rule (sees .eof) topLevelItem (.expected "a declaration") s attempts u ∧
          (sees .eof : Rule Bool).exec env Grammar.rule u = some (.ok (true, t)) ∧
          Progress env (· == .eof) s attempts t ∧
          (do loop fileRound; consume .eof : Rule Unit).exec env Grammar.rule s =
            some (.ok ((), t.pushToken env .eof 1))) ∧
      (¬ItemsReturn env s → ∀ t, (loop fileRound).exec env Grammar.rule s ≠ some (.ok ((), t)))) := by
  constructor
  · intro rules closer rule s element coherent
    have guards : Guards env rules (sees closer <||> sees .eof) fun kind => kind == closer || kind == .eof :=
      (sees_guards closer).or (sees_guards .eof)
    rcases (kept_of_isElement lenient element).progress lenient guards (by simp) .unexpected s coherent with
      ⟨attempts, u, t, led, stopped, progress, -⟩ | ⟨_, _, called, -, -, coherent, silent⟩
    · exact ⟨attempts, u, t, led, stopped, by rw [listUntil_eq, led.exec_eq, loop_stops stopped], progress⟩
    · obtain ⟨t, serves⟩ := element called coherent
      exact absurd serves.ran (silent t)
  · intro regular s good
    refine ⟨fun items => ?_, fun fails t => ?_⟩
    · have kept := kept_of_steady regular (by decide) (@topLevelItem_steady (Scope.root regular))
      rcases kept.progress lenient (sees_guards .eof) rfl (.expected "a declaration") s good with
        ⟨attempts, u, t, led, stopped, progress, -⟩ | ⟨attempts, u, called, led, seen, -, silent⟩
      · refine ⟨attempts, u, t, led, stopped, progress, ?_⟩
        have ended : t.current env = .eof := by simpa using progress.stopped
        have ran : (loop fileRound).exec env Grammar.rule s = some (.ok ((), t)) := by
          rw [fileRound_eq, led.exec_eq, loop_stops stopped]
        rw [Program.exec_bind, ran, Program.andThen_ok, Parser.consume, Program.exec_act]
        exact congrArg some (State.run_consume.mpr (if_pos ended))
      · obtain ⟨t, ran⟩ := items attempts u called led seen
        exact absurd ran (silent t)
    · obtain ⟨attempts, u, called, led, seen, silent⟩ : ∃ attempts u called,
          Attempts env Grammar.rule (sees .eof) topLevelItem (.expected "a declaration") s attempts u ∧
            (sees .eof : Rule Bool).exec env Grammar.rule u = some (.ok (false, called)) ∧
              ∀ t, topLevelItem.exec env Grammar.rule called ≠ some (.ok ((), t)) := by
        simpa only [ItemsReturn, not_forall, not_exists, exists_prop] using fails
      rw [fileRound_eq, led.exec_eq]
      exact loop_silent seen silent t

theorem loops_get_on_skipping :
    (∃ attempts t, (listUntil .rightBrace (Functor.discard (accept .semicolon))).exec (textEnv ";)x\x7d" {}) Grammar.rule {} =
        some (.ok ((), t)) ∧
      Progress (textEnv ";)x\x7d" {}) (fun kind => kind == .rightBrace || kind == .eof) {} attempts t) ∧
    ItemsReturn (textEnv ");" {}) {} ∧ ∃ attempts t, Progress (textEnv ");" {}) (· == .eof) {} attempts t ∧
      (do loop fileRound; consume .eof : Rule Unit).exec (textEnv ");" {}) Grammar.rule {} =
        some (.ok ((), t.pushToken (textEnv ");" {}) .eof 1)) := by
  constructor
  · obtain ⟨attempts, -, t, -, -, ran, progress⟩ := (@loops_get_on (textEnv ";)x\x7d" {}) rfl).1 Grammar.rule .rightBrace
      (Functor.discard (accept .semicolon)) {} (accept_isElement (by decide)) nofun
    exact ⟨attempts, t, ran, progress⟩
  · have file := (@loops_get_on (textEnv ");" {}) rfl).2 (regular_lex _) {} ⟨TokenStream.size_pos _, nofun, nofun⟩
    have answers : ((loop fileRound).execWithin (textEnv ");" {}) Grammar.rule 60 {}).any (·.isOk) = true := by
      decide +kernel
    obtain ⟨halt | ⟨⟨⟩, last⟩, found, isOk⟩ := (Option.any_eq_true _ _).mp answers
    · cases isOk
    · have items : ItemsReturn (textEnv ");" {}) {} := by
        by_contra fails
        exact file.2 fails last (Program.exec_of_execWithin found)
      obtain ⟨attempts, -, t, -, -, progress, ran⟩ := file.1 items
      exact ⟨items, attempts, t, progress, ran⟩

end Runs

end Grammar

end LosslessJava
