import LosslessJava.Proofs.Abandonment
import LosslessJava.Proofs.PredictedRuns

/-! Runs whose way is known, with the diagnostics they leave. Where a rule reports something and then goes on as if
nothing had happened, its run can be followed all the same: nothing is told twice at one token, so a report is heard
if all others are of earlier tokens. -/

namespace LosslessJava

open LosslessJava.Parser

namespace Parser

section Going

variable {env : Env} {s t u : State}

namespace State

def Endures (s t : State) : Prop := s.recovery ≠ .abandoned → t.errorCount = s.errorCount → t.recovery ≠ .abandoned

theorem Endures.refl : Endures s s := fun going _ => going

private theorem Endures.trans (first : Endures s t) (second : Endures t u) (early : s.Extends t) (late : t.Extends u) :
    Endures s u := by
  intro going quiet
  have one := early.grows.errorCount
  have two := late.grows.errorCount
  exact second (first going (by omega)) (by omega)

private theorem Endures.of_counted (counted : s.errorCount < t.errorCount) : Endures s t :=
  fun _ quiet => absurd quiet (by omega)

private theorem Endures.of_eq (same : t.recovery = s.recovery) : Endures s t := fun going _ => same ▸ going

private theorem pushToken_endures (kind : Kind) (count : Nat) : Endures s (s.pushToken env kind count) :=
  fun going _ => pushToken_going going kind count

private theorem reportAndSkip_counts {issue : Issue} (run : s.reportAndSkip env issue = .ok u) : s.errorCount < u.errorCount := by
  obtain ⟨t, told, rest⟩ := reportAndSkip_from run
  have counted := report_counts told
  rcases rest with ⟨-, rfl⟩ | calm
  · exact counted
  · rw [calm.errorCount]
    exact counted

private theorem recover_endures {recovery : KindSet} (run : s.recover env recovery = .ok u) : Endures s u := by
  rcases recover_from run with rfl | ⟨-, t, quiet, normal, settled⟩
  · exact .refl
  · rcases settleAt_from settled with rfl | ⟨v, told, rfl⟩
    · exact fun _ _ => by rw [normal]; decide
    · refine .of_counted ?_
      have counted := report_counts told
      have same := quiet.errorCount
      show s.errorCount < v.errorCount
      omega

private theorem abandonNested_endures (run : s.abandonNested env = .ok u) : Endures s u := by
  rcases abandonNested_from run with ⟨rfl, -⟩ | ⟨t, issue, told, quiet, -⟩
  · exact .refl
  · refine .of_counted ?_
    rw [quiet.errorCount]
    exact report_counts told

end State

private theorem Action.run_endures {α : Type} {action : Action α} {a : α} (run : action.run env s = .ok (a, t)) : s.Endures t := by
  cases action with
  | cursor | noLambda | lookaheadLimit | allow | start =>
    cases run
    exact .of_eq rfl
  | join kind count =>
    cases run
    exact State.pushToken_endures _ _
  | consumeAny =>
    cases run
    exact fun going _ => State.consumeAny_going going
  | consume kind =>
    have consumed := Result.of_done run
    unfold State.consume at consumed
    split at consumed
    · cases consumed
      exact State.pushToken_endures _ _
    · cases consumed
  | consumeAs keyword =>
    have consumed := Result.of_done run
    unfold State.consumeAs at consumed
    split at consumed
    · cases consumed
      exact State.pushToken_endures _ _
    · cases consumed
  | release mark => exact .of_eq (State.release_recovery (Result.of_done run))
  | report issue => exact .of_counted (State.report_counts (Result.of_done run))
  | reportAndSkip issue => exact .of_counted (State.reportAndSkip_counts (Result.of_done run))
  | recover recovery => exact State.recover_endures (Result.of_done run)
  | complete mark kind =>
    obtain ⟨u, closed, same⟩ := map_eq_ok.mp run
    cases same
    exact .of_eq (State.complete_recovery closed)
  | precede first =>
    obtain ⟨u, preceded, same⟩ := map_eq_ok.mp run
    cases same
    exact .of_eq (State.precede_still preceded).2.1

private theorem Program.Evaluates.endures {N : Type → Type} {rules : (α : Type) → N α → Program N α} {α : Type}
    {rule : Program N α} {r : Result α} {a : α} (run : Evaluates env rules rule s r) (given : r = .ok (a, t)) :
    s.Endures t := by
  induction run generalizing t with
  | pure =>
    cases given
    exact .refl
  | act => exact Action.run_endures given
  | bind one two first second => exact (first rfl).trans (second given) (one.extends rfl) (two.extends given)
  | bindHalt => cases given
  | loopEnd _ round =>
    cases given
    exact round rfl
  | loopNext one two round rest => exact (round rfl).trans (rest given) (one.extends rfl) (two.extends given)
  | loopHalt => cases given
  | tooDeep deep =>
    obtain ⟨u, abandoned, same⟩ := map_eq_ok.mp given
    cases same
    exact State.abandonNested_endures abandoned
  | nested room _ inner =>
    obtain ⟨⟨b, u⟩, rfl, same⟩ := map_eq_ok.mp given
    cases same
    have inside := inner rfl
    exact inside
  | withNoLambda _ inner =>
    obtain ⟨⟨b, u⟩, rfl, same⟩ := map_eq_ok.mp given
    cases same
    have inside := inner rfl
    exact inside
  | speculate _ inner =>
    obtain ⟨⟨b, u⟩, rfl, same⟩ := map_eq_ok.mp given
    change settle _ b u = (a, t) at same
    unfold settle at same
    split at same
    · cases same
      exact inner rfl
    · cases same
      exact .refl
  | call _ body => exact body given

end Going

namespace State

open Event

/-- From one state to another, a row of shapes was recorded for the tokens between them, diagnostics were told, and the
parse was not given up. -/
structure Noted (s : State) (row : List Shape) (told : List Diagnostic) (t : State) : Prop where
  told : t.diagnostics.toList = s.diagnostics.toList ++ told
  going : t.recovery ≠ .abandoned
  depth : t.depth = s.depth
  noLambda : t.noLambda = s.noLambda
  events : ∃ more, t.events.toList = s.events.toList ++ more ∧ Emits more (Shape.stepsAll row)
  position : t.position = s.position + ((Shape.tokensAll row).map Prod.snd).sum

structure Hears (s : State) : Prop where
  going : s.recovery ≠ .abandoned
  earlier : ∀ d ∈ s.diagnostics.toList, d.tokenIndex < s.position

variable {env : Env} {s t u : State} {row front back : List Shape} {told early late : List Diagnostic} {kind : Kind}

namespace Noted

private theorem refl (going : s.recovery ≠ .abandoned) : Noted s [] [] s :=
  ⟨by simp, going, rfl, rfl, ⟨[], by simp, .nil⟩, rfl⟩

theorem trans (one : Noted s front early t) (two : Noted t back late u) :
    Noted s (front ++ back) (early ++ late) u where
  told := by rw [two.told, one.told, List.append_assoc]
  going := two.going
  depth := two.depth.trans one.depth
  noLambda := two.noLambda.trans one.noLambda
  events := by
    obtain ⟨more, recorded, emits⟩ := one.events
    obtain ⟨more', recorded', emits'⟩ := two.events
    refine ⟨more ++ more', by rw [recorded', recorded, List.append_assoc], ?_⟩
    rw [Shape.stepsAll_append]
    exact emits.append emits'
  position := by
    rw [two.position, one.position, Shape.tokensAll_append, List.map_append, List.sum_append]
    omega

private theorem of_wrote (wrote : Wrote s row t) (going : t.recovery ≠ .abandoned) : Noted s row [] t :=
  ⟨by rw [wrote.diagnostics, List.append_nil], going, wrote.depth, wrote.noLambda, wrote.events, wrote.position⟩

private theorem position_le (noted : Noted s row told t) : s.position ≤ t.position := by
  rw [noted.position]
  exact Nat.le_add_right _ _

/-- Where all that was told is of earlier tokens, the next error is heard. -/
theorem hears (noted : Noted s row told t) (hears : Hears s) (behind : ∀ d ∈ told, d.tokenIndex < t.position) : Hears t where
  going := noted.going
  earlier d member := by
    rw [noted.told] at member
    rcases List.mem_append.mp member with old | new
    · exact Nat.lt_of_lt_of_le (hears.earlier d old) noted.position_le
    · exact behind d new

end Noted

private theorem complete_noted (inner : s.start.Noted row told t) (named : kind ≠ .tombstone) :
    ∃ u, t.complete s.mark kind = .ok u ∧ u.position = t.position ∧ s.Noted [.node kind row] told u := by
  obtain ⟨body, recorded, emits⟩ := inner.events
  obtain ⟨events, more, completed, stretch, chain⟩ := complete_chain recorded emits named
  refine ⟨_, completed, rfl, inner.told, inner.going, inner.depth, inner.noLambda,
    ⟨more, stretch, by simpa [Shape.stepsAll] using chain.emits⟩, ?_⟩
  simpa [Shape.tokensAll, Shape.tokens, start] using inner.position

/-- An error that is heard is told, and the parse goes on where it stands. -/
theorem Hears.report (hears : Hears s) (lenient : env.options.mode = .lenient) (issue : Issue) :
    ∃ t, s.report env issue = .ok t ∧ t.position = s.position ∧ s.Noted [] [s.diagnose env issue] t := by
  have untold : s.count.isTold = false := by
    have going : (s.recovery == .abandoned) = false := beq_false_of_ne hears.going
    have elsewhere : s.diagnostics.back?.map Diagnostic.tokenIndex ≠ some s.position := by
      intro here
      obtain ⟨d, last, same⟩ := Option.map_eq_some_iff.mp here
      have member : d ∈ s.diagnostics.toList := by
        rw [← Array.getLast?_toList] at last
        exact List.mem_of_getLast? last
      exact absurd same (Nat.ne_of_lt (hears.earlier d member))
    simp only [isTold, count, going, Bool.false_or, Bool.and_eq_false_iff]
    exact .inr (beq_false_of_ne elsewhere)
  refine ⟨s.count.tell env issue, ?_, rfl, ?_⟩
  · simp [State.report, untold, lenient]
  · exact ⟨by simp [tell, count, diagnose]; rfl, by simp [tell], rfl, rfl, ⟨[], by simp [tell, count], .nil⟩, rfl⟩

end State

end Parser

namespace Grammar

variable {env : Env} {α β : Type}

def Notes (env : Env) {α : Type} (rule : Rule α) (s : State) (post : α → List Shape → List Diagnostic → State → Prop) : Prop :=
  ∃ a t, rule.exec env Grammar.rule s = some (.ok (a, t)) ∧ ∃ row told, s.Noted row told t ∧ post a row told t

/-- A rule can be followed from an index on, where it runs so deep and an error would be heard, with what it tells. -/
def Remarks (env : Env) (depth : Nat) (i : Nat) {α : Type} (rule : Rule α)
    (post : α → List Shape → List Diagnostic → Nat → Prop) : Prop :=
  ∀ s : State, s.position = i → s.depth = depth → s.Hears → Notes env rule s fun a row told t => post a row told t.position

namespace Notes

variable {s : State} {rule : Rule α} {next : α → Rule β} {post : α → List Shape → List Diagnostic → State → Prop}
  {after : β → List Shape → List Diagnostic → State → Prop}

theorem weaken {other : α → List Shape → List Diagnostic → State → Prop} (notes : Notes env rule s post)
    (implies : ∀ a row told t, s.Noted row told t → post a row told t → other a row told t) : Notes env rule s other := by
  obtain ⟨a, t, ran, row, told, noted, holds⟩ := notes
  exact ⟨a, t, ran, row, told, noted, implies a row told t noted holds⟩

theorem bind (first : Notes env rule s post)
    (rest : ∀ a front early t, s.Noted front early t → post a front early t →
      Notes env (next a) t fun b back late u => after b (front ++ back) (early ++ late) u) :
    Notes env (rule >>= next) s after := by
  obtain ⟨a, t, ran, front, early, noted, holds⟩ := first
  obtain ⟨b, u, ran', back, late, noted', given⟩ := rest a front early t noted holds
  exact ⟨b, u, by rw [Program.exec_bind, ran, Program.andThen_ok, ran'], _, _, noted.trans noted', given⟩

theorem pure {a : α} (going : s.recovery ≠ .abandoned) (holds : post a [] [] s) : Notes env (Pure.pure a) s post :=
  ⟨a, s, Program.exec_return _ _, [], [], .refl going, holds⟩

theorem of_delivers {own : α → List Shape → State → Prop} (going : s.recovery ≠ .abandoned)
    (delivers : Delivers env s rule s own) : Notes env rule s fun a row told t => told = [] ∧ own a row t := by
  obtain ⟨a, t, ran, row, wrote, holds⟩ := delivers
  obtain ⟨r, run, same⟩ : ∃ r, Program.Evaluates env Grammar.rule rule s r ∧ r = .ok (a, t) :=
    ⟨_, Program.evaluates_of_exec ran, rfl⟩
  exact ⟨a, t, ran, row, [], .of_wrote wrote (run.endures same going wrote.errorCount), rfl, holds⟩

end Notes

structure Concerns (env : Env) (d : Diagnostic) (issue : Issue) (i : Nat) : Prop where
  kind : d.kind = issue.kind
  message : d.message = issue.message
  tokenIndex : d.tokenIndex = i
  range : d.range = (env.stream.tokenAt i).range

namespace Remarks

variable {depth i : Nat} {level : Level} {rule : Rule α} {next : α → Rule β}
  {post : α → List Shape → List Diagnostic → Nat → Prop} {after : β → List Shape → List Diagnostic → Nat → Prop}

theorem weaken {other : α → List Shape → List Diagnostic → Nat → Prop} (remarks : Remarks env depth i rule post)
    (implies : ∀ a row told j, post a row told j → other a row told j) : Remarks env depth i rule other :=
  fun s here deep hears => (remarks s here deep hears).weaken fun a row told t _ holds => implies a row told t.position holds

/-- A rule that can be followed reports nothing. -/
theorem of_follows {own : α → List Shape → Nat → Prop} (follows : Follows env ⟨depth, false⟩ i rule own) :
    Remarks env depth i rule fun a row told j => told = [] ∧ own a row j :=
  fun s here deep hears => .of_delivers hears.going (follows s here ⟨deep, by simp⟩)

theorem pure {a : α} (holds : post a [] [] i) : Remarks env depth i (Pure.pure a) post :=
  fun _ here _ hears => .pure hears.going (here ▸ holds)

/-- What two rules tell is told in order, if all that the first one tells is of tokens before the second one. -/
theorem bind {middle : α → List Shape → List Diagnostic → Nat → Prop} (first : Remarks env depth i rule middle)
    (rest : ∀ a front early j, middle a front early j → (∀ d ∈ early, d.tokenIndex < j) ∧
      Remarks env depth j (next a) fun b back late k => after b (front ++ back) (early ++ late) k) :
    Remarks env depth i (rule >>= next) after := fun s here deep hears =>
  .bind (first s here deep hears) fun a front early t noted holds => by
    obtain ⟨behind, rest⟩ := rest a front early t.position holds
    exact rest t rfl (noted.depth.trans deep) (noted.hears hears behind)

theorem andQuiet {middle : α → List Shape → List Diagnostic → Nat → Prop} (first : Remarks env depth i rule middle)
    (rest : ∀ a front early j, middle a front early j →
      Follows env ⟨depth, false⟩ j (next a) fun b back k => after b (front ++ back) early k) :
    Remarks env depth i (rule >>= next) after := fun s here deep hears =>
  .bind (first s here deep hears) fun a front early t noted holds => by
    have follows := rest a front early t.position holds t rfl ⟨noted.depth.trans deep, by simp⟩
    refine (Notes.of_delivers noted.going follows).weaken fun b back late u _ given => ?_
    obtain ⟨rfl, holds⟩ := given
    rwa [List.append_nil]

theorem behindQuiet {middle : α → List Shape → Nat → Prop} (first : Follows env ⟨depth, false⟩ i rule middle)
    (rest : ∀ a front j, middle a front j →
      Remarks env depth j (next a) fun b back late k => after b (front ++ back) late k) :
    Remarks env depth i (rule >>= next) after :=
  (of_follows first).bind fun a front early j given => by
    obtain ⟨rfl, holds⟩ := given
    exact ⟨by simp, rest a front j holds⟩

theorem discard {told : List Shape → List Diagnostic → Nat → Prop} (remarks : Remarks env depth i rule fun _ => told) :
    Remarks env depth i (Functor.discard rule) fun _ => told :=
  fun s here deep hears => .bind (remarks s here deep hears) fun _ _ _ _ noted holds => .pure noted.going (by simpa using holds)

private theorem hears_tried {s t : State} (hears : s.Hears) (tried : Tried s t) : t.Hears ∧ s.Noted [] [] t := by
  have same : t = { s with expected := t.expected } := tried
  rw [same]
  exact ⟨⟨hears.going, hears.earlier⟩, ⟨by simp, hears.going, rfl, rfl, ⟨[], by simp, .nil⟩, rfl⟩⟩

theorem look {answer : TokenCursor → α} [views : Views env rule answer]
    (rest : Remarks env depth i (next (answer ⟨env.stream, i⟩)) after) : Remarks env depth i (rule >>= next) after := by
  intro s here deep hears
  obtain ⟨t, ran, tried⟩ := views.views s
  obtain ⟨hears', noted⟩ := hears_tried hears tried
  have cursor : s.cursor env = ⟨env.stream, i⟩ := by rw [State.cursor, here]
  rw [cursor] at ran
  obtain ⟨b, u, ran', row, told, noted', holds⟩ := rest t (tried.position.trans here) (noted.depth.trans deep) hears'
  refine ⟨b, u, by rw [Program.exec_bind, ran, Program.andThen_ok, ran'], row, told, ?_, holds⟩
  simpa using noted.trans noted'

theorem call {name : Nonterminal α} (body : Remarks env depth i (Grammar.rule α name) post) :
    Remarks env depth i (Parser.call name) post := fun s here deep hears => by
  obtain ⟨a, t, ran, given⟩ := body s here deep hears
  exact ⟨a, t, (Program.exec_call _ _).trans ran, given⟩

theorem nested {otherwise : α} (room : depth < env.options.maxDepth) (inner : Remarks env (depth + 1) i rule post) :
    Remarks env depth i (Parser.nested otherwise rule) post := fun s here deep hears => by
  obtain ⟨a, t, ran, row, told, noted, holds⟩ := inner s.enter here (congrArg (· + 1) deep) ⟨hears.going, hears.earlier⟩
  refine ⟨a, t.leave, ?_, row, told, ?_, holds⟩
  · refine (Program.exec_nested_of_lt (deep ▸ room) _ _).trans ?_
    rw [ran]
    rfl
  · have depth : t.depth = s.depth + 1 := noted.depth
    exact ⟨noted.told, noted.going, by simp only [State.leave]; omega, noted.noLambda, noted.events, noted.position⟩

theorem report (lenient : env.options.mode = .lenient) (issue : Issue) :
    Remarks env depth i (Parser.report issue) fun _ row told j =>
      row = [] ∧ j = i ∧ ∃ d, told = [d] ∧ Concerns env d issue i := by
  intro s here _ hears
  obtain ⟨t, reported, still, noted⟩ := hears.report lenient issue
  refine ⟨(), t, ?_, [], _, noted, rfl, still.trans here, _, rfl, rfl, rfl, here, ?_⟩
  · rw [Parser.report, Program.exec_act]
    simp only [Action.run, reported]
    rfl
  · show (TokenStream.tokenAt _ (min _ _)).range = _
    simp only [State.cursor, here]
    exact congrArg Token.range (env.stream.tokenAt_min _)

section Nodes

variable {kind : Kind} {told : List Shape → List Diagnostic → Nat → Prop}

private theorem nodeOf {rule : Rule Kind} (inner : Remarks env depth i rule fun kind row told' j =>
      kind ≠ .tombstone ∧ told [.node kind row] told' j) :
    Remarks env depth i (Functor.discard (Parser.nodeOf rule)) fun _ => told := by
  refine .discard fun s here deep hears => ?_
  obtain ⟨kind, t, ran, row, early, noted, named, holds⟩ := inner s.start here deep ⟨hears.going, hears.earlier⟩
  obtain ⟨u, completed, still, whole⟩ := State.complete_noted noted named
  have holds : told [.node kind row] early u.position := still ▸ holds
  refine ⟨⟨s.mark.position, kind⟩, u, ?_, _, _, whole, holds⟩
  unfold Parser.nodeOf
  rw [Program.exec_bind, start, Program.exec_act]
  simp only [Action.run, Program.andThen_ok]
  rw [Program.exec_bind, ran, Program.andThen_ok, Mark.complete, Program.exec_act]
  simp only [Action.run, completed]
  rfl

theorem node {rule : Rule Unit} (named : kind ≠ .tombstone)
    (inner : Remarks env depth i rule fun _ row told' j => told [.node kind row] told' j) :
    Remarks env depth i (Functor.discard (Parser.node kind rule)) fun _ => told :=
  .nodeOf fun s here deep hears => .bind (inner s here deep hears) fun _ _ _ _ noted holds =>
    .pure noted.going ⟨named, by simpa using holds⟩

theorem nodeIf {rule : Rule (Option Kind)} (inner : Remarks env depth i rule fun found row told' j =>
      ∃ kind, found = some kind ∧ kind ≠ .tombstone ∧ told [.node kind row] told' j) :
    Remarks env depth i (Functor.discard (Parser.nodeIf rule)) fun _ => told := by
  refine .discard fun s here deep hears => ?_
  obtain ⟨_, t, ran, row, early, noted, kind, rfl, named, holds⟩ := inner s.start here deep ⟨hears.going, hears.earlier⟩
  obtain ⟨u, completed, still, whole⟩ := State.complete_noted noted named
  have holds : told [.node kind row] early u.position := still ▸ holds
  refine ⟨some ⟨s.mark.position, kind⟩, u, ?_, _, _, whole, holds⟩
  unfold Parser.nodeIf
  rw [Program.exec_bind, start, Program.exec_act]
  simp only [Action.run, Program.andThen_ok]
  rw [Program.exec_bind, ran, Program.andThen_ok]
  simp only [Program.exec_bind, Mark.complete, Program.exec_act, Action.run, completed]
  exact Program.exec_return _ _

end Nodes

theorem loopOn {a : α} {step : α → Rule (Option α)} {middle : α → List Shape → List Diagnostic → Nat → Prop}
    (round : Remarks env depth i (step a) fun found row told j => ∃ b, found = some b ∧ middle b row told j)
    (rest : ∀ b front early j, middle b front early j → (∀ d ∈ early, d.tokenIndex < j) ∧
      Remarks env depth j (Parser.loopFrom b step) fun c back late k => post c (front ++ back) (early ++ late) k) :
    Remarks env depth i (Parser.loopFrom a step) post := by
  intro s here deep hears
  obtain ⟨_, t, ran, front, early, noted, b, rfl, holds⟩ := round s here deep hears
  obtain ⟨behind, rest⟩ := rest b front early t.position holds
  obtain ⟨c, u, ran', back, late, noted', given⟩ := rest t rfl (noted.depth.trans deep) (noted.hears hears behind)
  exact ⟨c, u, (Program.exec_loopFrom _ _ _).trans (by rw [ran, Program.andThen_ok]; exact ran'), _, _, noted.trans noted', given⟩

theorem loopEnd {a : α} {step : α → Rule (Option α)}
    (round : Remarks env depth i (step a) fun found row told j => found = none ∧ post a row told j) :
    Remarks env depth i (Parser.loopFrom a step) post := by
  intro s here deep hears
  obtain ⟨_, t, ran, row, told, noted, rfl, holds⟩ := round s here deep hears
  exact ⟨a, t, (Program.exec_loopFrom _ _ _).trans (by rw [ran, Program.andThen_ok]), row, told, noted, holds⟩

theorem stepTo {a : α} {step : Rule Bool} {more : Bool} {told : List Shape → List Diagnostic → Nat → Prop}
    (round : Remarks env depth i step fun found row told' j => found = more ∧ told row told' j) :
    Remarks env depth i (Parser.stepTo a step) fun found row told' j =>
      found = (if more then some a else none) ∧ told row told' j :=
  fun s here deep hears => .bind (round s here deep hears) fun _ _ _ _ noted holds => by
    obtain ⟨rfl, holds⟩ := holds
    exact .pure noted.going ⟨rfl, by simpa using holds⟩

end Remarks

end Grammar

end LosslessJava
