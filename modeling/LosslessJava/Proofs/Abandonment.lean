import LosslessJava.Proofs.Invariants
import LosslessJava.Proofs.Lossless
import LosslessJava.Proofs.Traversal

/-! Parses that are given up. The diagnostic that says so is the last one, and there is one unless rules
were nested too deep at the very token at which another error had just been told: no more is said there,
and the parse ends without a word. -/

namespace LosslessJava

open LosslessJava.Parser

/-- Kinds of diagnostics with which a parse is given up. -/
@[reducible] def DiagnosticKind.isLast : DiagnosticKind → Bool
  | .nestingTooDeep | .abandoned => true
  | _ => false

private theorem Issue.kind_of_goesOn {issue : Issue} (given : issue.goesOn = true) : issue.kind.isLast = false := by
  cases issue <;> first | rfl | cases given

namespace Parser

namespace State

variable {env : Env} {s t u : State}

def Explained (s : State) : Prop := ∃ d, s.diagnostics.back? = some d ∧ d.kind.isLast = true

def Final (s : State) : Prop :=
  ∀ d ∈ s.diagnostics.toList, d.kind.isLast = true → s.recovery = .abandoned ∧ s.diagnostics.back? = some d

/-- An error was told at the current token, and none is told there any more. -/
def Told (s : State) : Prop :=
  s.recovery = .recovering ∧ s.diagnostics.back?.map Diagnostic.tokenIndex = some s.position

end State

/-- A run of a rule comes to a state in which rules are nested too deep. What is tried does not count:
it fails there and is taken back. -/
inductive Program.Trips {N : Type → Type} (env : Env) (rules : (α : Type) → N α → Program N α) (t : State) :
    {α : Type} → Program N α → State → Prop where
  | here {α : Type} {otherwise : α} {rule : Program N α} (deep : env.options.maxDepth ≤ t.depth) :
      Trips env rules t (.nested otherwise rule) t
  | first {α γ : Type} {rule : Program N γ} {next : γ → Program N α} {s} (trips : Trips env rules t rule s) :
      Trips env rules t (.bind rule next) s
  | next {α γ : Type} {rule : Program N γ} {next : γ → Program N α} {s u} {a : γ}
      (ran : rule.exec env rules s = some (.ok (a, u))) (trips : Trips env rules t (next a) u) :
      Trips env rules t (.bind rule next) s
  | round {α : Type} {a : α} {step : α → Program N (Option α)} {s} (trips : Trips env rules t (step a) s) :
      Trips env rules t (.loopFrom a step) s
  | later {α : Type} {a b : α} {step : α → Program N (Option α)} {s u}
      (ran : (step a).exec env rules s = some (.ok (some b, u)))
      (trips : Trips env rules t (.loopFrom b step) u) : Trips env rules t (.loopFrom a step) s
  | nested {α : Type} {otherwise : α} {rule : Program N α} {s} (room : s.depth < env.options.maxDepth)
      (trips : Trips env rules t rule s.enter) : Trips env rules t (.nested otherwise rule) s
  | withNoLambda {α : Type} {noLambda : Bool} {rule : Program N α} {s}
      (trips : Trips env rules t rule (s.withNoLambda noLambda)) :
      Trips env rules t (.withNoLambda noLambda rule) s
  | call {α : Type} {name : N α} {s} (trips : Trips env rules t (rules α name) s) :
      Trips env rules t (.call name) s

section Steps

namespace State

variable {env : Env} {s t u : State} {issue : Issue}

theorem Final.push {d : Diagnostic} (final : Final s) (told : t.diagnostics = s.diagnostics.push d)
    (going : s.recovery ≠ .abandoned) (last : d.kind.isLast = true → t.recovery = .abandoned) : Final t := by
  intro e member ends
  rw [told, Array.toList_push, List.mem_append, List.mem_singleton] at member
  rcases member with earlier | rfl
  · exact absurd (final e earlier ends).1 going
  · exact ⟨last ends, by simp [told]⟩

theorem Final.kept (final : Final s) (same : t.diagnostics = s.diagnostics)
    (kept : s.recovery = .abandoned → t.recovery = .abandoned) : Final t := by
  intro d member ends
  rw [same] at member ⊢
  exact (final d member ends).imp kept id

private theorem Final.calm (final : Final s) (calm : Calm s t) : Final t :=
  final.kept calm.diagnostics fun abandoned => (calm.silent abandoned).1

private theorem report_from (run : s.report env issue = .ok t) :
    t = s.count ∧ s.isTold = true ∨
      s.recovery ≠ .abandoned ∧ t.errorCount = s.errorCount + 1 ∧
        t.diagnostics = s.diagnostics.push (s.diagnose env issue) ∧
        (t.recovery = .recovering ∨ env.options.mode = .strict) := by
  unfold report at run
  dsimp only at run
  split at run
  · next told =>
    cases run
    exact .inl ⟨rfl, told⟩
  · next untold =>
    have going : s.recovery ≠ .abandoned := by
      intro abandoned
      simp [isTold, count, abandoned] at untold
    refine .inr ⟨going, ?_⟩
    split at run
    · next strict =>
      have quiet := (abandon_quiet run).1
      exact ⟨quiet.errorCount, quiet.diagnostics, .inr strict⟩
    · cases run
      exact ⟨rfl, rfl, .inl rfl⟩

private theorem report_final (final : Final s) (given : issue.goesOn = true) (run : s.report env issue = .ok t) :
    Final t := by
  rcases report_from run with ⟨rfl, -⟩ | ⟨going, -, told, -⟩
  · exact final
  · refine final.push told going fun last => ?_
    cases (Issue.kind_of_goesOn given).symm.trans last

private theorem report_final_of_abandoned (final : Final s) (run : s.report env issue = .ok t) (quiet : Quiet t u)
    (abandoned : u.recovery = .abandoned) : Final u := by
  rcases report_from run with ⟨rfl, -⟩ | ⟨going, -, told, -⟩
  · exact final.kept quiet.diagnostics fun _ => abandoned
  · exact final.push (quiet.diagnostics.trans told) going fun _ => abandoned

private theorem recover_final {recovery : KindSet} (final : Final s) (run : s.recover env recovery = .ok u) : Final u := by
  rcases recover_from run with rfl | ⟨going, t, quiet, -, settled⟩
  · exact final
  · have before : Final t := final.kept quiet.diagnostics fun abandoned => absurd abandoned going
    rcases settleAt_from settled with rfl | ⟨v, told, rfl⟩
    · exact before
    · exact report_final_of_abandoned before told ⟨rfl, rfl⟩ rfl

private theorem abandonNested_final (final : Final s) (run : s.abandonNested env = .ok u) : Final u := by
  rcases abandonNested_from run with ⟨rfl, -⟩ | ⟨t, issue, told, quiet, abandoned⟩
  · exact final
  · exact report_final_of_abandoned final told quiet abandoned

end State

open State

variable {env : Env} {s t u : State} {α : Type}

private theorem Action.run_final {action : Action α} {a : α} (given : action.goesOn = true) (final : s.Final)
    (run : action.run env s = .ok (a, t)) : t.Final := by
  cases action with
  | cursor | noLambda | lookaheadLimit | allow | start =>
    cases run
    exact final
  | join kind count =>
    cases run
    exact final.calm (pushToken_calm _ _)
  | consumeAny =>
    cases run
    exact final.calm consumeAny_calm
  | consume kind => exact final.calm (consume_calm (Result.of_done run))
  | consumeAs keyword => exact final.calm (consumeAs_calm (Result.of_done run))
  | release mark => exact final.calm (release_calm (Result.of_done run))
  | report issue => exact report_final final given (Result.of_done run)
  | reportAndSkip issue =>
    obtain ⟨u, told, ⟨-, rfl⟩ | calm⟩ := reportAndSkip_from (Result.of_done run)
    · exact report_final final given told
    · exact (report_final final given told).calm calm
  | recover recovery => exact recover_final final (Result.of_done run)
  | complete mark kind =>
    obtain ⟨u, closed, same⟩ := map_eq_ok.mp run
    cases same
    exact final.calm (complete_calm closed)
  | precede first =>
    obtain ⟨u, preceded, same⟩ := map_eq_ok.mp run
    cases same
    exact final.calm (precede_calm preceded)

private theorem final_invariant (env : Env) : Invariant env (fun action => action.goesOn = true) State.Final where
  act given before run := Action.run_final given before run
  tooDeep before run := abandonNested_final before run
  depth _ before := before
  noLambda _ before := before

def State.Explains (s t : State) : Prop :=
  s.recovery ≠ .abandoned → t.recovery = .abandoned → s.errorCount < t.errorCount ∧ t.Explained

namespace State

private theorem Explains.of_eq (same : t.recovery = s.recovery) : Explains s t :=
  fun going abandoned => absurd (same ▸ abandoned) going

theorem pushToken_going (going : s.recovery ≠ .abandoned) (kind : Kind) (count : Nat) :
    (s.pushToken env kind count).recovery ≠ .abandoned := by
  simp only [pushToken]
  split
  · simp
  · exact going

theorem consumeAny_going (going : s.recovery ≠ .abandoned) : (s.consumeAny env).recovery ≠ .abandoned := by
  unfold consumeAny
  split
  · exact going
  · exact pushToken_going going _ _

variable {issue : Issue}

private theorem report_going (lenient : env.options.mode = .lenient) (going : s.recovery ≠ .abandoned)
    (run : s.report env issue = .ok t) : t.recovery ≠ .abandoned := by
  rcases report_from run with ⟨rfl, -⟩ | ⟨-, -, -, recovering | strict⟩
  · exact going
  · simp [recovering]
  · cases lenient.symm.trans strict

private theorem reportAndSkip_going (lenient : env.options.mode = .lenient) (going : s.recovery ≠ .abandoned)
    (run : s.reportAndSkip env issue = .ok u) : u.recovery ≠ .abandoned := by
  obtain ⟨t, told, run⟩ := bind_eq_ok.mp run
  have going := report_going lenient going told
  split at run
  · cases run
    exact going
  · rw [complete_recovery run]
    exact consumeAny_going going

private theorem recover_explains {recovery : KindSet} (run : s.recover env recovery = .ok u) : Explains s u := by
  rcases recover_from run with rfl | ⟨-, t, quiet, normal, settled⟩
  · exact .of_eq rfl
  · rcases settleAt_from settled with rfl | ⟨v, told, rfl⟩
    · intro _ abandoned
      cases normal.symm.trans abandoned
    · rcases report_from told with ⟨-, again⟩ | ⟨-, counted, told, -⟩
      · simp [isTold, normal] at again
      · refine fun _ _ => ⟨?_, t.diagnose env .recoveryRanOut, by simp [withRecovery, told], rfl⟩
        have same := quiet.errorCount
        simp only [withRecovery, counted]
        omega

/-- Where rules are nested too deep, it is told, unless another error was told there. -/
theorem abandonNested_explains (going : s.recovery ≠ .abandoned) (run : s.abandonNested env = .ok u) :
    s.errorCount < u.errorCount ∧ (u.Explained ∨ s.Told ∧ u.diagnostics = s.diagnostics) := by
  unfold abandonNested at run
  rw [if_neg going] at run
  obtain ⟨t, told, run⟩ := bind_eq_ok.mp run
  have quiet := (abandon_quiet run).1
  rcases report_from told with ⟨rfl, again⟩ | ⟨-, counted, told, -⟩
  · refine ⟨quiet.errorCount ▸ Nat.lt_succ_self _, .inr ⟨?_, quiet.diagnostics⟩⟩
    simpa [Told, isTold, count, going] using again
  · refine ⟨?_, .inl ⟨_, by rw [quiet.diagnostics, told, Array.back?_push], rfl⟩⟩
    rw [quiet.errorCount, counted]
    exact Nat.lt_succ_self _

end State

private theorem Action.run_explains {action : Action α} {a : α} (lenient : env.options.mode = .lenient)
    (run : action.run env s = .ok (a, t)) : s.Explains t := by
  cases action with
  | cursor | noLambda | lookaheadLimit | allow | start =>
    cases run
    exact .of_eq rfl
  | join kind count =>
    cases run
    exact fun going abandoned => absurd abandoned (pushToken_going going _ _)
  | consumeAny =>
    cases run
    exact fun going abandoned => absurd abandoned (consumeAny_going going)
  | consume kind =>
    have run := Result.of_done run
    unfold State.consume at run
    split at run
    · cases run
      exact fun going abandoned => absurd abandoned (pushToken_going going _ _)
    · cases run
  | consumeAs keyword =>
    have run := Result.of_done run
    unfold State.consumeAs at run
    split at run
    · cases run
      exact fun going abandoned => absurd abandoned (pushToken_going going _ _)
    · cases run
  | release mark => exact .of_eq (release_recovery (Result.of_done run))
  | report issue => exact fun going abandoned => absurd abandoned (report_going lenient going (Result.of_done run))
  | reportAndSkip issue =>
    exact fun going abandoned => absurd abandoned (reportAndSkip_going lenient going (Result.of_done run))
  | recover recovery => exact recover_explains (Result.of_done run)
  | complete mark kind =>
    obtain ⟨u, closed, same⟩ := map_eq_ok.mp run
    cases same
    exact .of_eq (complete_recovery closed)
  | precede first =>
    obtain ⟨u, preceded, same⟩ := map_eq_ok.mp run
    cases same
    exact .of_eq (precede_still preceded).2.1

end Steps

namespace Program

variable {N : Type → Type} {env : Env} {rules : (α : Type) → N α → Program N α} {α β : Type} {s t u : State}

/-- A run has given a parse up: it was told why, or the rules were nested too deep where an error had been
told, and nothing was told since. -/
def GaveUp (env : Env) (rules : (α : Type) → N α → Program N α) (rule : Program N α) (s t : State) : Prop :=
  s.errorCount < t.errorCount ∧
    (t.Explained ∨ ∃ u, Trips env rules u rule s ∧ u.Told ∧ t.diagnostics = u.diagnostics)

private theorem GaveUp.lift {inner : Program N β} {outer : Program N α} (gave : GaveUp env rules inner s t)
    (through : ∀ u, Trips env rules u inner s → Trips env rules u outer s) : GaveUp env rules outer s t :=
  gave.imp id fun cause => cause.imp id fun ⟨u, trips, told⟩ => ⟨u, through u trips, told⟩

private theorem GaveUp.later {rule : Program N α} (gave : GaveUp env rules rule s t) (abandoned : t.recovery = .abandoned)
    (extended : t.Extends u) : GaveUp env rules rule s u := by
  have same := (extended.silent abandoned).2
  refine ⟨Nat.lt_of_lt_of_le gave.1 extended.grows.errorCount, gave.2.imp ?_ ?_⟩
  · exact fun ⟨d, last, kind⟩ => ⟨d, same ▸ last, kind⟩
  · exact fun ⟨u, trips, told, kept⟩ => ⟨u, trips, told, same.trans kept⟩

private theorem GaveUp.from {inner : Program N β} {outer : Program N α} (gave : GaveUp env rules inner t u)
    (grows : s.Grows t) (through : ∀ u, Trips env rules u inner t → Trips env rules u outer s) :
    GaveUp env rules outer s u :=
  ⟨Nat.lt_of_le_of_lt grows.errorCount gave.1,
    gave.2.imp id fun ⟨v, trips, told⟩ => ⟨v, through v trips, told⟩⟩

/-- A lenient run that gives a parse up gives the reason, or had told of an error at the very token. -/
theorem Evaluates.gaveUp (lenient : env.options.mode = .lenient) {rule : Program N α} {r : Result α} {a : α}
    (run : Evaluates env rules rule s r) (given : r = .ok (a, t)) (going : s.recovery ≠ .abandoned)
    (abandoned : t.recovery = .abandoned) : GaveUp env rules rule s t := by
  induction run generalizing t with
  | pure =>
    cases given
    exact absurd abandoned going
  | act => exact (Action.run_explains lenient given going abandoned).imp id .inl
  | @bind _ _ rule next s b u r first second ih ih' =>
    have grows := (first.extends rfl).grows
    by_cases early : u.recovery = .abandoned
    · exact ((ih rfl going early).lift fun _ => .first).later early (second.extends given)
    · exact (ih' given early abandoned).from grows fun _ => .next first.exec_eq
  | bindHalt => cases given
  | loopEnd _ round =>
    cases given
    exact (round rfl going abandoned).lift fun _ => .round
  | @loopNext _ b c step s u r round rest ih ih' =>
    have grows := (round.extends rfl).grows
    by_cases early : u.recovery = .abandoned
    · exact ((ih rfl going early).lift fun _ => .round).later early (rest.extends given)
    · exact (ih' given early abandoned).from grows fun _ => .later round.exec_eq
  | loopHalt => cases given
  | @tooDeep _ otherwise rule s deep =>
    obtain ⟨u, given_up, same⟩ := map_eq_ok.mp given
    cases same
    exact (State.abandonNested_explains going given_up).imp id fun cause =>
      cause.imp id fun ⟨told, same⟩ => ⟨s, .here deep, told, same⟩
  | nested room _ inner =>
    obtain ⟨⟨b, u⟩, rfl, same⟩ := map_eq_ok.mp given
    cases same
    have gave : GaveUp env rules _ _ u := inner rfl going abandoned
    exact gave.from ⟨Nat.le_refl _, List.prefix_refl _⟩ fun _ => .nested room
  | withNoLambda _ inner =>
    obtain ⟨⟨b, u⟩, rfl, same⟩ := map_eq_ok.mp given
    cases same
    have gave : GaveUp env rules _ _ u := inner rfl going abandoned
    exact gave.from ⟨Nat.le_refl _, List.prefix_refl _⟩ fun _ => .withNoLambda
  | speculate _ inner =>
    -- What is kept of a trial has met no error.
    obtain ⟨⟨b, u⟩, rfl, same⟩ := map_eq_ok.mp given
    have settled : settle _ b u = (a, t) := same
    unfold settle at settled
    split at settled
    · next kept =>
      cases settled
      exact absurd kept.2 (Nat.ne_of_gt (inner rfl going abandoned).1)
    · cases settled
      exact absurd abandoned going
  | call _ body => exact (body given going abandoned).lift fun _ => .call

end Program

end Parser

namespace Grammar

open State

def goesOn : Compositional Nonterminal where
  Holds _ _ _ rule := rule.Uses (fun action => action.goesOn = true) fun {_} name => Nonterminal.isShort name = true
  pure := trivial
  act {_ _ _ action} plain := by
    cases action with
    | cursor | noLambda | join | consumeAs => rfl
    | _ => exact plain
  join _ := rfl
  consumeAs := rfl
  stands _ holds := holds
  bind _ _ one two := ⟨one, two⟩
  look _ two := ⟨rfl, two⟩
  precede two := ⟨rfl, two⟩
  loopFrom round := round
  nested inner := inner
  withNoLambda inner := inner
  speculate inner := inner

instance : Links goesOn :=
  have : Callable goesOn := ⟨fun short => short⟩
  links_of_flat (fun holds => holds) rfl

private theorem rule_goesOn {α : Type} (name : Nonterminal α) (short : name.isShort = true) :
    (rule α name).Uses (fun action => action.goesOn = true) fun {_} name => Nonterminal.isShort name = true :=
  (rule_has short : Has goesOn .nothing (0 + 87) (rule α name)).holds

end Grammar

variable {entry : EntryPoint} {text : String} {options : ParseOptions} {parse : Parse}

private theorem EntryPoint.rule_goesOn (entry : EntryPoint) :
    entry.rule.Uses (fun action => action.goesOn = true) fun {_} name => Grammar.Nonterminal.isShort name = true := by
  cases entry with
  | file => exact (inferInstance : Has Grammar.goesOn .nothing 80 Grammar.compilationUnit).holds
  | expression => exact (inferInstance : Has Grammar.goesOn .nothing 14 Grammar.expressionRoot).holds

/-- A parse of a text comes to a state in which rules are nested too deep. -/
def EntryPoint.Trips (entry : EntryPoint) (text : String) (options : ParseOptions) (s : State) : Prop :=
  Program.Trips (textEnv text options) Grammar.rule s entry.rule {}

/-- A diagnostic with which a lenient parse is given up is the last one. A parse that was given up has
such a diagnostic, unless rules were nested too deep at the token at which the last error was told. -/
theorem Parse.abandonment_told (lenient : options.mode = .lenient)
    (parsed : entry.parse text options = .ok parse) :
    (∀ d ∈ parse.diagnostics, d.kind.isLast = true →
        parse.state = .abandoned ∧ parse.diagnostics.getLast? = some d) ∧
      (parse.state = .abandoned →
        (∃ d, parse.diagnostics.getLast? = some d ∧ d.kind.isLast = true) ∨
          ∃ s, entry.Trips text options s ∧ s.Told ∧ parse.diagnostics = s.diagnostics.toList) := by
  rw [EntryPoint.parse_eq] at parsed
  obtain ⟨t, ran, built⟩ := Parse.run_ok parsed
  obtain ⟨steps, tree, -, -, rfl⟩ := Parse.ofState_ok built
  have run := Program.evaluates_of_exec ran
  constructor
  · intro d member ends
    have fresh : ({} : State).Final := fun d member => by simp at member
    obtain ⟨abandoned, last⟩ := run.keeps (final_invariant _) Grammar.rule_goesOn entry.rule_goesOn rfl fresh
      d member ends
    exact ⟨by simp [abandoned], by simpa using last⟩
  · intro ended
    have abandoned : t.recovery = .abandoned := by
      dsimp only at ended
      split at ended
      · cases ended
      · exact ended
    obtain ⟨-, ⟨d, last, kind⟩ | ⟨u, trips, told, same⟩⟩ := run.gaveUp lenient rfl (by decide) abandoned
    · exact .inl ⟨d, by simpa using last, kind⟩
    · exact .inr ⟨u, trips, told, congrArg Array.toList same⟩

/-- Parentheses that are nested too deep. -/
theorem Parse.abandonment_told_parens :
    ∃ parse, EntryPoint.expression.parse "((a))" { maxDepth := 2 } = .ok parse ∧ parse.state = .abandoned ∧
      ∃ d, parse.diagnostics.getLast? = some d ∧ d.kind.isLast = true := by
  have found : Parse.givesWithin 300 (fun parse => parse.diagnostics.any fun d => d.kind.isLast)
      Grammar.expressionRoot (.lex "((a))") { maxDepth := 2 } = true := by decide +kernel
  obtain ⟨parse, ran, told⟩ := Parse.run_of_givesWithin found
  obtain ⟨d, member, ends⟩ := List.any_eq_true.mp told
  have parsed : EntryPoint.expression.parse "((a))" { maxDepth := 2 } = .ok parse := ran
  obtain ⟨abandoned, last⟩ := (Parse.abandonment_told rfl parsed).1 d member ends
  exact ⟨parse, parsed, abandoned, d, last, ends⟩

/-- The name of the inner class is missing, and its body is nested too deep. -/
theorem Parse.abandoned_untold :
    ∃ parse, EntryPoint.file.parse "class A{class {}}" { maxDepth := 1 } = .ok parse ∧
      parse.state = .abandoned ∧ ∀ d ∈ parse.diagnostics, d.kind.isLast = false := by
  have found : Parse.givesWithin 300 (fun parse => parse.state == .abandoned &&
        parse.diagnostics.all fun d => d.kind.isLast == false)
      Grammar.compilationUnit (.lex "class A{class {}}") { maxDepth := 1 } = true := by decide +kernel
  obtain ⟨parse, ran, untold⟩ := Parse.run_of_givesWithin found
  rw [Bool.and_eq_true, beq_iff_eq, List.all_eq_true] at untold
  exact ⟨parse, ran, untold.1, fun d member => by simpa using untold.2 d member⟩

end LosslessJava
