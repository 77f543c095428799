import LosslessJava.Proofs.Lossless
import LosslessJava.Proofs.TreeWalks

/-! What becomes of a parse. It comes to an end within a bound, and returns, but for the places at which
the grammar goes wrong; each of those is met by some text. -/

namespace LosslessJava

open LosslessJava.Parser

variable {entry : EntryPoint} {text : String} {options : ParseOptions}

/-- A parse comes to the rule of a name in a state. -/
def EntryPoint.Reaches (entry : EntryPoint) (text : String) (options : ParseOptions) {α : Type}
    (name : Grammar.Nonterminal α) (s : State) : Prop :=
  Program.Reaches (textEnv text options) Grammar.rule name s entry.rule {}

theorem EntryPoint.parse_of_exec_error {halt : Halt}
    (ran : entry.rule.exec (textEnv text options) Grammar.rule {} = some (.error halt)) :
    entry.parse text options = .error halt := by
  rw [parse_eq, Parse.run]
  exact ran ▸ rfl

theorem EntryPoint.parse_of_exec_none
    (ran : entry.rule.exec (textEnv text options) Grammar.rule {} = none) :
    entry.parse text options = .error .endless := by
  rw [parse_eq, Parse.run]
  exact ran ▸ rfl

theorem EntryPoint.parse_of_exec_ok {state : State}
    (ran : entry.rule.exec (textEnv text options) Grammar.rule {} = some (.ok ((), state))) :
    entry.parse text options = Parse.ofState (textEnv text options) state := by
  rw [parse_eq, Parse.run]
  exact ran ▸ rfl

/-- A wildcard that is made out where there is none stops the parse. -/
theorem Grammar.MisledWildcard.exec_eq {env : Env} {s : State} (misled : MisledWildcard env s) :
    ∃ found, found ≠ .question ∧
      (call .typeArg : Rule Bool).exec env rule s = some (.error (.misplaced .question found)) := by
  obtain ⟨seen, found, t, saw, passed, away⟩ := misled
  have halted : wildcard.exec env rule seen = some (.error (.misplaced .question (t.current env))) := by
    rw [wildcard, Program.exec_discard, node, nodeOf, Program.exec_bind, start, Program.exec_act, Action.run,
      Program.andThen_ok, Program.exec_bind, Program.exec_bind, Program.exec_bind, Program.exec_discard, passed,
      Program.andThen_ok, Program.andThen_ok, Program.exec_bind, consume, Program.exec_act,
      State.consume_misplaced away]
    rfl
  refine ⟨t.current env, away, ?_⟩
  rw [call, Program.exec_call]
  show typeArg.exec env rule s = _
  rw [typeArg, Program.exec_bind, saw, Program.andThen_ok, if_pos rfl, Program.exec_bind, halted]
  rfl

def Halt.isMisplaced (expected found : Kind) : Halt → Bool
  | .misplaced kind other => kind == expected && other == found
  | _ => false

private theorem Halt.eq_of_isMisplaced {expected found : Kind} {halt : Halt} (same : halt.isMisplaced expected found) :
    halt = .misplaced expected found := by
  cases halt with
  | misplaced kind other => simpa [isMisplaced] using same
  | _ => cases same

/-- A lenient parse returns, unless it comes to a wildcard that is made out where there is none, which
stops it, or to a list of lambda parameters that never ends. -/
theorem lenient_parse_returns (lenient : options.mode = .lenient) :
    (∃ parse, entry.parse text options = .ok parse) ∨
      (∃ s found, entry.Reaches text options .typeArg s ∧
        Grammar.MisledWildcard (textEnv text options) s ∧ found ≠ .question ∧
        entry.parse text options = .error (.misplaced .question found)) ∨
      ∃ s, entry.Reaches text options .lambdaParamList s ∧
        Grammar.StuckParamList (textEnv text options) s ∧ entry.parse text options = .error .endless := by
  cases entry.settles text options with
  | gives ran recorded =>
    rcases recorded with ⟨one, -⟩ | ⟨-, bare, -⟩
    · obtain ⟨parse, _, _, built, -⟩ := @lossless_of_oneTree _ _ options _ one
      exact .inl ⟨parse, (EntryPoint.parse_of_exec_ok ran.exec_eq).trans built⟩
    · obtain ⟨-, strict, -⟩ := bare
      cases lenient.symm.trans strict
  | halts ran cause =>
    obtain ⟨_, site, s, reached, fault⟩ := cause.resolve_left id
    refine .inr (.inl ?_)
    cases site with
    | typeArg =>
      obtain ⟨found, away, halted⟩ := Grammar.MisledWildcard.exec_eq fault
      exact ⟨s, found, reached, fault, away, EntryPoint.parse_of_exec_error (reached.exec_eq_error halted)⟩
    | clauses | terminator | parenOperand | simpleName => cases lenient.symm.trans fault.1
    | _ => exact fault.elim
  | sticks cause =>
    obtain ⟨_, site, s, reached, fault⟩ := cause.resolve_left id
    refine .inr (.inr ?_)
    cases site with
    | lambdaParamList =>
      exact ⟨s, reached, fault,
        EntryPoint.parse_of_exec_none (reached.exec_eq_none (Grammar.StuckParamList.exec_eq_none fault))⟩
    | _ => exact fault.elim

theorem lenient_parse_returns_class : ∃ parse, EntryPoint.file.parse "class A {}" {} = .ok parse := by
  have found : Parse.givesWithin 300 (fun parse => parse.diagnostics.isEmpty) Grammar.compilationUnit
      (.lex "class A {}") {} = true := by decide +kernel
  obtain ⟨given, ran, -⟩ := Parse.run_of_givesWithin found
  rcases @lenient_parse_returns .file "class A {}" {} rfl with
    returned | ⟨s, found, -, -, -, stopped⟩ | ⟨s, -, -, endless⟩
  · exact returned
  · cases ran.symm.trans stopped
  · cases ran.symm.trans endless

/-- The brackets of the annotation are passed over ahead, but its arguments end at the comma. -/
theorem lenient_parse_stops_at_wildcard :
    EntryPoint.file.parse "class A extends B<@X(p,q)?>{}" {} = .error (.misplaced .question .comma) := by
  have found : Parse.stopsWithin 300 (Halt.isMisplaced .question .comma) Grammar.compilationUnit
      (.lex "class A extends B<@X(p,q)?>{}") {} = true := by decide +kernel
  obtain ⟨halt, ran, same⟩ := Parse.run_of_stopsWithin found
  rw [EntryPoint.parse_eq]
  exact Halt.eq_of_isMisplaced same ▸ ran

/-- A strict parse returns, with all of the text in one tree, unless it comes to a rule that goes wrong
there and stops it, or the text is an expression that is a type by itself. -/
theorem strict_parse_keeps_all (strict : options.mode = .strict) :
    (∃ parse, entry.parse text options = .ok parse ∧ entry.Lossless text parse.tree ∧
        parse.root.descendants.length = parse.tree.nodeCount) ∨
      (∃ (α : Type) (name : Grammar.Nonterminal α) (s : State) (halt : Halt),
        entry.Reaches text options name s ∧ (Grammar.faults (textEnv text options)).halts α name s ∧
        entry.parse text options = .error halt) ∨
      entry = .expression ∧ BareInput text options := by
  cases entry.settles text options with
  | gives ran recorded =>
    rcases recorded with ⟨one, -⟩ | ⟨expression, bare, -⟩
    · obtain ⟨parse, _, _, returned, built, lossless⟩ := @lossless_of_oneTree _ _ options _ one
      exact .inl ⟨parse, (EntryPoint.parse_of_exec_ok ran.exec_eq).trans returned, lossless,
        built.length_descendants⟩
    · exact .inr (.inr ⟨expression, bare⟩)
  | halts ran cause =>
    obtain ⟨α, site, s, reached, fault⟩ := cause.resolve_left id
    exact .inr (.inl ⟨α, site, s, _, reached, fault, EntryPoint.parse_of_exec_error ran.exec_eq⟩)
  | sticks cause =>
    obtain ⟨_, site, s, reached, fault⟩ := cause.resolve_left id
    cases site with
    | lambdaParamList =>
      obtain ⟨_, _, _, _, lenient, _⟩ := fault
      cases strict.symm.trans lenient
    | _ => exact fault.elim

theorem strict_parse_keeps_all_error :
    ∃ parse, EntryPoint.file.parse "int = ;" { mode := .strict } = .ok parse ∧
      parse.diagnostics.length = 1 ∧ EntryPoint.file.Lossless "int = ;" parse.tree ∧
      parse.root.descendants.length = parse.tree.nodeCount := by
  have found : Parse.givesWithin 300 (fun parse => parse.diagnostics.length == 1) Grammar.compilationUnit
      (.lex "int = ;") { mode := .strict } = true := by decide +kernel
  obtain ⟨given, ran, one⟩ := Parse.run_of_givesWithin found
  rcases @strict_parse_keeps_all .file "int = ;" { mode := .strict } rfl with
    ⟨parse, returned, kept⟩ | ⟨_, _, _, halt, -, -, stopped⟩ | ⟨expression, -⟩
  · cases ran.symm.trans returned
    exact ⟨given, ran, by simpa using one, kept⟩
  · cases ran.symm.trans stopped
  · cases expression

/-- The report of the second clause gives the input up, and its keyword is consumed afterwards. -/
theorem strict_parse_stops_at_clause :
    let text := "class A permits B permits C {}"
    (∃ lenient, EntryPoint.file.parse text {} = .ok lenient) ∧
      ∀ strict, EntryPoint.file.parse text { mode := .strict } ≠ .ok strict := by
  intro text
  have one : Parse.givesWithin 300 (fun _ => true) Grammar.compilationUnit (.lex text) {} = true := by
    decide +kernel
  have two : Parse.stopsWithin 300 (fun _ => true) Grammar.compilationUnit (.lex text)
      { mode := .strict } = true := by decide +kernel
  obtain ⟨lenient, one, -⟩ := Parse.run_of_givesWithin one
  obtain ⟨halt, two, -⟩ := Parse.run_of_stopsWithin two
  refine ⟨⟨lenient, one⟩, fun strict given => ?_⟩
  cases two.symm.trans given

section Stuck

namespace Grammar

def atStuckParam (env : Env) (s : State) : Bool :=
  env.options.mode == .lenient && s.current env == .atSign && (s.cursor env).nth 1 == .interfaceKw &&
    decide (s.depth < env.options.maxDepth) && decide (s.position < env.stream.size) &&
    s.recovery != .abandoned

private theorem stuckParam_of_at {env : Env} {s : State} (stands : atStuckParam env s = true) : StuckParam env s := by
  simp only [atStuckParam, Bool.and_eq_true, beq_iff_eq, bne_iff_ne, decide_eq_true_eq] at stands
  obtain ⟨⟨⟨⟨⟨lenient, sign⟩, interface⟩, room⟩, inside⟩, going⟩ := stands
  exact ⟨lenient, ⟨inside, fun abandoned => absurd abandoned going, by simp [lenient]⟩, sign, interface, room⟩

def sticksWithin (env : Env) (fuel : Nat) : Nat → State → Bool
  | 0, s => atStuckParam env s
  | rounds + 1, s =>
    match (stepTo () lambdaRound).execWithin env rule fuel s with
    | some (.ok (some (), t)) => sticksWithin env fuel rounds t
    | _ => false

private theorem stuck_of_sticksWithin {env : Env} {fuel rounds : Nat} {s t : State}
    (before : Program.Rounds env rule (fun _ => stepTo () lambdaRound) () s () t)
    (found : sticksWithin env fuel rounds t = true) :
    ∃ u, Program.Rounds env rule (fun _ => stepTo () lambdaRound) () s () u ∧ StuckParam env u := by
  induction rounds generalizing t with
  | zero => exact ⟨t, before, stuckParam_of_at found⟩
  | succ rounds ih =>
    simp only [sticksWithin] at found
    split at found
    · next u ran => exact ih (before.next (Program.exec_of_execWithin ran)) found
    · cases found

def listSticks (env : Env) (rounds : Nat) : (α : Type) → Nonterminal α → State → Bool
  | _, .lambdaParamList, s => (s.start.consume env .leftParen).toOption.any (sticksWithin env 200 rounds)
  | _, _, _ => false

private theorem endless_of_listSticks {env : Env} {rounds : Nat} {α β : Type} {site : Nonterminal β} {rule : Rule α}
    {s t : State} (reached : Program.Reaches env Grammar.rule site t rule s)
    (sticks : listSticks env rounds β site t = true) : rule.exec env Grammar.rule s = none := by
  cases site with
  | lambdaParamList =>
    obtain ⟨u, consumed, stuck⟩ := (Option.any_eq_true _ _).mp sticks
    obtain ⟨v, later, stuck⟩ := stuck_of_sticksWithin .refl stuck
    refine reached.exec_eq_none (StuckParamList.exec_eq_none ⟨u, v, ?_, later, stuck⟩)
    cases opened : t.start.consume env .leftParen with
    | ok state => simpa [opened, Except.toOption] using consumed
    | error halt => simp [opened, Except.toOption] at consumed
  | _ => cases sticks

end Grammar

/-- The parameter behind the annotation is looked for at `@interface` without end. -/
theorem lenient_parse_never_ends :
    EntryPoint.expression.parse "(@X(b @interface)int a)->b" {} = .error .endless := by
  let env := textEnv "(@X(b @interface)int a)->b" {}
  have found : Program.reachesWithin env Grammar.rule (Grammar.listSticks env 1) 300 Grammar.expressionRoot
      {} = true := by decide +kernel
  obtain ⟨β, site, t, reached, sticks⟩ := Program.reaches_of_reachesWithin found
  exact EntryPoint.parse_of_exec_none (Grammar.endless_of_listSticks reached sticks)

end Stuck

end LosslessJava
