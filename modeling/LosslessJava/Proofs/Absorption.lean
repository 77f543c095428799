import LosslessJava.Proofs.Rewinding
import LosslessJava.Proofs.Wording

/-! A parse that was abandoned stays so. Only at the end of input is a parse abandoned, and from there the rules
still have to unwind: each may go on to consume, to report and to recover. None of them tells anything more, takes
anything but the end of input once more, or leads back to a state in which errors count; only to take back the trial
in which the parse was abandoned does that. To give the rest of the input up is one step here, as it is one for the
rules. -/

namespace LosslessJava.Parser

namespace Program

/-- How far a run has come: to a state on its way, or to its end with an answer. -/
inductive Stage (α : Type) where
  | amid (state : State)
  | done (a : α) (state : State)

def Stage.state {α : Type} : Stage α → State
  | .amid state | .done _ state => state

variable {N : Type → Type}

/-- A run of a rule comes by the state `t` and from there to a stage, and no trial that was under way at `t` was
taken back in between. Nothing is said of how the run goes on: it may yet stop without a result, or never end. -/
inductive Since (env : Env) (rules : (α : Type) → N α → Program N α) :
    State → {α : Type} → Program N α → State → Stage α → Prop where
  | here {α : Type} {rule : Program N α} {t} : Since env rules t rule t (.amid t)
  /-- All trials of the rule were begun after its first state, and may be taken back. -/
  | whole {α : Type} {rule : Program N α} {t a u} (ran : rule.exec env rules t = some (.ok (a, u))) :
      Since env rules t rule t (.done a u)
  | ended {α : Type} {rule : Program N α} {t s a} (ran : rule.exec env rules s = some (.ok (a, t))) :
      Since env rules t rule s (.done a t)
  | first {α γ : Type} {rule : Program N γ} {next : γ → Program N α} {t s stage}
      (since : Since env rules t rule s stage) : Since env rules t (.bind rule next) s (.amid stage.state)
  | past {α γ : Type} {rule : Program N γ} {next : γ → Program N α} {t s a u stage}
      (since : Since env rules t rule s (.done a u)) (later : Since env rules u (next a) u stage) :
      Since env rules t (.bind rule next) s stage
  | next {α γ : Type} {rule : Program N γ} {next : γ → Program N α} {t s a u stage}
      (ran : rule.exec env rules s = some (.ok (a, u))) (since : Since env rules t (next a) u stage) :
      Since env rules t (.bind rule next) s stage
  | round {α : Type} {a : α} {step : α → Program N (Option α)} {t s stage}
      (since : Since env rules t (step a) s stage) : Since env rules t (.loopFrom a step) s (.amid stage.state)
  | left {α : Type} {a : α} {step : α → Program N (Option α)} {t s u}
      (since : Since env rules t (step a) s (.done none u)) : Since env rules t (.loopFrom a step) s (.done a u)
  | again {α : Type} {a b : α} {step : α → Program N (Option α)} {t s u stage}
      (since : Since env rules t (step a) s (.done (some b) u)) (later : Since env rules u (.loopFrom b step) u stage) :
      Since env rules t (.loopFrom a step) s stage
  | later {α : Type} {a b : α} {step : α → Program N (Option α)} {t s u stage}
      (ran : (step a).exec env rules s = some (.ok (some b, u))) (since : Since env rules t (.loopFrom b step) u stage) :
      Since env rules t (.loopFrom a step) s stage
  | nested {α : Type} {otherwise : α} {rule : Program N α} {t s stage} (room : s.depth < env.options.maxDepth)
      (since : Since env rules t rule s.enter stage) : Since env rules t (.nested otherwise rule) s (.amid stage.state)
  | leaves {α : Type} {otherwise : α} {rule : Program N α} {t s a u} (room : s.depth < env.options.maxDepth)
      (since : Since env rules t rule s.enter (.done a u)) :
      Since env rules t (.nested otherwise rule) s (.done a u.leave)
  | withNoLambda {α : Type} {noLambda : Bool} {rule : Program N α} {t s stage}
      (since : Since env rules t rule (s.withNoLambda noLambda) stage) :
      Since env rules t (.withNoLambda noLambda rule) s (.amid stage.state)
  | restores {α : Type} {noLambda : Bool} {rule : Program N α} {t s a u}
      (since : Since env rules t rule (s.withNoLambda noLambda) (.done a u)) :
      Since env rules t (.withNoLambda noLambda rule) s (.done a (u.withNoLambda s.noLambda))
  | tried {rule : Program N (Option Completed)} {t s stage} (since : Since env rules t rule s stage) :
      Since env rules t (.speculate rule) s (.amid stage.state)
  | kept {rule : Program N (Option Completed)} {t s found u} (since : Since env rules t rule s (.done found u))
      (stays : found.isSome ∧ u.errorCount = s.errorCount) : Since env rules t (.speculate rule) s (.done found u)
  | call {α : Type} {name : N α} {t s stage} (since : Since env rules t (rules α name) s stage) :
      Since env rules t (.call name) s stage

variable {env : Env} {rules : (α : Type) → N α → Program N α} {α : Type} {s t u : State}

private theorem Since.exec_eq {rule : Program N α} {a : α} {stage : Stage α} (since : Since env rules t rule s stage)
    (given : stage = .done a u) : rule.exec env rules s = some (.ok (a, u)) := by
  induction since generalizing u with
  | here | first | round | nested | withNoLambda | tried => cases given
  | whole ran | ended ran =>
    cases given
    exact ran
  | past _ _ first second => exact (exec_bind _ _ _).trans (by rw [first rfl, andThen_ok, second given])
  | next ran _ second => exact (exec_bind _ _ _).trans (by rw [ran, andThen_ok, second given])
  | left _ round =>
    cases given
    rw [exec_loopFrom, round rfl, andThen_ok]
  | again _ _ round rest =>
    rw [exec_loopFrom, round rfl, andThen_ok]
    exact rest given
  | later ran _ rest =>
    rw [exec_loopFrom, ran, andThen_ok]
    exact rest given
  | leaves room _ inner =>
    cases given
    rw [exec_nested_of_lt room, inner rfl]
    rfl
  | restores _ inner =>
    cases given
    rw [exec_withNoLambda, inner rfl]
    rfl
  | @kept _ _ s found u _ stays inner =>
    cases given
    have settled : settle s found u = (found, u) := if_pos stays
    rw [exec_speculate, inner rfl, Option.map_some]
    exact congrArg (fun after => some (Except.ok after)) settled
  | call _ body => rw [exec_call, body given]

end Program

namespace State

variable {env : Env} {s t u : State}

/-- From a state on, the parse stayed abandoned where it was: nothing was told and nothing consumed but the end of
input, over and over. -/
structure Absorbs (s t : State) : Prop where
  abandoned : t.recovery = .abandoned
  diagnostics : t.diagnostics = s.diagnostics
  position : t.position = s.position
  tokens : ∃ times, t.tokens = s.tokens ++ List.replicate times (.eof, 1)

namespace Absorbs

theorem refl (abandoned : s.recovery = .abandoned) : Absorbs s s := ⟨abandoned, rfl, rfl, 0, by simp⟩

theorem trans (first : Absorbs s t) (second : Absorbs t u) : Absorbs s u where
  abandoned := second.abandoned
  diagnostics := second.diagnostics.trans first.diagnostics
  position := second.position.trans first.position
  tokens := by
    obtain ⟨m, front⟩ := first.tokens
    obtain ⟨n, back⟩ := second.tokens
    exact ⟨m + n, by rw [back, front, List.append_assoc, List.replicate_append_replicate]⟩

private theorem of_silent (abandoned : s.recovery = .abandoned) (silent : Silent s t) (tokens : t.tokens = s.tokens)
    (position : t.position = s.position) : Absorbs s t :=
  have ⟨still, same⟩ := silent abandoned
  ⟨still, same, position, 0, by simp [tokens]⟩

private theorem within {depth : Nat} {noLambda : Bool} (absorbs : Absorbs { s with depth, noLambda } t) : Absorbs s t :=
  ⟨absorbs.abandoned, absorbs.diagnostics, absorbs.position, absorbs.tokens⟩

theorem changed (absorbs : Absorbs s t) (depth : Nat) (noLambda : Bool) : Absorbs s { t with depth, noLambda } :=
  ⟨absorbs.abandoned, absorbs.diagnostics, absorbs.position, absorbs.tokens⟩

private theorem current_eq (absorbs : Absorbs s t) (ended : s.current env = .eof) : t.current env = .eof := by
  rw [current, cursor, absorbs.position]
  exact ended

end Absorbs

section Steps

private theorem pushToken_absorbs (regular : env.stream.Regular) (good : s.Good env) (abandoned : s.recovery = .abandoned) :
    Absorbs s (s.pushToken env .eof 1) := by
  have last := good.position_of_eof regular (good.ended abandoned)
  have calm : Calm s (s.pushToken env .eof 1) := pushToken_calm .eof 1
  obtain ⟨still, same⟩ := calm.silent abandoned
  refine ⟨still, same, ?_, 1, tokens_pushToken .eof 1⟩
  show min (s.position + 1) (env.stream.size - 1) = s.position
  omega

private theorem consume_absorbs (regular : env.stream.Regular) (good : s.Good env) (abandoned : s.recovery = .abandoned)
    {kind : Kind} (run : s.consume env kind = .ok t) : Absorbs s t := by
  have ended := good.ended abandoned
  unfold State.consume at run
  split at run
  · next here =>
    cases run
    rw [← here, ended]
    exact pushToken_absorbs regular good abandoned
  · cases run

private theorem consumeAny_absorbs (good : s.Good env) (abandoned : s.recovery = .abandoned) :
    Absorbs s (s.consumeAny env) := by
  rw [State.consumeAny, if_pos (good.ended abandoned)]
  exact .refl abandoned

variable (abandoned : s.recovery = .abandoned)

include abandoned

private theorem report_absorbs {issue : Issue} (run : s.report env issue = .ok t) : Absorbs s t := by
  have silent := (report_extends run).silent
  have told : s.count.isTold = true := by simp [isTold, count, abandoned]
  simp only [report, told, if_true] at run
  cases run
  exact .of_silent abandoned silent rfl rfl

private theorem reportAndSkip_absorbs {issue : Issue} (run : s.reportAndSkip env issue = .ok t) : Absorbs s t := by
  obtain ⟨u, told, run⟩ := bind_eq_ok.mp run
  have absorbs := report_absorbs abandoned told
  rw [if_pos (.inr absorbs.abandoned)] at run
  cases run
  exact absorbs

private theorem recover_absorbs {recovery : KindSet} (run : s.recover env recovery = .ok t) : Absorbs s t := by
  rw [recover, if_pos (.inl abandoned)] at run
  cases run
  exact .refl abandoned

private theorem abandonNested_absorbs (run : s.abandonNested env = .ok t) : Absorbs s t := by
  rw [State.abandonNested, if_pos abandoned] at run
  cases run
  exact .refl abandoned

end Steps

end State

open State Program

variable {env : Env} {s t : State} {α : Type}

private theorem Makes.current_ne {cursor : TokenCursor} {kind : Kind} {count : Nat} (makes : Makes cursor kind count) :
    cursor.current ≠ .eof := by
  intro ended
  cases makes with
  | operator found =>
    rw [Grammar.Operator.at?, ended] at found
    cases found
  | nonSealed found =>
    simp only [Grammar.isNonSealed, Bool.and_eq_true, beq_iff_eq] at found
    have name : cursor.nth 0 = .identifier := found.1.1.1.1.1
    cases name.symm.trans ended

section Actions

variable {here : Known} (regular : env.stream.Regular)

include regular

private theorem Action.run_absorbs {action : Action α} {a : α} (fair : action.Fair here) (known : here.Of (s.cursor env))
    (good : s.Good env) (abandoned : s.recovery = .abandoned) (run : action.run env s = .ok (a, t)) : s.Absorbs t := by
  have silent := (Action.run_extends run).silent
  have ended : (s.cursor env).current = .eof := good.ended abandoned
  cases action with
  | cursor | noLambda | lookaheadLimit | allow =>
    cases run
    exact .of_silent abandoned silent rfl rfl
  | consume => exact consume_absorbs regular good abandoned (Result.of_done run)
  | consumeAny =>
    cases run
    exact consumeAny_absorbs good abandoned
  | consumeAs keyword =>
    have word := fair _ known
    simp only [isWordAt, Bool.and_eq_true, beq_iff_eq] at word
    cases word.1.symm.trans ended
  | join => exact absurd ended (fair _ known).current_ne
  | report => exact report_absorbs abandoned (Result.of_done run)
  | reportAndSkip => exact reportAndSkip_absorbs abandoned (Result.of_done run)
  | recover => exact recover_absorbs abandoned (Result.of_done run)
  | start =>
    cases run
    exact .of_silent abandoned silent (start_tokens s) rfl
  | complete =>
    obtain ⟨u, closed, same⟩ := map_eq_ok.mp run
    cases same
    obtain ⟨tokens, still⟩ := complete_tokens closed
    exact .of_silent abandoned silent tokens still
  | release =>
    obtain ⟨tokens, still⟩ := release_tokens (Result.of_done run)
    exact .of_silent abandoned silent tokens still
  | precede =>
    obtain ⟨u, preceded, same⟩ := map_eq_ok.mp run
    cases same
    obtain ⟨tokens, still⟩ := precede_tokens preceded
    exact .of_silent abandoned silent tokens still

end Actions

namespace Program

open Grammar (Nonterminal)

private theorem good_of_exec (regular : env.stream.Regular) {rule : Program Nonterminal α} {a : α} (good : s.Good env)
    (ran : rule.exec env Grammar.rule s = some (.ok (a, t))) : t.Good env :=
  (evaluates_of_exec ran).keeps (good_invariant regular) (fun _ _ => uses_any _) (uses_any _) rfl good

/-- A sincere rule goes on behind its first part as one that is sincere where it is then. -/
theorem Sincere.goesOn (lenient : env.options.mode = .lenient) {here : Known} {β : Type} {first : Program Nonterminal β}
    {next : β → Program Nonterminal α} {b : β} (sincere : Sincere here (.bind first next))
    (known : here.Of (s.cursor env)) (ran : first.exec env Grammar.rule s = some (.ok (b, t))) :
    ∃ there, Sincere there (next b) ∧ there.Of (t.cursor env) := by
  cases sincere with
  | bind word tells one two => exact ⟨_, two b, tells lenient known ran⟩
  | look two =>
    cases (exec_act _ _).symm.trans ran
    exact ⟨_, two _, rfl⟩
  | precede two =>
    obtain ⟨u, preceded, same⟩ := map_eq_ok.mp (Option.some.inj ((exec_act _ _).symm.trans ran))
    cases same
    refine ⟨_, two _, ?_⟩
    rw [State.cursor, (precede_tokens preceded).2]
    exact known

theorem Sincere.starts {here : Known} {β : Type} {first : Program Nonterminal β} {next : β → Program Nonterminal α}
    (sincere : Sincere here (.bind first next)) : Sincere here first := by
  cases sincere with
  | bind _ _ one => exact one
  | look | precede => exact .act trivial

theorem Sincere.again {a : α} {step : α → Program Nonterminal (Option α)} (steady : ∀ a, Sincere .nothing (step a)) :
    Sincere .nothing (.loopFrom a step) := .loopFrom steady

section

variable (regular : env.stream.Regular) (lenient : env.options.mode = .lenient)

include regular lenient

private theorem Evaluates.absorbs {here : Known} {rule : Program Nonterminal α} {r : Result α} {a : α}
    (run : Evaluates env Grammar.rule rule s r) (given : r = .ok (a, t)) (sincere : Sincere here rule)
    (known : here.Of (s.cursor env)) (good : s.Good env) (abandoned : s.recovery = .abandoned) : s.Absorbs t := by
  induction run generalizing t here with
  | pure =>
    cases given
    exact .refl abandoned
  | act =>
    cases sincere with
    | act fair => exact Action.run_absorbs regular fair known good abandoned given
  | bind ran _ first second =>
    obtain ⟨there, goesOn, known'⟩ := sincere.goesOn lenient known ran.exec_eq
    have before := first rfl sincere.starts known good abandoned
    exact before.trans (second given goesOn known' (good_of_exec regular good ran.exec_eq) before.abandoned)
  | bindHalt => cases given
  | loopEnd _ round =>
    cases given
    cases sincere with
    | loopFrom steady => exact round rfl (steady _) trivial good abandoned
  | loopNext ran _ round rest =>
    cases sincere with
    | loopFrom steady =>
      have before := round rfl (steady _) trivial good abandoned
      have later := good_of_exec regular good ran.exec_eq
      exact before.trans (rest given (Sincere.again steady) trivial later before.abandoned)
  | loopHalt => cases given
  | tooDeep =>
    obtain ⟨u, run, same⟩ := map_eq_ok.mp given
    cases same
    exact abandonNested_absorbs abandoned run
  | nested _ _ inner =>
    obtain ⟨⟨b, u⟩, rfl, same⟩ := map_eq_ok.mp given
    cases same
    cases sincere with
    | nested within => exact (inner rfl within trivial (good.kept rfl rfl) abandoned).within.changed _ _
  | withNoLambda _ inner =>
    obtain ⟨⟨b, u⟩, rfl, same⟩ := map_eq_ok.mp given
    cases same
    cases sincere with
    | withNoLambda within => exact (inner rfl within trivial (good.kept rfl rfl) abandoned).within.changed _ _
  | @speculate rule s r _ inner =>
    obtain ⟨⟨b, u⟩, rfl, same⟩ := map_eq_ok.mp given
    have settled : settle s b u = (a, t) := same
    cases sincere with
    | speculate within =>
      unfold settle at settled
      split at settled
      · cases settled
        exact inner rfl within trivial good abandoned
      · cases settled
        exact .refl abandoned
  | call _ body =>
    cases sincere with
    | call short => exact body given (rule_sincere _ short) trivial good abandoned

/-- Every state that a run comes by is good; and if the parse is abandoned there, it stays so for as long as no
trial is taken back that was under way. -/
theorem Since.absorbs {here : Known} {rule : Program Nonterminal α} {stage : Stage α}
    (since : Since env Grammar.rule t rule s stage) (sincere : Sincere here rule) (known : here.Of (s.cursor env))
    (good : s.Good env) : t.Good env ∧ (t.recovery = .abandoned → t.Absorbs stage.state) := by
  induction since generalizing here with
  | here => exact ⟨good, .refl⟩
  | whole ran => exact ⟨good, (evaluates_of_exec ran).absorbs regular lenient rfl sincere known good⟩
  | ended ran => exact ⟨good_of_exec regular good ran, .refl⟩
  | first _ inner => exact inner sincere.starts known good
  | past since _ inner rest =>
    have ran := since.exec_eq rfl
    obtain ⟨there, goesOn, known'⟩ := sincere.goesOn lenient known ran
    obtain ⟨reached, before⟩ := inner sincere.starts known good
    obtain ⟨-, later⟩ := rest goesOn known' (good_of_exec regular good ran)
    exact ⟨reached, fun abandoned => (before abandoned).trans (later (before abandoned).abandoned)⟩
  | next ran _ rest =>
    obtain ⟨there, goesOn, known'⟩ := sincere.goesOn lenient known ran
    exact rest goesOn known' (good_of_exec regular good ran)
  | round _ inner | left _ inner =>
    cases sincere with
    | loopFrom steady => exact inner (steady _) trivial good
  | again since _ inner rest =>
    cases sincere with
    | loopFrom steady =>
      obtain ⟨reached, before⟩ := inner (steady _) trivial good
      obtain ⟨-, later⟩ := rest (Sincere.again steady) trivial (good_of_exec regular good (since.exec_eq rfl))
      exact ⟨reached, fun abandoned => (before abandoned).trans (later (before abandoned).abandoned)⟩
  | later ran _ rest =>
    cases sincere with
    | loopFrom steady => exact rest (Sincere.again steady) trivial (good_of_exec regular good ran)
  | nested _ _ inner =>
    cases sincere with
    | nested within => exact inner within trivial (good.kept rfl rfl)
  | leaves _ _ inner =>
    cases sincere with
    | nested within =>
      obtain ⟨reached, stays⟩ := inner within trivial (good.kept rfl rfl)
      exact ⟨reached, fun abandoned => (stays abandoned).changed _ _⟩
  | withNoLambda _ inner =>
    cases sincere with
    | withNoLambda within => exact inner within trivial (good.kept rfl rfl)
  | restores _ inner =>
    cases sincere with
    | withNoLambda within =>
      obtain ⟨reached, stays⟩ := inner within trivial (good.kept rfl rfl)
      exact ⟨reached, fun abandoned => (stays abandoned).changed _ _⟩
  | tried _ inner | kept _ _ inner =>
    cases sincere with
    | speculate within => exact inner within trivial good
  | call _ body =>
    cases sincere with
    | call short => exact body (rule_sincere _ short) trivial good

end

end Program

end Parser

namespace EntryPoint

open LosslessJava.Parser Program

variable {entry : EntryPoint} {text : String} {options : ParseOptions} {t : State} {stage : Stage Unit}

/-- In whatever state a lenient parse is abandoned, it is at the end of input; and from there, until a trial is taken
back that was under way or the parse ends, it stays abandoned there, tells nothing and takes nothing but that end. -/
theorem abandoned_absorbs (lenient : options.mode = .lenient)
    (since : Since { stream := .lex text, options } Grammar.rule t entry.rule {} stage)
    (abandoned : t.recovery = .abandoned) :
    t.current { stream := .lex text, options } = .eof ∧
      stage.state.current { stream := .lex text, options } = .eof ∧ t.Absorbs stage.state := by
  have start : State.Good { stream := .lex text, options } {} := ⟨(TokenStream.lex text).size_pos, nofun, nofun⟩
  have sincere : Sincere .nothing entry.rule := (entry.rule_has : Has Program.sincere _ _ _).holds
  obtain ⟨good, stays⟩ := since.absorbs (regular_lex text) lenient sincere trivial start
  have absorbs := stays abandoned
  exact ⟨good.ended abandoned, absorbs.current_eq (good.ended abandoned), absorbs⟩

/-- A file that is read comes by the state in which its end is taken, with all declarations behind it. -/
theorem since_declarations {u : State} (ran : EntryPoint.file.rule.exec { stream := .lex text, options } Grammar.rule {} =
    some (.ok ((), u))) :
    ∃ t, Since { stream := .lex text, options } Grammar.rule t EntryPoint.file.rule {} (.done () u) ∧
      u.tokens = t.tokens ++ [(.eof, 1)] ∧ (u.recovery = .abandoned → t.recovery = .abandoned) := by
  obtain ⟨unit, v, node, rest⟩ := ok_of_andThen ((exec_bind _ _ _).symm.trans ran)
  cases rest.symm.trans (exec_return _ _)
  obtain ⟨mark, w, started, inner⟩ := ok_of_andThen ((exec_bind _ _ _).symm.trans node)
  obtain ⟨kind, x, contents, closed⟩ := ok_of_andThen ((exec_bind _ _ _).symm.trans inner)
  obtain ⟨⟨⟩, y, body, told⟩ := ok_of_andThen ((exec_bind _ _ _).symm.trans contents)
  cases told.symm.trans (exec_return _ _)
  obtain ⟨⟨⟩, t, declarations, taken⟩ := ok_of_andThen ((exec_bind _ _ _).symm.trans body)
  refine ⟨t, ?_, ?_⟩
  · refine .past (.next started ?_) (.whole rest)
    exact .past (.past (.past (.ended declarations) (.whole taken)) (.whole told)) (.whole closed)
  · obtain ⟨z, done, same⟩ := map_eq_ok.mp (Option.some.inj ((exec_act _ _).symm.trans closed))
    cases same
    have eaten := Result.of_done (Option.some.inj ((exec_act _ _).symm.trans taken))
    unfold State.consume at eaten
    split at eaten
    · cases eaten
      rw [(State.complete_tokens done).1, State.tokens_pushToken, State.complete_recovery done]
      refine ⟨rfl, fun abandoned => ?_⟩
      simp only [State.pushToken] at abandoned
      split at abandoned
      · cases abandoned
      · exact abandoned
    · cases eaten

def abandonsWithin (fuel : Nat) (text : String) (options : ParseOptions) : Bool :=
  (EntryPoint.file.rule.execWithin { stream := .lex text, options } Grammar.rule fuel {}).any fun
    | .ok (_, u) => u.recovery == .abandoned
    | .error _ => false

/-- A file in which recovery comes to the end, before that is taken and behind it. -/
theorem abandoned_absorbs_import :
    ∃ t u, Since { stream := .lex "import a b", options := {} } Grammar.rule t EntryPoint.file.rule {} (.done () u) ∧
      t.recovery = .abandoned ∧ u.tokens = t.tokens ++ [(.eof, 1)] ∧ t.Absorbs u := by
  have found : abandonsWithin 100 "import a b" {} = true := by decide +kernel
  obtain ⟨given, ran, checked⟩ := (Option.any_eq_true _ _).mp found
  rcases given with halt | ⟨⟨⟩, u⟩
  · cases checked
  · obtain ⟨t, since, taken, before⟩ := since_declarations (exec_of_execWithin ran)
    have abandoned : t.recovery = .abandoned := before (by simpa using checked)
    exact ⟨t, u, since, abandoned, taken, (abandoned_absorbs rfl since abandoned).2.2⟩

end EntryPoint

end LosslessJava
