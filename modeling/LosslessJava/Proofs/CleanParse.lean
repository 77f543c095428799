import LosslessJava.Proofs.Clean.Inputs
import LosslessJava.Proofs.Lossless
import LosslessJava.Proofs.Silence

/-! A parse without diagnostics. Its tree shows shapes that keep their contracts, and has the brackets
of the text. -/

namespace LosslessJava

open LosslessJava.Parser LosslessJava.Shape

/-- A run over an input that reports nothing records one node. -/
theorem EntryPoint.draws (entry : EntryPoint) (bounds : Grammar.Bounds) (s : State) :
    Grammar.Draws bounds entry.rule s fun _ row _ => ∃ kind children, row = [.node kind children] := by
  rcases bounds with ⟨env, depth⟩
  cases entry with
  | file => exact Grammar.compilationUnit_draws
  | expression => exact Grammar.expressionRoot_draws

section Steps

open Event

variable {events : Array Event} {steps : List BuildStep} {row : List Shape}

/-- Events that were recorded as one row are not recorded as another one. -/
theorem row_eq_of_emits {other : List Shape} (emits : Emits events.toList (stepsAll row))
    (emits' : Emits events.toList (stepsAll other)) : row = other :=
  stepsAll_inj (Option.some.inj ((buildSteps_of_emits emits).symm.trans (buildSteps_of_emits emits')))

theorem TwoTrees.emits (two : TwoTrees events.toList) :
    ∃ one other : Shape, Emits events.toList (stepsAll [one, other]) := by
  obtain ⟨given, front, back, first, second, split, tombstones, whole, headed, -, whole', headed'⟩ := two
  obtain ⟨kind, children, emits, -⟩ := headed.emits whole
  obtain ⟨kind', children', emits', -⟩ := headed'.emits whole'
  refine ⟨.node kind children, .node kind' children', ?_⟩
  rw [split]
  refine Emits.givens tombstones ?_
  simpa only [stepsAll, List.append_nil] using emits.append emits'

end Steps

structure Tree.Sound (tree : Tree) (text : String) (kind : Kind) (children : List Shape) : Prop where
  made : BuildStep.toTree (.lex text) (Shape.node kind children).steps = .ok tree
  built : tree.Built (.lex text) kind children
  proper : (Shape.node kind children).Proper
  sound : SoundAll [.node kind children]
  brackets : ((tokenize text).map Token.kind).filter Kind.isBracket = (leafKinds children).filter Kind.isBracket

variable {entry : EntryPoint} {text : String} {options : ParseOptions} {parse : Parse}

private theorem kinds_of_whole {position count : Nat} (share : (entry.share (tokenize text)).length = count)
    (moved : position = min (0 + count) ((TokenStream.lex text).size - 1)) :
    ((TokenStream.lex text).kinds 0 position).filter Kind.isBracket =
      ((tokenize text).map Token.kind).filter Kind.isBracket := by
  obtain ⟨front, last, split, -, ended, -⟩ := (tokenize_tiles text).ended
  have stops : position = front.length := by
    have size := size_lex text
    cases entry <;> simp [EntryPoint.share, split] at share size <;> omega
  have early : (TokenStream.lex text).kinds 0 position = front.map Token.kind := by
    subst stops
    refine List.ext_getElem (by simp [TokenStream.kinds]) fun index _ inside => ?_
    have small : index < front.length := by simpa using inside
    have within : index < (tokenize text).length := by simp [split]; omega
    simp [TokenStream.kinds, tokenAt_lex within, split, List.getElem_append_left small]
  rw [early, split, List.map_append, List.filter_append]
  simp [ended, Kind.isBracket]

/-- What a run of an entry point gives, it gives with its names standing for rules some levels deep. -/
theorem EntryPoint.runs_of_exec {t : State} (ran : entry.rule.exec (textEnv text options) Grammar.rule {} = some (.ok ((), t))) :
    ∃ depth steps, Program.Runs (textEnv text options) Grammar.rule depth entry.rule {} (.ok ((), t)) steps := by
  cases entry.settles text options with
  | gives ran' =>
    cases ran.symm.trans ran'.exec_eq
    exact ⟨_, _, ran'⟩
  | halts ran' => cases ran.symm.trans ran'.exec_eq
  | sticks cause => cases ran.symm.trans (Grammar.exec_eq_none_of_sticks cause)

/-- No error was reported where there are no diagnostics. -/
theorem Parse.calm_of_clean (parsed : entry.parse text options = .ok parse) (clean : parse.diagnostics = []) :
    ∃ t, entry.rule.exec (textEnv text options) Grammar.rule {} = some (.ok ((), t)) ∧ State.Calm {} t ∧
      Parse.ofState (textEnv text options) t = .ok parse := by
  rw [EntryPoint.parse_eq] at parsed
  obtain ⟨t, ran, built⟩ := Parse.run_ok parsed
  refine ⟨t, ran, ?_, built⟩
  obtain ⟨steps, tree, found, made, rfl⟩ := Parse.ofState_ok built
  have evaluates : Program.Evaluates (textEnv text options) Grammar.rule entry.rule {} (.ok ((), t)) :=
    Program.evaluates_of_exec ran
  rcases evaluates.heard rfl rfl with calm | ⟨first, tells⟩
  · exact calm
  · have told := tells.told
    simp only at clean
    simp [clean] at told

/-- A parse without diagnostics: no error was reported, so what was recorded keeps its contracts. -/
theorem Parse.sound_of_clean (parsed : entry.parse text options = .ok parse) (clean : parse.diagnostics = []) :
    parse.state = .normal ∧ ∃ kind children, parse.tree.Sound text kind children := by
  obtain ⟨t, ran, calm, built⟩ := Parse.calm_of_clean parsed clean
  obtain ⟨steps, tree, found, made, rfl⟩ := Parse.ofState_ok built
  have normal : t.recovery = .normal := calm.recovery (by simp)
  refine ⟨by simp [normal], ?_⟩
  have draws {depth steps} (run : Program.Runs (textEnv text options) Grammar.rule depth entry.rule {} (.ok ((), t)) steps) :
      ∃ kind children, State.Adds (textEnv text options) {} [.node kind children] t := by
    obtain ⟨row, adds, kind, children, rfl⟩ := entry.draws ⟨textEnv text options, depth⟩ {} () t ⟨steps, run⟩
      ⟨rfl, TokenStream.size_pos _⟩ calm.errorCount
    exact ⟨kind, children, adds⟩
  cases entry.settles text options with
  | gives ran' recorded =>
    cases ran.symm.trans ran'.exec_eq
    obtain ⟨kind, children, adds⟩ := draws ran'
    obtain ⟨more, recorded', emits⟩ := adds.events
    obtain rfl : more = t.events.toList := by simpa using recorded'.symm
    rcases recorded with ⟨one, -⟩ | ⟨-, -, two⟩
    · obtain ⟨kind', children', emits', proper, -, sum⟩ := one.emits
      have whole : Event.Emits t.events.toList (stepsAll [.node kind' children']) := by
        simpa [stepsAll] using emits'
      cases row_eq_of_emits emits whole
      obtain ⟨tree', made', built'⟩ := @Tree.toTree_ok (.lex text) _ _ proper
      obtain rfl := Option.some.inj (found.symm.trans (Event.buildSteps_of_emits emits'))
      cases made.symm.trans made'
      refine ⟨kind, children, made', built', proper, adds.sound, ?_⟩
      have brackets := adds.brackets
      have moved := adds.moved
      simp only [tokensAll, tokens, List.append_nil] at brackets moved
      rw [sum] at moved
      rw [← kinds_of_whole rfl moved]
      exact brackets
    · obtain ⟨one, other, emits'⟩ := TwoTrees.emits two
      cases row_eq_of_emits emits emits'
  | halts ran' => cases ran.symm.trans ran'.exec_eq
  | sticks cause => cases ran.symm.trans (Grammar.exec_eq_none_of_sticks cause)

end LosslessJava
