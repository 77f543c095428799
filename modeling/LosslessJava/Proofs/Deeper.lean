import LosslessJava.Proofs.CleanParse
import LosslessJava.Proofs.Deeper.Statements
import LosslessJava.Proofs.Totality

/-! A parse without diagnostics, and the parse of the same text where rules may nest deeper. -/

namespace LosslessJava

open LosslessJava.Parser

namespace Grammar

set_option synthInstance.maxSize 2000

variable {bounds : Bounds} {s : State}

/-- The rules that have a name keep to their courses, however deep they call each other. -/
instance routes (env : Env) (depth : Nat) : Routes ⟨env, depth⟩ := by
  induction depth with
  | zero => exact { type := ⟨fun _ => .never⟩, typeArg := ⟨fun _ => .never⟩, onCourse := fun _ _ _ => .never }
  | succ depth ih =>
    refine { type := ⟨fun s => .call (type_steers.onCourse s)⟩, typeArg := ⟨fun s => .call (typeArg_steers.onCourse s)⟩, onCourse := fun name apt s => .call ?_ }
    cases name with
    | type => exact .of_angles (type_steers.onCourse s)
    | typeArg => exact .of_angles (typeArg_steers.onCourse s)
    | expression least => exact expression_onCourse
    | unary => exact unary_onCourse
    | parenOperand => exact parenOperand_onCourse
    | simpleName => exact simpleName_steers.onCourse s
    | lambdaParamList => exact lambdaParamList_steers.onCourse s
    | elementValue => exact elementValue_steers.onCourse s
    | arrayInitializer => exact arrayInitializer_steers.onCourse s
    | pattern => exact pattern_steers.onCourse s
    | terminator form => exact terminator_steers.onCourse s
    | block => exact block_steers.onCourse s
    | statement => exact statement_steers.onCourse s
    | classBody kind => exact classBody_steers.onCourse s
    | clauses forms => exact (clauses_steers apt).onCourse s

instance [Routes bounds] : Steers bounds .all compilationUnit := by
  unfold compilationUnit
  infer_instance

instance [Routes bounds] : Steers bounds .all expressionRoot := by
  unfold expressionRoot restOfInput
  infer_instance

def AtEnd (stream : TokenStream) (i : Nat) : Prop := stream.size ≤ i + 1

private theorem AtEnd.of_eof (regular : bounds.env.stream.Regular) (ended : (s.cursor bounds.env).current = .eof) :
    AtEnd bounds.env.stream s.position :=
  regular.last s.position (by rwa [TokenCursor.current, TokenCursor.nth_eq] at ended)

private theorem smooth_compilationUnit (regular : bounds.env.stream.Regular) : Smooth bounds compilationUnit s fun _ t =>
    AtEnd bounds.env.stream t.position := by
  have last (t : State) : Smooth bounds (consume .eof) t fun _ u => AtEnd bounds.env.stream u.position := fun a u gives _ _ => by
    have run := Result.of_done gives.act
    unfold State.consume at run
    split at run
    · next ended =>
      cases run
      have size : bounds.env.stream.size ≤ t.position + 1 := AtEnd.of_eof regular ended
      show bounds.env.stream.size ≤ min (t.position + 1) (bounds.env.stream.size - 1) + 1
      omega
    · cases run
  have before {rule : Rule Unit} {t : State} : Smooth bounds rule t fun _ _ => True := .always fun _ _ => trivial
  unfold compilationUnit
  exact .discard (.node fun t _ => before.bind fun _ u _ => last u)

private theorem smooth_expressionRoot (regular : bounds.env.stream.Regular) : Smooth bounds expressionRoot s fun _ t =>
    AtEnd bounds.env.stream t.position := by
  have rest (t : State) : Smooth bounds restOfInput t fun _ u => AtEnd bounds.env.stream u.position := by
    unfold restOfInput
    refine Smooth.look.bind fun ended u ⟨still, seen⟩ => ?_
    split
    · next found =>
      subst seen
      exact .pure (still.position ▸ .of_eof regular (beq_iff_eq.mp found))
    · exact .fails
  have before {t : State} : Smooth bounds anyExpression t fun _ _ => True := .always fun _ _ => trivial
  unfold expressionRoot
  refine .discard (.nodeIf fun t _ => before.bind fun found u _ => Smooth.look.bind fun ended v ⟨still, seen⟩ => ?_)
  split
  · next whole =>
    subst seen
    simp only [Bool.and_eq_true, beq_iff_eq] at whole
    exact .pure (still.position ▸ .of_eof regular whole.2)
  · exact .thenIdle (rest v)

end Grammar

variable {entry : EntryPoint} {text : String} {options : ParseOptions} {parse : Parse}

private theorem EntryPoint.smooth {bounds : Grammar.Bounds} {s : State} (regular : bounds.env.stream.Regular) :
    Grammar.Smooth bounds entry.rule s fun _ t => Grammar.AtEnd bounds.env.stream t.position := by
  cases entry with
  | file => exact Grammar.smooth_compilationUnit regular
  | expression => exact Grammar.smooth_expressionRoot regular

instance {env : Env} {depth : Nat} : Grammar.Steers ⟨env, depth⟩ .all entry.rule := by
  cases entry with
  | file => exact inferInstanceAs (Grammar.Steers _ _ Grammar.compilationUnit)
  | expression => exact inferInstanceAs (Grammar.Steers _ _ Grammar.expressionRoot)

/-- A run that reports nothing does the same as one where rules may nest deeper: it would have ended within the type
arguments of a receiver otherwise. -/
theorem EntryPoint.deeper {bound depth depth' steps steps' : Nat} {t t' : State} (le : options.maxDepth ≤ bound)
    (calm : State.Calm {} t) (runs : Program.Runs (textEnv text options) Grammar.rule depth entry.rule {} (.ok ((), t)) steps)
    (other : Program.Runs (textEnv text (options.within bound)) Grammar.rule depth' entry.rule {} (.ok ((), t')) steps') :
    t' = t := by
  let bounds : Grammar.Bounds := ⟨textEnv text options, depth⟩
  have gives : bounds.Gives entry.rule {} () t := ⟨steps, runs⟩
  have gives' : (bounds.within bound depth').Gives entry.rule {} () t' := ⟨steps', other⟩
  have ready : State.Ready bounds.env {} := ⟨rfl, TokenStream.size_pos _⟩
  have onCourse : Grammar.OnCourse bounds .all Grammar.Never entry.rule {} := Grammar.Steers.onCourse _
  cases onCourse.agrees (by decide) le gives' _ _ gives ready calm.errorCount with
  | same same => exact same.2
  | parted parts =>
    obtain ⟨name, close, receiver, -, -, within⟩ := parts
    have ended : bounds.env.stream.size ≤ t.position + 1 := EntryPoint.smooth (regular_lex text) _ _ gives ready calm.errorCount
    have inside := receiver.inside
    omega
  | late impossible => exact impossible.elim

/-- A lenient parse without diagnostics is the parse of the same text where rules may nest deeper as well, unless that
one comes to a wildcard that is made out where there is none, which stops it, or to a list of lambda parameters that
never ends. Both can only be met by a trial that was taken back for want of room before. -/
theorem Parse.same_deeper {bound : Nat} (lenient : options.mode = .lenient) (le : options.maxDepth ≤ bound)
    (parsed : entry.parse text options = .ok parse) (clean : parse.diagnostics = []) :
    (entry.parse text (options.within bound) = .ok parse ∧ parse.state = .normal) ∨
      (∃ s found, entry.Reaches text (options.within bound) .typeArg s ∧
        Grammar.MisledWildcard (textEnv text (options.within bound)) s ∧ found ≠ .question ∧
        entry.parse text (options.within bound) = .error (.misplaced .question found)) ∨
      ∃ s, entry.Reaches text (options.within bound) .lambdaParamList s ∧
        Grammar.StuckParamList (textEnv text (options.within bound)) s ∧
        entry.parse text (options.within bound) = .error .endless := by
  obtain ⟨t, ran, calm, built⟩ := Parse.calm_of_clean parsed clean
  obtain ⟨depth, steps, runs⟩ := EntryPoint.runs_of_exec ran
  cases entry.settles text (options.within bound) with
  | gives other =>
    cases EntryPoint.deeper le calm runs other
    exact .inl ⟨(EntryPoint.parse_of_exec_ok other.exec_eq).trans built, (Parse.sound_of_clean parsed clean).1⟩
  | halts other cause =>
    obtain ⟨_, site, s, reached, fault⟩ := cause.resolve_left id
    refine .inr (.inl ?_)
    cases site with
    | typeArg =>
      obtain ⟨found, away, halted⟩ := Grammar.MisledWildcard.exec_eq fault
      exact ⟨s, found, reached, fault, away, EntryPoint.parse_of_exec_error (reached.exec_eq_error halted)⟩
    | clauses | terminator | parenOperand | simpleName => cases lenient.symm.trans fault.1
    | _ => exact fault.elim
  | sticks cause =>
    obtain ⟨_, site, s, reached, fault⟩ := cause.resolve_left id
    refine .inr (.inr ?_)
    cases site with
    | lambdaParamList =>
      exact ⟨s, reached, fault, EntryPoint.parse_of_exec_none (reached.exec_eq_none (Grammar.StuckParamList.exec_eq_none fault))⟩
    | _ => exact fault.elim

theorem Parse.same_deeper_receiver :
    ∃ parse, EntryPoint.expression.parse "a<b>::c" { maxDepth := 6 } = .ok parse ∧ parse.diagnostics = [] ∧
      EntryPoint.expression.parse "a<b>::c" { maxDepth := 60 } = .ok parse := by
  have shallow : Parse.givesWithin 300 (·.diagnostics.isEmpty) Grammar.expressionRoot (.lex "a<b>::c")
      { maxDepth := 6 } = true := by decide +kernel
  have deep : Parse.givesWithin 300 (fun _ => true) Grammar.expressionRoot (.lex "a<b>::c")
      { maxDepth := 60 } = true := by decide +kernel
  obtain ⟨parse, ran, clean⟩ := Parse.run_of_givesWithin shallow
  obtain ⟨other, ran', -⟩ := Parse.run_of_givesWithin deep
  have clean : parse.diagnostics = [] := by simpa using clean
  rcases @Parse.same_deeper .expression "a<b>::c" { maxDepth := 6 } parse 60 rfl (by decide) ran clean with
    ⟨same, -⟩ | ⟨_, _, -, -, -, stopped⟩ | ⟨_, -, -, endless⟩
  · exact ⟨parse, ran, clean, same⟩
  · cases ran'.symm.trans stopped
  · cases ran'.symm.trans endless

/-- With one level more, the receiver in the annotation is tried within the trial of the one around it, where the
annotation of its wildcard runs into the bound. -/
theorem Parse.deeper_stops_at_wildcard :
    let text := "@A({a<b,@X({1,h<@Y({1})?>::k})})class Z{}"
    (∃ parse, EntryPoint.file.parse text { maxDepth := 6 } = .ok parse ∧ parse.diagnostics = []) ∧
      ∀ deep, EntryPoint.file.parse text { maxDepth := 7 } ≠ .ok deep := by
  intro text
  have shallow : Parse.givesWithin 300 (·.diagnostics.isEmpty) Grammar.compilationUnit (.lex text)
      { maxDepth := 6 } = true := by decide +kernel
  have deep : Parse.stopsWithin 300 (fun _ => true) Grammar.compilationUnit (.lex text)
      { maxDepth := 7 } = true := by decide +kernel
  obtain ⟨parse, ran, clean⟩ := Parse.run_of_givesWithin shallow
  obtain ⟨halt, stopped, -⟩ := Parse.run_of_stopsWithin deep
  refine ⟨⟨parse, ran, by simpa using clean⟩, fun other given => ?_⟩
  cases stopped.symm.trans given

end LosslessJava
