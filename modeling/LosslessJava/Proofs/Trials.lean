import LosslessJava.Proofs.Rewinding
import LosslessJava.Proofs.ScannedTypes
import LosslessJava.Proofs.Traversal

/-! The trial of a type that fails. Where no annotation stands in a stream, to read a type comes to no rules
but those of types, and nothing is wrong with these; so it gives an answer, whatever it reports. Where no `::`
stands either, the trial of a receiver is taken back. -/

namespace LosslessJava

open LosslessJava.Parser

namespace Parser.Program

variable {N : Type → Type} {env : Env} {rules : (α : Type) → N α → Program N α}
  {allowed : {α : Type} → N α → Prop} {α β : Type}

def Asks (env : Env) (rules : (α : Type) → N α → Program N α) (allowed : {α : Type} → N α → Prop) :
    {α : Type} → Program N α → Prop
  | _, .pure _ | _, .act _ => True
  | _, .bind first next => first.Asks env rules allowed ∧
      ∀ a s t, first.exec env rules s = some (.ok (a, t)) → (next a).Asks env rules allowed
  | _, .loopFrom _ step => ∀ a, (step a).Asks env rules allowed
  | _, .nested _ rule | _, .withNoLambda _ rule | _, .speculate rule => rule.Asks env rules allowed
  | _, .call name => allowed name

/-- Where all rules that are allowed keep to them, a run comes to no others. -/
theorem Reaches.asked {site : N β} {rule : Program N α} {s t : State} (reached : Reaches env rules site t rule s)
    (keep : ∀ {α : Type} (name : N α), allowed name → (rules α name).Asks env rules allowed)
    (asks : rule.Asks env rules allowed) : allowed site := by
  induction reached with
  | here => exact asks
  | inside _ ih => exact ih (keep _ asks)
  | first _ ih => exact ih asks.1
  | next ran _ ih => exact ih (asks.2 _ _ _ ran)
  | round _ ih => exact ih (asks _)
  | later _ _ ih => exact ih asks
  | nested _ _ ih => exact ih asks
  | withNoLambda _ ih => exact ih asks
  | speculate _ ih => exact ih asks

def asking (env : Env) (rules : (α : Type) → N α → Program N α) (allowed : {α : Type} → N α → Prop) :
    Compositional N where
  Holds _ _ _ rule := rule.Asks env rules allowed
  pure := trivial
  act _ := trivial
  join _ := trivial
  consumeAs := trivial
  stands _ holds := holds
  bind _ _ one two := ⟨one, fun b _ _ _ => two b⟩
  look _ two := ⟨trivial, fun c _ _ _ => two c⟩
  precede two := ⟨trivial, fun mark _ _ _ => two mark⟩
  loopFrom round := round
  nested inner := inner
  withNoLambda inner := inner
  speculate inner := inner

end Parser.Program

namespace Grammar

set_option synthInstance.maxSize 2000

variable {env : Env} {here : Known} {height : Nat}

def Nonterminal.isOfTypes : {α : Type} → Nonterminal α → Bool
  | _, .type | _, .typeArg => true
  | _, _ => false

abbrev askingTypes (env : Env) : Compositional Nonterminal :=
  Program.asking env Grammar.rule fun name => name.isOfTypes = true

instance : Has (askingTypes env) here height cursor := ⟨trivial⟩

instance : Has (askingTypes env) here height (call .type) := ⟨rfl⟩

instance : Has (askingTypes env) here height (call .typeArg) := ⟨rfl⟩

section Types

variable (plain : env.stream.Unannotated)

include plain

private theorem seesAnnotation_none {s t : State} {found : Bool}
    (ran : seesAnnotation.exec env Grammar.rule s = some (.ok (found, t))) : found = false := by
  obtain ⟨_, _, ran', _, _, no, -⟩ := seesAnnotation_follows (plain _) s rfl (Level.any s)
  cases ran.symm.trans ran'
  exact no

private theorem annotations_stay {s t : State} {found : Bool}
    (ran : annotations.exec env Grammar.rule s = some (.ok (found, t))) : t.position = s.position := by
  obtain ⟨_, _, ran', _, _, -, -, still⟩ := annotations_follows (plain _) s rfl (Level.any s)
  cases ran.symm.trans ran'
  exact still

private theorem annotations_ask : Has (askingTypes env) here height annotations := by
  have sees : Has (askingTypes env) .nothing (0 + 4) seesAnnotation := by
    unfold seesAnnotation
    infer_instance
  constructor
  intro any
  refine ⟨⟨sees.holds, fun found s t ran => ?_⟩, fun _ _ _ _ => trivial⟩
  rw [seesAnnotation_none plain ran]
  trivial

private theorem not_misled {s : State} : ¬ MisledWildcard env s := by
  rintro ⟨seen, found, t, looked, ran, away⟩
  obtain ⟨_, _, ran', _, _, question, -, still⟩ := seesWildcard_follows (plain _) s rfl (Level.any s)
  cases looked.symm.trans ran'
  have there : t.position = s.position := (annotations_stay plain ran).trans still
  refine away ?_
  rw [Follows.current_eq there]
  simpa using question.symm

private theorem type_asks : Has (askingTypes env) here (height + 54) type := by
  have annotated {here : Known} {height : Nat} : Has (askingTypes env) here height annotations := annotations_ask plain
  have arguments {here : Known} {height : Nat} : Has (askingTypes env) here (height + 21) typeArgs := by
    unfold typeArgs delimited delimitedRound
    infer_instance
  have segments {here : Known} {height : Nat} : Has (askingTypes env) here (height + 45) classTypeSegments := by
    unfold classTypeSegments classTypeSegment
    dsimp only
    infer_instance
  have element {here : Known} {height : Nat} : Has (askingTypes env) here (height + 52) elementType := by
    unfold elementType
    infer_instance
  have suffix {here : Known} {height : Nat} {node : Completed} : Has (askingTypes env) here (height + 7) (arraySuffix node) := by
    unfold arraySuffix seesDims emptyBrackets
    infer_instance
  unfold type
  refine .deeper (.andThen fun found => ?_)
  split <;> infer_instance

private theorem typeArg_asks : Has (askingTypes env) here (height + 43) typeArg := by
  have annotated {here : Known} {height : Nat} : Has (askingTypes env) here height annotations := annotations_ask plain
  have sees {here : Known} {height : Nat} : Has (askingTypes env) here (height + 5) seesWildcard := by
    unfold seesWildcard
    infer_instance
  unfold typeArg wildcard wildcardBound
  infer_instance

private theorem reaches_of_type {α : Type} {site : Nonterminal α} {s t : State}
    (reached : Program.Reaches env Grammar.rule site t (call .type) s) : site.isOfTypes = true := by
  have asks : (call .type : Rule (Option Completed)).Asks env Grammar.rule fun name => name.isOfTypes = true := rfl
  refine reached.asked (fun {α} name types => ?_) asks
  cases name with
  | type => exact (type_asks plain : Has (askingTypes env) .nothing (0 + 54) type).holds
  | typeArg => exact (typeArg_asks plain : Has (askingTypes env) .nothing (0 + 43) typeArg).holds
  | _ => cases types

private theorem type_answers (regular : env.stream.Regular) {s : State} (good : s.Good env) :
    ∃ found t, (call .type : Rule (Option Completed)).exec env Grammar.rule s = some (.ok (found, t)) := by
  have settles := call_settles regular (4 * env.stream.size + 1) ⟨False, False⟩ .type s good
    (by simp only [Nonterminal.rank]; omega) trivial
  have harmless {faulty : (α : Type) → Nonterminal α → State → Prop}
      (types : ∀ {α : Type} (site : Nonterminal α) (t : State), faulty α site t → site.isOfTypes = true → False) :
      ¬ Program.Blamed env Grammar.rule False faulty (call .type : Rule (Option Completed)) s := by
    rintro (none | ⟨α, site, t, reached, fault⟩)
    · exact none
    · exact types site t fault (reaches_of_type plain reached)
  cases settles with
  | gives ran => exact ⟨_, _, ran.exec_eq⟩
  | halts ran cause =>
    refine absurd cause (harmless fun site t fault types => ?_)
    cases site with
    | typeArg => exact not_misled plain fault
    | type => exact fault
    | _ => cases types
  | sticks cause =>
    refine absurd cause (harmless fun site t fault types => ?_)
    cases site with
    | lambdaParamList => cases types
    | _ => exact fault

/-- Where no `::` stands in the stream, what is tried as the receiver of a method reference is taken back. -/
theorem genericReceiver_none (regular : env.stream.Regular) (bare : ∀ index, env.stream.kindAt index ≠ .colonColon)
    {s : State} (good : s.Good env) : genericReceiver?.exec env Grammar.rule s = some (.ok (none, s)) := by
  obtain ⟨found, t, ran⟩ := type_answers plain regular good
  have trial : ∃ u, receiverTrial.exec env Grammar.rule s = some (.ok (none, u)) := by
    rw [receiverTrial, Program.exec_bind, ran, Program.andThen_ok]
    cases found with
    | none => exact ⟨t, Program.exec_return _ _⟩
    | some type =>
      have away : ((t.cursor env).nth 0 == .colonColon) = false := by
        rw [TokenCursor.nth_eq, beq_eq_false_iff_ne]
        exact bare _
      have looks : Views env (sees .colonColon) fun cursor => cursor.nth 0 == .colonColon := inferInstance
      obtain ⟨u, looked, -⟩ := looks.views t
      refine ⟨u, ?_⟩
      rw [Program.exec_bind, looked, away, Program.andThen_ok]
      exact Program.exec_return _ _
  obtain ⟨u, failed⟩ := trial
  rw [genericReceiver?, speculate, Program.exec_speculate]
  exact congrArg (Option.map _) failed

end Types

end Grammar

end LosslessJava
