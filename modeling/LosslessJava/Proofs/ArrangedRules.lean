import LosslessJava.Proofs.Arrangement
import LosslessJava.Proofs.PredictedRuns

/-! The rules of the grammar lead back to where they stand, if those that they call do. -/

namespace LosslessJava.Grammar

open LosslessJava.Parser

def areOrdinary (forms : List ClauseForm) : Bool := forms.all fun form => form.2.isOrdinary

/-- Whether the rule of a name leads back to where it stands. That of a label's end does not, and other rules only
if the kinds that the name tells for nodes are those of nodes that may stand anywhere. -/
@[reducible] def Nonterminal.isOrderly : {α : Type} → Nonterminal α → Bool
  | _, .clauses forms => areOrdinary forms
  | _, .classBody kind => kind.isOrdinary
  | _, .terminator _ => false
  | _, _ => true

def Ending (errors : Errors) (form : Option Kind) (s : State) (answer : Kind × Option Kind) (t : State) : Prop :=
  ∃ ending inside, (∀ ends, Site.Around errors (.entry form ends true) .switchLabel (.label form) inside
      (.entry answer.2 (ends ++ [ending]) true)) ∧
    answer.1 = ending.getD (form.getD .colon) ∧ s.Arranges errors (.label form) inside t

class Terminating (setting : Setting Nonterminal) (form : Option Kind) (rule : Rule (Kind × Option Kind)) : Prop where
  ends : ∀ {calls s answer t steps}, calls = setting.calls →
    Program.Runs setting.env setting.rules calls rule s (.ok (answer, t)) steps → s.Fit setting.env →
      ∀ {errors}, (t.failures setting.env).Grow errors → Ending errors form s answer t

class Arranged (setting : Setting Nonterminal) : Prop extends Forgiving setting where
  rules : setting.rules = rule
  call : ∀ {α : Type} {name : Nonterminal α}, name.isOrderly = true → Arranging setting true (Parser.call name)
  terminator : ∀ form, Terminating setting form (Parser.call (.terminator form))

set_option synthInstance.maxSize 2000

variable {setting : Setting Nonterminal} {quiet : Bool} {α : Type}

section Plain

variable [forgiving : Forgiving setting]

instance {opener closer delimiter : Kind} {what : String} {first : KindSet} {element : Rule Bool} [Evident opener.isQuiet]
    [Evident closer.isQuiet] [Evident delimiter.isQuiet] [Arranging setting quiet element] :
    Arranging setting quiet (delimited opener closer delimiter what first element) := by
  unfold delimited delimitedRound
  infer_instance

instance {rule : Rule Unit} [Arranging setting quiet rule] : Arranging setting quiet (commaSeparated rule) := by
  unfold commaSeparated
  infer_instance

instance {rule : Rule Unit} [Arranging setting quiet rule] {issue : Kind → Issue} :
    Arranging setting quiet (skipUnmoved rule issue) := by
  unfold skipUnmoved
  infer_instance

instance {closer : Kind} {rule : Rule Unit} [Arranging setting quiet rule] :
    Arranging setting quiet (listUntil closer rule) := by
  unfold listUntil
  infer_instance

instance {recovery : KindSet} : Arranging setting quiet (semicolon recovery) := by
  unfold semicolon
  infer_instance

instance {kind : Kind} {rule : Rule Unit} [Arranging setting quiet rule] :
    Arranging setting quiet (unlessSees kind rule) := by
  unfold unlessSees
  infer_instance

instance : Arranging setting quiet qualifiedName := by
  unfold qualifiedName
  infer_instance

instance : Arranging setting quiet seesAnnotation := by
  unfold seesAnnotation
  infer_instance

instance : Arranging setting quiet seesDims := by
  unfold seesDims
  infer_instance

instance : Arranging setting quiet emptyBrackets := by
  unfold emptyBrackets
  infer_instance

end Plain

variable [arranged : Arranged setting]

section Calls

private theorem call_arranging {name : Nonterminal α} (orderly : name.isOrderly = true) : Arranging setting quiet (call name) := by
  cases quiet with
  | true => exact arranged.call orderly
  | false => exact (arranged.call orderly).loud

instance {name : Nonterminal α} [orderly : Evident name.isOrderly] : Arranging setting quiet (call name) :=
  call_arranging orderly.holds

end Calls

section Steps

open State (Arranges failures_grow)

@[reducible] def isQuietSet (kinds : KindSet) : Bool := !kinds.contains .colon && !kinds.contains .arrow

omit arranged in
theorem call_of_runs {name : Nonterminal α} {calls steps : Nat} {s : State} {r : Result α}
    (run : Program.Runs setting.env setting.rules calls (call name) s r steps) :
    ∃ below rest, calls = below + 1 ∧ Program.Runs setting.env setting.rules below (setting.rules α name) s r rest := by
  cases run with
  | call body => exact ⟨_, _, rfl, body⟩

theorem views_of_runs {rule : Rule α} {answer : TokenCursor → α} [views : Views setting.env rule answer] {calls steps : Nat}
    {s t : State} {a : α} (run : Program.Runs setting.env setting.rules calls rule s (.ok (a, t)) steps) :
    a = answer (s.cursor setting.env) ∧ Tried s t := by
  obtain ⟨u, ran, tried⟩ := views.views s
  have same := run.exec_eq
  rw [arranged.rules, ran] at same
  cases same
  exact ⟨rfl, tried⟩

theorem Tried.fit {env : Env} {s t : State} (tried : Tried s t) (fit : s.Fit env) : t.Fit env := by
  rw [Tried] at tried
  rw [tried]
  exact ⟨⟨fit.good.inside, fit.good.ended, fit.good.strict⟩, fit.placed, fit.ranged, fit.tight⟩

private theorem quiet_of_contains {kinds : KindSet} (silent : isQuietSet kinds = true) {kind : Kind} (member : kinds.contains kind = true) :
    kind.isQuiet = true := by
  simp only [isQuietSet, Bool.and_eq_true, Bool.not_eq_true'] at silent
  cases kind with
  | colon => exact silent.1.symm.trans member
  | arrow => exact silent.2.symm.trans member
  | _ => rfl

variable {calls steps : Nat} {errors : Errors} {site : Site} {s t : State} {a : α} {kinds : KindSet} {next : Unit → Rule α}

private theorem consumeThen_arranges (silent : isQuietSet kinds = true) (member : kinds.contains (s.current setting.env) = true)
    (later : ∀ u, Arranging setting quiet (next u)) (same : calls = setting.calls)
    (run : Program.Runs setting.env setting.rules calls (consumeAny >>= next) s (.ok (a, t)) steps) (fit : s.Fit setting.env)
    (grow : (t.failures setting.env).Grow errors) (hosts : site.Hosts quiet) : s.Arranges errors site site t := by
  obtain ⟨_, u, _, _, consumed, run⟩ := bind_of_runs run rfl
  have first : s.Arranges errors site site u := by
    cases act_of_runs consumed
    unfold State.consumeAny
    split
    · exact .refl
    · exact State.pushToken_arranges (quiet_of_contains silent member ▸ hosts.loud)
  exact first.trans ((later _).arranges same run rfl (fit.later arranged.regular consumed (first.tight fit.tight)) grow hosts)

private theorem seesAny_arranging {other : Rule α} (silent : isQuietSet kinds = true) (later : ∀ u, Arranging setting quiet (next u))
    (otherwise : Arranging setting quiet other) :
    Arranging setting quiet (seesAny kinds >>= fun found => if found = true then consumeAny >>= next else other) :=
  .of_steps fun same run fit grow hosts => by
    obtain ⟨found, u, _, _, looked, run⟩ := bind_of_runs run rfl
    obtain ⟨rfl, tried⟩ := views_of_runs looked
    have fit := tried.fit fit
    refine (Arranges.of_events tried.events).trans ?_
    split at run
    · next member =>
      have here : kinds.contains (u.current setting.env) = true := tried.current ▸ member
      exact consumeThen_arranges silent here later same run fit grow hosts
    · exact otherwise.arranges same run rfl fit grow hosts

end Steps

section Names

instance : Arranging setting quiet annotationArgs := by
  unfold annotationArgs elementValuePair
  infer_instance

instance : Arranging setting quiet annotation := by
  unfold annotation
  infer_instance

instance : Arranging setting quiet elementValue := by
  unfold elementValue
  infer_instance

instance : Arranging setting quiet annotations := by
  unfold annotations
  infer_instance

/-- A modifier stands where it is seen to stand. -/
instance : Arranging setting quiet modifier := by
  unfold modifier
  refine .andThen fun annotated => ?_
  split
  · infer_instance
  · refine .of_steps fun {_ s _ _ _ _ _} same run fit grow hosts => ?_
    obtain ⟨c, u, _, _, looked, run⟩ := bind_of_runs run rfl
    cases act_of_runs looked
    split at run
    · next member => exact consumeThen_arranges (by decide +kernel) member (fun _ => inferInstance) same run fit grow hosts
    · exact Arranging.arranges same run rfl fit grow hosts

instance : Arranging setting quiet modifiers := by
  unfold modifiers
  infer_instance

end Names

section Types

instance : Arranging setting quiet seesWildcard := by
  unfold seesWildcard
  infer_instance

instance : Arranging setting quiet typeArg := by
  unfold typeArg wildcard wildcardBound
  infer_instance

instance : Arranging setting quiet typeArgs := by
  unfold typeArgs
  infer_instance

instance : Arranging setting quiet classTypeSegment := by
  unfold classTypeSegment
  dsimp only
  infer_instance

instance : Arranging setting quiet classTypeSegments := by
  unfold classTypeSegments
  infer_instance

instance : Arranging setting quiet elementType := by
  have segments (annotated : Bool) : Arranging setting quiet (do
      if ← seesAny First.primitiveType then
        consumeAny
        return some .primitiveType
      else if ← sees .identifier then
        classTypeSegments
        return some .classType
      else
        expectedHere "type"
        return if annotated then some .error else none : Rule (Option Kind)) :=
    seesAny_arranging (by decide +kernel) (fun _ => inferInstance) inferInstance
  unfold elementType
  infer_instance

instance {node : Completed} : Arranging setting quiet (arraySuffix node) := by
  unfold arraySuffix
  infer_instance

instance : Arranging setting quiet type := by
  unfold type
  refine .deeper (.andThen fun found => ?_)
  split <;> infer_instance

instance : Arranging setting quiet dims := by
  unfold dims
  infer_instance

instance : Arranging setting quiet resultType := by
  unfold resultType
  infer_instance

instance {operator : Kind} [Evident operator.isQuiet] : Arranging setting quiet (typesAfter operator) := by
  unfold typesAfter
  infer_instance

instance : Arranging setting quiet typeParams := by
  unfold typeParams typeParam typeBound
  infer_instance

instance {keyword kind : Kind} [ordinary : Evident kind.isOrdinary] : Arranging setting quiet (clause keyword kind) := by
  unfold clause consumeKeyword
  infer_instance

instance {operator kind : Kind} [Evident operator.isQuiet] [ordinary : Evident kind.isOrdinary] : Arranging setting quiet (compoundType operator kind) := by
  unfold compoundType
  refine .andThen fun found => ?_
  split <;> infer_instance

instance : Arranging setting quiet pattern := by
  unfold pattern parenPattern typedPattern patternList
  infer_instance

end Types

end LosslessJava.Grammar
