import LosslessJava.Proofs.Clean.Statements
import LosslessJava.Proofs.Grammar.Inputs

/-! What a whole input records where nothing is reported. -/

namespace LosslessJava.Grammar

open LosslessJava.Parser LosslessJava.Shape

set_option synthInstance.maxSize 2000

variable {bounds : Bounds} {s : State}

section Modules

variable [calls : Calls bounds]

instance : Tame bounds requiresModifiers := by
  unfold requiresModifiers
  infer_instance

instance : Tame bounds targets := by
  unfold targets
  infer_instance

instance : Tame bounds implementations := by
  unfold implementations
  infer_instance

instance : TameWith bounds AllPlain directiveHead := by
  unfold directiveHead
  exact .choice inferInstance <| .choice inferInstance <| .choice inferInstance inferInstance

instance : TameWith bounds AllPlain directiveRest where
  draws s := by
    unfold directiveRest
    have head : TameWith bounds AllPlain directiveHead := inferInstance
    refine .bind (head.draws s) fun found _ t _ ⟨nested, (plain : AllPlain found)⟩ => ?_
    cases found with
    | some kind => exact .bind draws_semicolon fun _ row u _ ⟨same, _⟩ => .pure ⟨by
        subst same
        simpa using nested.append (.plain rfl), plain⟩
    | none => exact .fails

instance : Tame bounds directive := by
  unfold directive
  infer_instance

instance : Tame bounds moduleBody := by
  unfold moduleBody
  infer_instance

instance : Tame bounds optionalOpen := by
  unfold optionalOpen
  infer_instance

instance : Tame bounds moduleDecl := by
  unfold moduleDecl
  infer_instance

end Modules

/-- The rules that have a name record what they promise, however deep they call each other. -/
theorem calls_draw (env : Env) (depth : Nat) : Calls ⟨env, depth⟩ := by
  induction depth with
  | zero =>
    have never {α : Type} {name : Nonterminal α} {s : State} {post : α → List Shape → State → Prop} :
        Draws ⟨env, 0⟩ (call name) s post := fun a t gives => by
      obtain ⟨_, more, _⟩ := gives.call
      cases more
    exact ⟨fun _ _ _ => never, fun _ _ => never⟩
  | succ depth ih =>
    have below {α : Type} {name : Nonterminal α} {s : State} {post : α → List Shape → State → Prop}
        (draws : Draws ⟨env, depth⟩ (rule _ name) s post) : Draws ⟨env, depth + 1⟩ (call name) s post :=
      fun a t gives ready clean => by
        obtain ⟨_, same, gives⟩ := gives.call
        cases same
        exact draws a t gives ready clean
    refine ⟨fun name fit s => below ?_, fun s scanned => below (lambdaParamList_draws scanned)⟩
    cases name with
    | type => exact type_draws
    | typeArg => exact typeArg_draws
    | expression least => exact expression_draws
    | unary => exact unary_draws
    | parenOperand => exact parenOperand_draws
    | simpleName => exact simpleName_draws
    | lambdaParamList => exact fit.elim
    | elementValue => exact (elementValue_tame.draws s).weaken fun _ _ _ _ holds => holds.1
    | arrayInitializer => exact (arrayInitializer_tame.draws s).weaken fun _ _ _ _ holds => holds.1
    | pattern => exact pattern_draws
    | terminator form => exact (terminator_tame.draws s).weaken fun _ _ _ _ holds => holds.1
    | block => exact block_draws
    | statement => exact statement_draws
    | classBody kind =>
      have : Plain kind := ⟨fit⟩
      exact (classBody_tame.draws s).weaken fun _ _ _ _ holds => holds.1
    | clauses forms => exact ((clauses_tame fit).draws s).weaken fun _ _ _ _ holds => holds.1

instance {env : Env} {depth : Nat} : Calls ⟨env, depth⟩ := calls_draw env depth

section Inputs

variable [calls : Calls bounds]

instance : Tame bounds importRest := by
  unfold importRest
  infer_instance

instance {modified : Bool} : TameWith bounds AllPlain (topLevelRest modified) := by
  unfold topLevelRest
  refine .andThen fun cursor => ?_
  infer_instance

instance : Tame bounds topLevelItem := by
  unfold topLevelItem
  infer_instance

theorem compilationUnit_draws : Draws bounds compilationUnit s fun _ row _ =>
    ∃ kind children, row = [.node kind children] := by
  have body : Tame bounds (do
      loop do
        if ← sees .eof then
          return false
        else
          skipUnmoved topLevelItem (.expected "a declaration")
          return true
      consume .eof) := inferInstance
  have node := @draws_node bounds s .compilationUnit _ ((body.draws _).weaken fun _ _ _ _ ⟨nested, _⟩ =>
    Kind.holds_of_isPlain rfl nested)
  exact .discard (node.weaken fun _ _ _ _ ⟨⟨children, _, _, same, _⟩, _⟩ => ⟨_, children, same⟩)

/-- An expression that is a whole input is one node, and nothing stands behind it. -/
theorem expressionRoot_draws : Draws bounds expressionRoot s fun _ row _ =>
    ∃ kind children, row = [.node kind children] := by
  unfold expressionRoot
  refine .discard ((draws_nodeIf (P := fun _ => False) (Q := fun row => ∃ kind children, row = [.node kind children])
    ?_).weaken fun found row t _ holds => ?_)
  · refine draws_foundThen anyExpression_draws fun first row t adds roots sorted => ?_
    refine .look adds fun u still adds => ?_
    split
    · obtain ⟨children, -, -, same, -⟩ := roots
      exact .pure adds ⟨_, children, same⟩
    · next more =>
      have rest : DrawsSince bounds s.start restOfInput u fun _ _ _ => False := by
        unfold restOfInput
        refine .look adds fun v still' adds => ?_
        have same := @State.Still.cursor_eq bounds.env _ _ still
        rw [same, if_neg (by simpa using more)]
        exact .fails
      exact .bind rest fun _ _ _ _ never => never.elim
  · cases found with
    | some first => exact holds.2.elim
    | none => exact holds

end Inputs

end LosslessJava.Grammar
