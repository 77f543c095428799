import LosslessJava.Proofs.Deeper.Declarations

/-! Statements, and what stands at the top of a file, keep to their courses. -/

namespace LosslessJava.Grammar

open LosslessJava.Parser

set_option synthInstance.maxSize 2000

variable {bounds : Bounds} {s t : State} {kind : Kind} [routes : Routes bounds]

section Statements

theorem block_steers : Steers bounds .all block := by
  unfold block
  infer_instance

instance {ending : Rule Unit} [Steers bounds .all ending] : Steers bounds .all (localVarDecl ending) := by
  unfold localVarDecl
  infer_instance

omit routes in
instance : Steers bounds .all statementEnd := by
  unfold statementEnd
  infer_instance

omit routes in
instance {keyword : Kind} {rest : Rule Unit} [Taken .all keyword] [Steers bounds .all rest] :
    Steers bounds .all (keywordStmt kind keyword rest) := by
  unfold keywordStmt
  infer_instance

instance {opened : List OpenIf} : Steers bounds .all (ifLink opened) := by
  unfold ifLink
  infer_instance

omit routes in
instance {branch : Option Mark} : Steers bounds .all (closeBranch branch) := by
  unfold closeBranch
  split <;> infer_instance

omit routes in
instance {opened : List OpenIf} : Steers bounds .all (closeIfs opened) := by
  induction opened with
  | nil =>
    unfold closeIfs
    infer_instance
  | cons link rest ih =>
    unfold closeIfs
    infer_instance

instance : Steers bounds .all ifStmt := by
  unfold ifStmt
  infer_instance

instance : Steers bounds .all exprList := by
  unfold exprList
  infer_instance

instance : Steers bounds .all foreachHeader := by
  unfold foreachHeader
  infer_instance

instance : Steers bounds .all forInit := by
  unfold forInit
  infer_instance

omit routes in
instance {rule : Rule Unit} [Steers bounds .all rule] : Steers bounds .all (unlessSees kind rule) := by
  unfold unlessSees
  infer_instance

instance : Steers bounds .all forHeader := by
  unfold forHeader
  infer_instance

instance : Steers bounds .all loopHeader := by
  unfold loopHeader
  infer_instance

instance : Steers bounds .all forStmt := by
  unfold forStmt
  infer_instance

instance : Steers bounds .all resourceVariable := by
  unfold resourceVariable
  infer_instance

instance : Steers bounds .all resource := by
  unfold resource
  infer_instance

instance : Steers bounds .all resourceSpec := by
  unfold resourceSpec
  infer_instance

instance : Steers bounds .all catchClause := by
  unfold catchClause
  infer_instance

instance : Steers bounds .all catchClauses := by
  unfold catchClauses
  infer_instance

instance : Steers bounds .all optionalResources := by
  unfold optionalResources
  infer_instance

instance : Steers bounds .all tryStmt := by
  unfold tryStmt
  infer_instance

instance : Steers bounds .all plainStatement := by
  unfold plainStatement
  infer_instance

instance : Steers bounds .all nameStatement := by
  unfold nameStatement
  infer_instance

omit routes in
private theorem jumpStmt_onCourse (taken : Course.all.takes (s.current bounds.env) = true) :
    OnCourse bounds .all Never (jumpStmt kind) s := by
  unfold jumpStmt
  refine .discard (.node fun t same => .consumeAnyThen ?_ fun u => Steers.onCourse u) fun _ never => never
  rwa [current_eq, same, ← current_eq]

instance : Steers bounds .all assertMessage := by
  unfold assertMessage
  infer_instance

instance : Steers bounds .all statementHere where
  onCourse s := by
    unfold statementHere
    refine .look fun t still => ?_
    split
    all_goals try exact Steers.onCourse t
    all_goals
      next here => exact jumpStmt_onCourse (by rw [still.current_eq, State.current, here])

theorem statement_steers : Steers bounds .all statement := by
  unfold statement
  infer_instance

end Statements

section Modules

omit routes

instance : Steers bounds .all requiresModifiers := by
  unfold requiresModifiers
  infer_instance

instance : Steers bounds .all targets := by
  unfold targets
  infer_instance

instance : Steers bounds .all implementations := by
  unfold implementations
  infer_instance

instance : Steers bounds .all directiveHead := by
  unfold directiveHead
  infer_instance

instance : Steers bounds .all directiveRest := by
  unfold directiveRest
  refine .andThen fun found => ?_
  split <;> infer_instance

instance : Steers bounds .all directive := by
  unfold directive
  infer_instance

instance : Steers bounds .all moduleBody := by
  unfold moduleBody
  infer_instance

instance : Steers bounds .all optionalOpen := by
  unfold optionalOpen
  infer_instance

instance : Steers bounds .all moduleDecl := by
  unfold moduleDecl
  infer_instance

end Modules

section Items

instance : Steers bounds .all importRest := by
  unfold importRest
  infer_instance

instance {modified : Bool} : Steers bounds .all (topLevelRest modified) := by
  unfold topLevelRest
  infer_instance

instance : Steers bounds .all topLevelItem := by
  unfold topLevelItem
  infer_instance

end Items

end LosslessJava.Grammar
