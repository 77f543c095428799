import LosslessJava.Proofs.Clean.Inputs
import LosslessJava.Proofs.Deeper.Expressions

/-! Declarations keep to their courses. -/

namespace LosslessJava.Grammar

open LosslessJava.Parser

set_option synthInstance.maxSize 2000

variable {bounds : Bounds} {s t : State} {kind : Kind} [routes : Routes bounds]

section Clauses

class UnpairedForms (forms : List ClauseForm) : Prop where
  holds : ∀ form ∈ forms, form.1.isUnpaired = true

instance : UnpairedForms [] := ⟨by simp⟩

instance {keyword kind : Kind} {rest : List ClauseForm} [one : Evident keyword.isUnpaired] [forms : UnpairedForms rest] :
    UnpairedForms ((keyword, kind) :: rest) :=
  ⟨by simpa using ⟨one.holds, fun a b => forms.holds (a, b)⟩⟩

instance {forms : List ClauseForm} [unpaired : UnpairedForms forms] : Steers bounds .all (call (.clauses forms)) :=
  routes.steers _ unpaired.holds fun _ late => late

omit routes in
private theorem clauseHere_steers {forms : List ClauseForm} {index : Nat} : Steers bounds .all (clauseHere index forms) := by
  have sees (keyword : Kind) : Steers bounds .all (seesKeyword keyword) := by
    unfold seesKeyword
    infer_instance
  induction forms generalizing index with
  | nil =>
    unfold clauseHere
    infer_instance
  | cons form rest ih =>
    have later : Steers bounds .all (clauseHere (index + 1) rest) := ih
    unfold clauseHere
    infer_instance

private theorem orderedClause_steers {keyword : Kind} {inOrder : Bool} [Taken .all keyword] :
    Steers bounds .all (orderedClause keyword kind inOrder) := by
  unfold orderedClause clause consumeKeyword
  infer_instance

theorem clauses_steers {forms : List ClauseForm} (unpaired : ∀ form ∈ forms, form.1.isUnpaired = true) :
    Steers bounds .all (clauses forms) := by
  have step (last : Option Nat) : Steers bounds .all (clauseStep forms last) := ⟨fun s => by
    have among : Smooth bounds (clauseHere 0 forms) s fun found _ => ∀ form, found = some form → form.2 ∈ forms :=
      .of_draws ((clauseHere_tame fun _ member => member).draws s) fun _ _ _ _ holds => holds.2
    unfold clauseStep
    refine .bind among (clauseHere_steers.onCourse s) fun found t among => ?_
    cases found with
    | none => exact .pure
    | some clause =>
      have taken : Taken .all clause.2.1 := ⟨takes_of_unpaired (unpaired _ (among _ rfl))⟩
      have one : Steers bounds .all (orderedClause clause.2.1 clause.2.2 !(last.any (clause.1 ≤ ·))) := orderedClause_steers
      exact Steers.onCourse t⟩
  unfold clauses
  infer_instance

instance : Steers bounds .all throwsClause := by
  unfold throwsClause
  infer_instance

instance : Steers bounds .all implementsClause := by
  unfold implementsClause
  infer_instance

end Clauses

section Members

instance : Steers bounds .all optionalInitializer := by
  unfold optionalInitializer
  infer_instance

instance : Steers bounds .all variableDeclarators := by
  unfold variableDeclarators
  infer_instance

instance : Steers bounds .all ellipsisHere := by
  unfold ellipsisHere
  infer_instance

instance : Steers bounds .all receiver := by
  unfold receiver
  infer_instance

instance : Steers bounds .all (formalParam kind) := by
  unfold formalParam
  infer_instance

instance : Steers bounds .all paramList := by
  unfold paramList
  infer_instance

instance : Steers bounds .all defaultValue := by
  unfold defaultValue
  infer_instance

instance : Steers bounds .all (defaultValueIn kind) := by
  unfold defaultValueIn
  infer_instance

instance : Steers bounds .all methodBody := by
  unfold methodBody
  infer_instance

instance : Steers bounds .all (methodRest kind) := by
  unfold methodRest
  infer_instance

instance : Steers bounds .all constructorDecl := by
  unfold constructorDecl
  infer_instance

instance : Steers bounds .all (methodOrField kind) := by
  unfold methodOrField
  infer_instance

instance : Steers bounds .all (genericMember kind) := by
  unfold genericMember
  infer_instance

end Members

section Types

instance : Steers bounds .all classDecl := by
  unfold classDecl
  infer_instance

instance : Steers bounds .all interfaceDecl := by
  unfold interfaceDecl
  infer_instance

instance : Steers bounds .all enumDecl := by
  unfold enumDecl
  infer_instance

instance : Steers bounds .all recordHeader := by
  unfold recordHeader
  infer_instance

instance : Steers bounds .all recordDecl := by
  unfold recordDecl
  infer_instance

instance : Steers bounds .all annotationTypeDecl := by
  unfold annotationTypeDecl
  infer_instance

instance : Steers bounds .all typeDeclRest := by
  unfold typeDeclRest
  refine .andThen fun cursor => ?_
  split
  · split <;> infer_instance
  · infer_instance

instance : Steers bounds .all typeDecl := by
  unfold typeDecl
  infer_instance

instance : Steers bounds .all (memberDeclRest kind) := by
  unfold memberDeclRest
  infer_instance

instance : Steers bounds .all (memberDecl kind) := by
  unfold memberDecl
  infer_instance

instance : Steers bounds .all (member kind) := by
  unfold member
  infer_instance

instance : Steers bounds .all enumConstant := by
  unfold enumConstant
  infer_instance

instance : Steers bounds .all enumConstants := by
  unfold enumConstants
  infer_instance

instance : Steers bounds .all (enumConstantsIn kind) := by
  unfold enumConstantsIn
  infer_instance

instance : Steers bounds .all (bracedBody kind) := by
  unfold bracedBody
  infer_instance

theorem classBody_steers : Steers bounds .all (classBody kind) := by
  unfold classBody
  infer_instance

end Types

end LosslessJava.Grammar
