import LosslessJava.Proofs.Clean.Expressions

/-! What declarations of types and of their members record where nothing is reported. -/

namespace LosslessJava.Grammar

open LosslessJava.Parser LosslessJava.Shape

set_option synthInstance.maxSize 2000

variable {bounds : Bounds} {s : State}

class PlainForms (forms : List ClauseForm) : Prop where
  holds : ∀ form ∈ forms, form.1.isPlain = true ∧ form.2.isPlain = true

instance : PlainForms [] := ⟨by simp⟩

instance {keyword kind : Kind} {rest : List ClauseForm} [one : Evident keyword.isPlain]
    [other : Evident kind.isPlain] [forms : PlainForms rest] : PlainForms ((keyword, kind) :: rest) :=
  ⟨by simpa using ⟨⟨one.holds, other.holds⟩, fun a b => forms.holds (a, b)⟩⟩

instance {c : Prop} [Decidable c] {one other : Kind} [Plain one] [Plain other] : Plain (if c then one else other) := by
  split <;> infer_instance

private theorem TameWith.always {rule : Rule Kind} (tame : TameWith bounds Plain rule) :
    TameWith bounds AllPlain (do return some (← rule)) where
  draws s := by
    apply (tame.draws s).bind
    intro kind row t _ drawn
    have : Plain kind := drawn.2
    exact .pure ⟨by simpa using drawn.1, inferInstance⟩

instance {keyword : Kind} : Peeks bounds (seesKeyword keyword) := by
  unfold seesKeyword
  infer_instance

/-- The form of a clause that stands here is one of those that were asked for. -/
theorem clauseHere_tame {forms : List ClauseForm} : ∀ {rest : List ClauseForm} {index : Nat},
    (∀ form ∈ rest, form ∈ forms) → TameWith bounds (fun found => ∀ form, found = some form → form.2 ∈ forms)
      (clauseHere index rest)
  | [], index, _ => ⟨fun _ => .pure ⟨.nil, by simp⟩⟩
  | form :: rest, index, among => by
    have here : TameWith bounds (fun found => ∀ form, found = some form → form.2 ∈ forms)
        (Pure.pure (some (index, form))) := ⟨fun _ => .pure ⟨.nil, by simpa using among form (by simp)⟩⟩
    have later := @clauseHere_tame forms rest (index + 1) fun form member => among form (by simp [member])
    unfold clauseHere
    infer_instance

variable [calls : Calls bounds]

instance {forms : List ClauseForm} [plain : PlainForms forms] : Tame bounds (call (.clauses forms)) :=
  call_tame plain.holds fun _ _ _ _ nested => nested

instance : Tame bounds optionalInitializer := by
  unfold optionalInitializer
  infer_instance

instance : Tame bounds variableDeclarators := by
  unfold variableDeclarators
  infer_instance

theorem clauses_tame {forms : List ClauseForm}
    (plain : ∀ form ∈ forms, form.1.isPlain = true ∧ form.2.isPlain = true) : Tame bounds (clauses forms) := by
  have step (last : Option Nat) : Tame bounds (clauseStep forms last) := ⟨fun s => by
    unfold clauseStep
    refine .bind ((clauseHere_tame fun _ member => member).draws s) fun found _ t _ ⟨nested, among⟩ => ?_
    cases found with
    | none => exact .pure ⟨by simpa using nested, trivial⟩
    | some clause =>
      obtain ⟨keyword, kind⟩ := plain _ (among _ rfl)
      have : Evident clause.2.1.isPlain := ⟨keyword⟩
      have : Plain clause.2.2 := ⟨kind⟩
      have := @clause_tame bounds _ clause.2.1 clause.2.2 _ _
      have : Tame bounds (orderedClause clause.2.1 clause.2.2 !(last.any (clause.1 ≤ ·))) := by
        unfold orderedClause
        infer_instance
      refine .bind (this.draws t) fun _ _ _ _ ⟨nested', _⟩ => .pure ?_
      simp only [outline_append, List.append_nil]
      exact ⟨nested.append nested', trivial⟩⟩
  unfold clauses
  infer_instance

instance : Tame bounds throwsClause := by
  unfold throwsClause
  infer_instance

instance : Tame bounds implementsClause := by
  unfold implementsClause
  infer_instance

instance : Tame bounds ellipsisHere := by
  unfold ellipsisHere
  infer_instance

instance : Tame bounds receiver := by
  unfold receiver
  infer_instance

instance : Sorted Kind.isElement .param := ⟨rfl, rfl⟩

instance : Sorted Kind.isElement .receiverParam := ⟨rfl, rfl⟩

instance : Sorted Kind.isElement .recordComponent := ⟨rfl, rfl⟩

instance {kind : Kind} [Sorted Kind.isElement kind] : Supplies bounds Kind.isElement (formalParam kind) := by
  unfold formalParam
  refine .isSome (fun _ => draws_nodeIf_sorted Kind.isElement (.andThen fun _ => ?_)) fun _ => id
  refine .andFound (calls.draws .type trivial) (fun _ => Kind.isElement_of_isType) fun first => ?_
  simp only [Option.isSome_some, if_true]
  infer_instance

instance : Tame bounds paramList := by
  unfold paramList
  infer_instance

instance : Tame bounds defaultValue := by
  unfold defaultValue
  infer_instance

instance {body : Kind} : Tame bounds (defaultValueIn body) := by
  unfold defaultValueIn
  infer_instance

instance : Tame bounds methodBody := by
  unfold methodBody
  infer_instance

instance {body : Kind} : TameWith bounds Plain (methodRest body) := by
  unfold methodRest
  infer_instance

instance : TameWith bounds Plain constructorDecl := by
  unfold constructorDecl
  infer_instance

instance {body : Kind} : TameWith bounds Plain (methodOrField body) := by
  unfold methodOrField
  infer_instance

instance {body : Kind} : TameWith bounds Plain (genericMember body) := by
  unfold genericMember
  infer_instance

instance : Tame bounds classDecl := by
  unfold classDecl
  infer_instance

instance : Tame bounds interfaceDecl := by
  unfold interfaceDecl
  infer_instance

instance : Tame bounds enumDecl := by
  unfold enumDecl
  infer_instance

instance : Tame bounds recordHeader := by
  unfold recordHeader
  infer_instance

instance : Tame bounds recordDecl := by
  unfold recordDecl
  infer_instance

instance : Tame bounds annotationTypeDecl := by
  unfold annotationTypeDecl
  infer_instance

instance : TameWith bounds AllPlain typeDeclRest := by
  unfold typeDeclRest
  refine .andThen fun cursor => ?_
  split
  · split <;> infer_instance
  · infer_instance

instance : Tame bounds typeDecl := by
  unfold typeDecl
  infer_instance

instance {body : Kind} : TameWith bounds AllPlain (memberDeclRest body) := by
  unfold memberDeclRest
  refine .andThen fun cursor => ?_
  have generic : TameWith bounds AllPlain (do return some (← genericMember body)) := .always inferInstance
  have constructor : TameWith bounds AllPlain (do return some (← constructorDecl)) := .always inferInstance
  have method : TameWith bounds AllPlain (do return some (← methodOrField body)) := .always inferInstance
  infer_instance

instance {body : Kind} : Tame bounds (memberDecl body) := by
  unfold memberDecl
  infer_instance

instance {body : Kind} : Tame bounds (member body) := by
  unfold member
  infer_instance

instance : Tame bounds enumConstant := by
  unfold enumConstant
  infer_instance

instance : Tame bounds enumConstants := by
  unfold enumConstants
  infer_instance

instance {body : Kind} : Tame bounds (enumConstantsIn body) := by
  unfold enumConstantsIn
  infer_instance

instance {kind : Kind} [Plain kind] : Tame bounds (bracedBody kind) := by
  unfold bracedBody
  infer_instance

theorem classBody_tame {kind : Kind} [Plain kind] : Tame bounds (classBody kind) := by
  unfold classBody
  infer_instance

end LosslessJava.Grammar
