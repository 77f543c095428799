import LosslessJava.Proofs.Compositional

/-! The rules of the grammar, gone through once for every property that is passed on by the ways to put
rules together. -/

namespace LosslessJava.Grammar

open LosslessJava.Parser

set_option synthInstance.maxSize 2000

/-- Whether a rule looks for no more than three forms of clauses, as all rules of the grammar do. -/
@[reducible] def Nonterminal.isShort : {α : Type} → Nonterminal α → Bool
  | _, .clauses (_ :: _ :: _ :: _ :: _) => false
  | _, _ => true

class Callable (property : Compositional Nonterminal) : Prop where
  call {here height} {α : Type} {name : Nonterminal α} (short : name.isShort = true) :
    property.Holds here height (.call name)

/-- The property holds of the rules as well that are not made of others alone: the chains of `if`, which are closed
link by link, and the two rules that ask whether lambdas are restricted. -/
class Links (property : Compositional Nonterminal) : Prop extends Callable property where
  ifStmt {here height} : property.Holds here (height + 30) ifStmt
  nameExpr {here height} : property.Holds here (height + 30) nameExpr
  parenOperand {here height} : property.Holds here (height + 66) parenOperand

variable {property : Compositional Nonterminal} {here : Known} {height : Nat} {α : Type}

section Calls

variable [callable : Callable property]

instance {name : Nonterminal α} [short : Evident name.isShort] : Has property here height (call name) :=
  ⟨callable.call short.holds⟩

instance {opener closer delimiter : Kind} {what : String} {first : KindSet} {element : Rule Bool} [Has property .nothing (height + 9) element] :
    Has property here (height + 16) (delimited opener closer delimiter what first element) := by
  unfold delimited delimitedRound
  infer_instance

instance {rule : Rule Unit} [Has property .nothing (height + 4) rule] :
    Has property here (height + 7) (commaSeparated rule) := by
  unfold commaSeparated
  infer_instance

instance {rule : Rule Unit} [Has property .nothing (height + 3) rule] {issue : Kind → Issue}
    [∀ found, Evident (issue found).goesOn] : Has property here (height + 5) (skipUnmoved rule issue) := by
  unfold skipUnmoved
  infer_instance

instance {closer : Kind} {rule : Rule Unit} [Has property .nothing (height + 3) rule] :
    Has property here (height + 9) (listUntil closer rule) := by
  unfold listUntil
  infer_instance

instance {recovery : KindSet} : Has property here (height + 7) (semicolon recovery) := by
  unfold semicolon
  infer_instance

instance : Has property here (height + 13) qualifiedName := by
  unfold qualifiedName
  infer_instance

instance : Has property here (height + 4) seesAnnotation := by
  unfold seesAnnotation
  infer_instance

instance : Has property here (height + 31) annotation := by
  unfold annotation annotationArgs elementValuePair
  infer_instance

instance : Has property here (height + 35) annotations := by
  unfold annotations
  infer_instance

instance : Has property here (height + 33) elementValue := by
  unfold elementValue
  infer_instance

instance : Has property here (height + 33) modifier := by
  refine .andThen fun annotated => ?_
  split
  · infer_instance
  · refine .look (fun alike => by
      simp only [alike.current, isSealed_alike alike, isNonSealed_alike alike]) fun cursor => ?_
    split
    · infer_instance
    · split
      · next word =>
        simp only [isSealed, Bool.and_eq_true] at word
        exact .stands word.1 inferInstance
      · split
        · next words =>
          have : Has property (.place cursor) (height + 30) (join .nonSealedKw 3) := .join (.nonSealed words)
          infer_instance
        · infer_instance

instance : Has property here (height + 39) modifiers := by
  unfold modifiers
  infer_instance

instance : Has property here (height + 4) seesDims := by
  unfold seesDims
  infer_instance

instance : Has property here (height + 1) emptyBrackets := by
  unfold emptyBrackets
  infer_instance

instance : Has property here (height + 5) seesWildcard := by
  have wildcard : Has property .nothing (height + 3) (do
      let cursor ← cursor
      return annotationsThen cursor .question 0) :=
    .look (fun alike => by simp only [annotationsThen_alike alike]) fun _ => inferInstance
  unfold seesWildcard
  infer_instance

instance : Has property here (height + 43) typeArg := by
  unfold typeArg wildcard wildcardBound
  infer_instance

instance : Has property here (height + 21) typeArgs := by
  unfold typeArgs
  infer_instance

instance : Has property here (height + 45) classTypeSegments := by
  unfold classTypeSegments classTypeSegment
  dsimp only
  infer_instance

instance : Has property here (height + 52) elementType := by
  unfold elementType
  infer_instance

instance {node : Completed} : Has property here (height + 7) (arraySuffix node) := by
  unfold arraySuffix
  infer_instance

instance : Has property here (height + 54) type := by
  unfold type
  refine .deeper (.andThen fun found => ?_)
  split <;> infer_instance

instance : Has property here (height + 12) dims := by
  unfold dims
  infer_instance

instance : Has property here (height + 5) resultType := by
  unfold resultType
  infer_instance

instance {operator : Kind} : Has property here (height + 7) (typesAfter operator) := by
  unfold typesAfter
  infer_instance

instance : Has property here (height + 51) typeParams := by
  unfold typeParams typeParam typeBound
  infer_instance

def contextual? (keyword : Kind) : Option Kind := if keyword.isContextualKeyword then some keyword else none

instance {keyword kind : Kind} : Has property (.ofWord (contextual? keyword)) (height + 12) (clause keyword kind) := by
  unfold clause consumeKeyword contextual?
  split
  · show Has property (.word keyword) _ _
    infer_instance
  · show Has property .nothing _ _
    infer_instance

instance {operator kind : Kind} : Has property here (height + 13) (compoundType operator kind) := by
  unfold compoundType
  refine .andThen fun found => ?_
  split <;> infer_instance

instance : Has property here (height + 45) pattern := by
  unfold pattern parenPattern typedPattern patternList
  infer_instance

instance : Has property here height anyExpression := by
  unfold anyExpression
  infer_instance

instance : Has property here (height + 12) condition := by
  unfold condition
  infer_instance

instance : Has property here (height + 13) exprStmt := by
  unfold exprStmt exprAndSemicolon
  infer_instance

instance {node : Completed} : Has property here (height + 7) (guardedPattern node) := by
  unfold guardedPattern
  infer_instance

instance : Has property here (height + 10) caseItem := by
  unfold caseItem
  refine .andThen fun _ => ?_
  split
  · infer_instance
  · refine .andThen fun _ => ?_
    split
    · refine .andThen fun found => ?_
      split <;> infer_instance
    · infer_instance

instance : Has property here (height + 14) caseItems := by
  unfold caseItems optionalGuard
  infer_instance

instance {form : Option Kind} : Has property here (height + 5) (terminator form) := by
  unfold terminator
  dsimp only
  infer_instance

instance {form : Option Kind} : Has property here (height + 20) (switchLabel form) := by
  unfold switchLabel labelHead
  infer_instance

instance : Has property here (height + 4) seesLabel := by
  unfold seesLabel
  infer_instance

instance : Has property here (height + 14) ruleBody := by
  unfold ruleBody
  refine .andThen fun kind => ?_
  split <;> infer_instance

instance {form : Option Kind} : Has property here (height + 27) (switchEntry form) := by
  unfold switchEntry moreLabels groupStatements
  infer_instance

instance {form : Option Kind} : Has property here (height + 31) (nextEntry form) := by
  unfold nextEntry entryOrError
  infer_instance

instance : Has property here (height + 40) switchBlock := by
  unfold switchBlock
  infer_instance

instance : Has property here (height + 45) switchExpr := by
  unfold switchExpr
  infer_instance

instance : Has property here (height + 21) argList := by
  unfold argList
  infer_instance

instance : Has property here (height + 4) variableInitializer := by
  unfold variableInitializer
  infer_instance

instance : Has property here (height + 22) arrayInitializer := by
  unfold arrayInitializer
  infer_instance

instance : Has property here (height + 59) lambdaParamList := by
  unfold lambdaParamList lambdaElement lambdaParam
  infer_instance

instance : Has property here (height + 11) lambdaExpr := by
  unfold lambdaExpr lambdaParams
  infer_instance

instance {node : Completed} : Has property here (height + 26) (methodRef node) := by
  unfold methodRef reference
  infer_instance

instance {node : Completed} : Has property here (height + 28) (typeLiteralSuffix node) := by
  unfold typeLiteralSuffix
  infer_instance

instance : Has property here (height + 18) arrayCreationRest := by
  unfold arrayCreationRest dimExpr
  infer_instance

instance : Has property here (height + 23) objectCreationRest := by
  unfold objectCreationRest
  infer_instance

instance : Has property here (height + 55) creation := by
  unfold creation
  infer_instance

instance : Has property here (height + 3) genericCallName := by
  unfold genericCallName
  refine .andThen fun kind => ?_
  split <;> infer_instance

instance : Has property here (height + 24) genericCallRest := by
  unfold genericCallRest
  infer_instance

instance {kind : Kind} : Has property here (height + 23) (callOr kind) := by
  unfold callOr
  infer_instance

instance : Has property here (height + 56) selected := by
  unfold selected
  refine .andThen fun kind => ?_
  split <;> infer_instance

instance {node : Completed} : Has property here (height + 61) (postfixStep node) := by
  unfold postfixStep dotSuffix arrayAccess subscript
  refine .andThen fun kind => ?_
  split <;> infer_instance

instance {node : Completed} : Has property here (height + 5) (incrementStep node) := by
  unfold incrementStep
  refine .andThen fun kind => ?_
  split <;> infer_instance

instance {node : Completed} : Has property here (height + 63) (postfixExpr node) := by
  unfold postfixExpr
  infer_instance

instance : Has property here (height + 6) genericReceiver? := by
  unfold genericReceiver?
  refine .tried (.andThen fun found => ?_)
  split <;> infer_instance

instance : Has property here (height + 32) simpleName := by
  unfold simpleName plainName
  refine .andThen fun next => .andThen fun literal => ?_
  split
  · refine .andThen fun found => ?_
    split <;> infer_instance
  · infer_instance

/-- An expression that begins with a name, of which it is known what stands behind the name and whether lambdas are
restricted. -/
def nameExprBefore (next : Kind) (barred : Bool) : Rule (Option Completed) := do
  if next = .arrow ∧ ¬ barred then
    return some (← lambdaExpr)
  else if next = .lt then
    match ← genericReceiver? with
    | some type => return some (← methodRef type)
    | none => call .simpleName
  else
    call .simpleName

private theorem nameExpr_eq : nameExpr = nth 1 >>= fun next => .act .noLambda >>= nameExprBefore next := rfl

instance {next : Kind} {barred : Bool} : Has property here (height + 28) (nameExprBefore next barred) := by
  unfold nameExprBefore
  split
  · infer_instance
  · split
    · refine .andThen fun found => ?_
      split <;> infer_instance
    · infer_instance

theorem nameExpr_has (asked : ∀ {here height}, Has property here height (.act .noLambda)) :
    Has property here (height + 30) nameExpr := by
  rw [nameExpr_eq]
  exact .andThen fun next => @Has.andThen _ _ _ _ _ _ _ _ asked fun barred => inferInstance

instance {kind plain : Kind} : Has property here (height + 26) (selfExpr kind plain) := by
  unfold selfExpr
  infer_instance

instance : Has property here (height + 27) genericSelfCall := by
  unfold genericSelfCall genericSelfName
  infer_instance

instance : Has property here (height + 7) missingExpression := by
  unfold missingExpression
  dsimp only
  infer_instance

instance : Has property here (height + 30) literalType := by
  unfold literalType
  refine .andThen fun found => ?_
  split <;> infer_instance

instance : Has property here (height + 18) castExpr := by
  unfold castExpr intersectionType
  infer_instance

instance : Has property here (height + 11) parenExpr := by
  unfold parenExpr
  infer_instance

instance {kind : ParenKind} : Has property here (height + 65) (operandOf kind) := by
  unfold operandOf
  split <;> infer_instance

theorem parenOperand_has (asked : ∀ {here height}, Has property here height (.act .noLambda)) :
    Has property here (height + 66) parenOperand := by
  unfold parenOperand
  have kind : Has property here (height + 65) parenKindHere := .parenKindHere
  infer_instance

instance : Has property here (height + 6) prefixExpr := by
  unfold prefixExpr
  infer_instance

instance : Has property here (height + 5) instanceofTarget := by
  unfold instanceofTarget
  infer_instance

private theorem operation_has {op : Operator} {cursor : TokenCursor} (found : Operator.at? cursor = some op) :
    Has property (.place cursor) (height + 9) (operation op) := by
  have joined : Has property (.place cursor) (height + 8) (join op.kind op.rawCount) := .join (.operator found)
  unfold operation
  split <;> infer_instance

instance {least : Power} {node : Completed} : Has property here (height + 13) (operatorStep least node) := by
  unfold operatorStep
  refine .look (fun alike => by simp only [operator_alike alike]) fun cursor => ?_
  split
  · next op found =>
    have operates : Has property (.place cursor) (height + 9) (operation op) := operation_has found
    infer_instance
  · infer_instance

instance : Has property here (height + 21) variableDeclarators := by
  unfold variableDeclarators optionalInitializer
  infer_instance

instance {keyword : Kind} : Has property here (height + 3) (seesKeyword keyword) := by
  unfold seesKeyword
  infer_instance

instance {keyword kind : Kind} {inOrder : Bool} :
    Has property (.ofWord (contextual? keyword)) (height + 13) (orderedClause keyword kind inOrder) := by
  unfold orderedClause
  split
  · infer_instance
  · exact .told (fun _ => contextual? keyword) tells_report fun _ => inferInstance

private theorem tells_seesKeyword {keyword : Kind} :
    (seesKeyword keyword).Tells here fun found => if found then contextual? keyword else none := by
  unfold seesKeyword contextual?
  split
  · exact tells_seesWord
  · intro _ _ _ _ found _ _ _
    cases found <;> trivial

def clauseWord? (answer : Option (Nat × ClauseForm)) : Option Kind := answer.bind fun (_, form) => contextual? form.1

private theorem tells_clauseHere {forms : List ClauseForm} {index : Nat} : (clauseHere index forms).Tells here clauseWord? := by
  intro env rules s t answer lenient known ran
  induction forms generalizing here index s with
  | nil =>
    cases ran.symm.trans (Program.exec_return _ _)
    trivial
  | cons form rest ih =>
    unfold clauseHere at ran
    rw [Program.exec_bind] at ran
    rcases looked : (seesKeyword form.1).exec env rules s with _ | halt | ⟨_ | _, u⟩ <;> rw [looked] at ran
    · cases ran
    · cases ran
    · exact @ih .nothing _ _ trivial ran
    · cases ran.symm.trans (Program.exec_return _ _)
      exact tells_seesKeyword lenient known looked

omit callable in
private theorem clauseHere_has {forms : List ClauseForm} {index : Nat} :
    Has property here (height + forms.length + 3) (clauseHere index forms) := by
  induction forms generalizing here index with
  | nil => exact inferInstanceAs (Has property here _ (Pure.pure none))
  | cons form rest ih =>
    unfold clauseHere
    exact .andThen fun _ => inferInstance

private theorem length_le_of_isShort {forms : List ClauseForm} (short : (Nonterminal.clauses forms).isShort = true) :
    forms.length ≤ 3 := by
  match forms with
  | [] | [_] | [_, _] | [_, _, _] => simp
  | _ :: _ :: _ :: _ :: _ => cases short

private theorem clauses_has {forms : List ClauseForm} (short : (Nonterminal.clauses forms).isShort = true) :
    Has property here (height + 17) (clauses forms) := by
  have few := length_le_of_isShort short
  have found : Has property .nothing (height + 14) (clauseHere 0 forms) := by
    rw [show height + 14 = height + (11 - forms.length) + forms.length + 3 by omega]
    exact clauseHere_has
  have round (last : Option Nat) : Has property .nothing (height + 15) (clauseStep forms last) := by
    refine .told clauseWord? tells_clauseHere fun answer => ?_
    cases answer with
    | none => infer_instance
    | some given =>
      obtain ⟨index, keyword, kind⟩ := given
      show Has property (.ofWord (contextual? keyword)) _ _
      infer_instance
  unfold clauses
  infer_instance

instance : Has property here height throwsClause := by
  unfold throwsClause
  infer_instance

instance : Has property here height implementsClause := by
  unfold implementsClause
  infer_instance

instance {kind : Kind} : Has property here (height + 45) (formalParam kind) := by
  unfold formalParam receiver ellipsisHere
  infer_instance

instance : Has property here (height + 57) paramList := by
  unfold paramList
  infer_instance

instance : Has property here (height + 6) methodBody := by
  unfold methodBody
  infer_instance

instance {body : Kind} : Has property here (height + 58) (methodRest body) := by
  unfold methodRest defaultValueIn defaultValue
  infer_instance

instance : Has property here (height + 59) constructorDecl := by
  unfold constructorDecl
  infer_instance

instance {body : Kind} : Has property here (height + 61) (methodOrField body) := by
  unfold methodOrField
  infer_instance

instance {body : Kind} : Has property here (height + 62) (genericMember body) := by
  unfold genericMember
  infer_instance

instance : Has property here (height + 55) classDecl := by
  unfold classDecl
  infer_instance

instance : Has property here (height + 55) interfaceDecl := by
  unfold interfaceDecl
  infer_instance

instance : Has property here (height + 8) enumDecl := by
  unfold enumDecl
  infer_instance

instance : Has property (.word .recordKw) (height + 61) recordDecl := by
  unfold recordDecl recordHeader
  infer_instance

instance : Has property here (height + 9) annotationTypeDecl := by
  unfold annotationTypeDecl
  infer_instance

instance : Has property here (height + 63) typeDeclRest := by
  unfold typeDeclRest
  refine .look (fun alike => by simp only [isTypeDecl_alike alike, alike.current]) fun cursor => ?_
  split
  · next decl =>
    split
    case h_5 notClass notInterface notEnum notSign =>
      have record : isWordAt cursor 0 .recordKw = true := by
        unfold isTypeDecl at decl
        split at decl
        · contradiction
        · contradiction
        · contradiction
        · contradiction
        · simp only [isRecordDecl, Bool.and_eq_true] at decl
          exact decl.1.1
        · cases decl
      exact .stands record inferInstance
    all_goals infer_instance
  · infer_instance

instance : Has property here (height + 67) typeDecl := by
  unfold typeDecl
  infer_instance

instance {body : Kind} : Has property here (height + 64) (memberDeclRest body) := by
  unfold memberDeclRest
  exact .look (fun alike => by simp only [isTypeDecl_alike alike, alike.current, alike.nth]) fun _ => inferInstance

instance {body : Kind} : Has property here (height + 68) (memberDecl body) := by
  unfold memberDecl
  infer_instance

instance {body : Kind} : Has property here (height + 70) (member body) := by
  unfold member
  infer_instance

instance : Has property here (height + 50) enumConstants := by
  unfold enumConstants enumConstant
  infer_instance

instance {body : Kind} : Has property here (height + 84) (bracedBody body) := by
  unfold bracedBody enumConstantsIn
  infer_instance

instance {body : Kind} : Has property here (height + 87) (classBody body) := by
  unfold classBody
  infer_instance

instance : Has property here (height + 17) block := by
  unfold block
  infer_instance

instance {rule : Rule Unit} [Has property .nothing (height + 38) rule] :
    Has property here (height + 45) (localVarDecl rule) := by
  unfold localVarDecl
  infer_instance

instance : Has property here (height + 7) statementEnd := by
  unfold statementEnd
  infer_instance

instance {kind keyword : Kind} {rule : Rule Unit} [Has property .nothing height rule] :
    Has property here (height + 5) (keywordStmt kind keyword rule) := by
  unfold keywordStmt
  infer_instance

instance {opened : List OpenIf} : Has property here (height + 15) (ifLink opened) := by
  unfold ifLink
  infer_instance

instance : Has property here (height + 7) exprList := by
  unfold exprList
  infer_instance

instance {kind : Kind} {rule : Rule Unit} [Has property .nothing (height + 3) rule] :
    Has property here (height + 4) (unlessSees kind rule) := by
  unfold unlessSees
  infer_instance

instance : Has property here (height + 61) forStmt := by
  unfold forStmt loopHeader forHeader forInit foreachHeader
  infer_instance

instance : Has property here (height + 57) resourceSpec := by
  unfold resourceSpec resource resourceVariable
  infer_instance

instance : Has property here (height + 52) catchClause := by
  unfold catchClause unionType
  infer_instance

instance : Has property here (height + 65) tryStmt := by
  unfold tryStmt optionalResources catchClauses
  infer_instance

instance : Has property here (height + 73) plainStatement := by
  unfold plainStatement
  infer_instance

instance : Has property here (height + 74) nameStatement := by
  unfold nameStatement
  refine .look (fun alike => by simp only [alike.nth, isYieldStmt_alike alike, alike.isWordAt]) fun cursor => ?_
  split
  · infer_instance
  · split
    · next word =>
      simp only [isYieldStmt, Bool.and_eq_true] at word
      exact .stands word.1 inferInstance
    · infer_instance

instance {kind : Kind} : Has property here (height + 13) (jumpStmt kind) := by
  unfold jumpStmt
  infer_instance

instance : Has property here (height + 5) assertMessage := by
  unfold assertMessage
  infer_instance

section

variable (flat : ∀ {other : Known} {height more : Nat} {α : Type} {rule : Rule α},
  property.Holds .nothing height rule → property.Holds other more rule)

include flat

/-- A property that does not depend on the height, nor on knowing the cursor, holds of the chains of `if` if
it holds of the rules they call. -/
theorem ifStmt_of_flat : property.Holds here height ifStmt := by
  have close (opened : List OpenIf) : Has property .nothing 29 (closeIfs opened) := by
    induction opened with
    | nil => exact inferInstanceAs (Has property .nothing 29 (Pure.pure ()))
    | cons link rest ih =>
      have branch : Has property .nothing 2 (closeBranch link.branch) := by
        unfold closeBranch
        split <;> infer_instance
      have later : Has property .nothing 1 (closeIfs rest) := ⟨flat ih.holds⟩
      have whole : Has property .nothing 3 (closeIfs (link :: rest)) := by
        unfold closeIfs
        infer_instance
      exact ⟨flat whole.holds⟩
  have chain : Has property .nothing 30 ifStmt := .andThen fun answer => close answer.1
  exact flat chain.holds

/-- Such a property holds of all rules if it also holds of asking about lambdas. -/
theorem links_of_flat (asked : ∀ {here height}, property.Holds here height (.act .noLambda)) : Links property where
  ifStmt := ifStmt_of_flat flat
  nameExpr := (nameExpr_has ⟨asked⟩).holds
  parenOperand := (parenOperand_has ⟨asked⟩).holds

end

private theorem tells_transitive : (nthIsWord 0 .transitiveKw <&&> nthIs 1 .identifier : Rule Bool).Tells here
    fun found => if found then some .transitiveKw else none := by
  intro env rules s t found lenient known ran
  have word : (nthIsWord 0 .transitiveKw : Rule Bool).exec env rules s =
      some (.ok (isWordAt (s.cursor env) 0 .transitiveKw, s)) := by
    simp only [nthIsWord, cursor, Program.exec_bind, Program.exec_act, Program.exec_return, Action.run, Program.andThen_ok]
  have next : (nthIs 1 .identifier : Rule Bool).exec env rules s =
      some (.ok ((s.cursor env).nth 1 == .identifier, s)) := by
    simp only [nthIs, nth, cursor, Program.exec_bind, Program.exec_act, Program.exec_return, Action.run, Program.andThen_ok]
  rw [andM, Program.exec_bind, word, Program.andThen_ok] at ran
  cases stands : isWordAt (s.cursor env) 0 .transitiveKw with
  | true =>
    rw [stands] at ran
    cases ran.symm.trans next
    dsimp only
    split
    · exact stands
    · trivial
  | false =>
    rw [stands] at ran
    cases ran.symm.trans (Program.exec_return _ _)
    trivial

instance : Has property here (height + 12) requiresModifiers := by
  have round : Has property .nothing (height + 10) (do
      if ← sees .staticKw then
        consume .staticKw
        return true
      else if ← nthIsWord 0 .transitiveKw <&&> nthIs 1 .identifier then
        consumeAs .transitiveKw
        return true
      else
        return false) := by
    refine .andThen fun found => ?_
    split
    · infer_instance
    · exact .asked tells_transitive (by rw [if_pos rfl]; infer_instance) (by rw [if_neg nofun]; infer_instance)
  unfold requiresModifiers
  infer_instance

instance : Has property here (height + 22) targets := by
  unfold targets
  infer_instance

instance : Has property here (height + 22) implementations := by
  unfold implementations
  infer_instance

instance : Has property here (height + 32) directiveHead := by
  unfold directiveHead
  infer_instance

instance : Has property here (height + 33) directiveRest := by
  unfold directiveRest
  refine .andThen fun kind => ?_
  split <;> infer_instance

instance : Has property here (height + 36) directive := by
  unfold directive
  infer_instance

omit callable in
private theorem isWordAt_advance (cursor : TokenCursor) (n : Nat) (keyword : Kind) :
    isWordAt (cursor.advance n) 0 keyword = isWordAt cursor n keyword := by
  simp [isWordAt, TokenCursor.nth, TokenCursor.nthText, TokenCursor.nthToken, TokenCursor.index, TokenCursor.advance]

/-- In front of a module's declaration, the word `module` stands behind the other one or by itself. -/
theorem tells_optionalOpen {cursor : TokenCursor} (decl : isModuleDecl cursor = true) :
    optionalOpen.Tells (.place cursor) fun _ => some .moduleKw := by
  intro env rules s t _ lenient known ran
  subst known
  simp only [isModuleDecl, Bool.and_eq_true] at decl
  simp only [optionalOpen, seesWord, nthIsWord, cursor, allow, Program.exec_bind, Program.exec_act,
    Program.exec_return, Action.run, Program.andThen_ok] at ran
  change (if isWordAt (s.cursor env) 0 .openKw = true then consumeAs .openKw else Pure.pure () : Rule Unit).exec env rules
    (s.allow _) = _ at ran
  split at ran
  · next opened =>
    rw [if_pos opened] at decl
    rw [consumeAs, Program.exec_act] at ran
    have ran := Option.some.inj ran
    simp only [Action.run, State.consumeAs] at ran
    split at ran
    · cases ran
      exact (isWordAt_advance _ _ _).trans decl.1
    · cases ran
  · next closed =>
    rw [if_neg closed] at decl
    cases ran.symm.trans (Program.exec_return _ _)
    exact decl.1

omit callable in
private theorem moduleDecl_has {cursor : TokenCursor} (decl : isModuleDecl cursor = true) :
    Has property (.place cursor) (height + 52) moduleDecl := by
  unfold moduleDecl moduleBody
  have opened : Has property (.place cursor) (height + 51) optionalOpen := by
    unfold optionalOpen
    infer_instance
  exact .told _ (tells_optionalOpen decl) fun _ => (inferInstance : Has property (.word .moduleKw) (height + 51) _)

instance {modified : Bool} : Has property here (height + 64) (topLevelRest modified) := by
  unfold topLevelRest importRest
  refine .look (fun alike => by simp only [isModuleDecl_alike alike, alike.current]) fun cursor => ?_
  dsimp only
  split
  · infer_instance
  · split
    · infer_instance
    · split
      · infer_instance
      · split
        · next decl =>
          have module : Has property (.place cursor) (height + 62) moduleDecl := moduleDecl_has decl
          infer_instance
        · infer_instance

instance : Has property here (height + 68) topLevelItem := by
  unfold topLevelItem
  infer_instance

instance : Has property here (height + 80) compilationUnit := by
  unfold compilationUnit
  infer_instance

instance : Has property here (height + 14) expressionRoot := by
  unfold expressionRoot restOfInput
  infer_instance

end Calls

section Links

variable [links : Links property]

instance : Has property here (height + 30) ifStmt := ⟨links.ifStmt⟩

instance : Has property here (height + 30) nameExpr := ⟨links.nameExpr⟩

instance : Has property here (height + 66) parenOperand := ⟨links.parenOperand⟩

instance : Has property here (height + 59) primary := by
  unfold primary
  refine .andThen fun kind => ?_
  split
  · infer_instance
  · split
    · infer_instance
    · split <;> infer_instance

instance : Has property here (height + 65) attachedOperand := by
  unfold attachedOperand
  refine .andThen fun found => ?_
  split <;> infer_instance

instance : Has property here (height + 66) unary := by
  unfold unary
  refine .andThen fun kind => ?_
  split <;> infer_instance

instance {least : Power} : Has property here (height + 68) (expression least) := by
  unfold expression
  refine .deeper (.andThen fun found => ?_)
  split <;> infer_instance

instance : Has property here (height + 77) statementHere := by
  unfold statementHere
  refine .andThen fun kind => ?_
  split <;> infer_instance

instance : Has property here (height + 78) statement := by
  unfold statement
  infer_instance

/-- The property holds of the rule of every name. -/
theorem rule_has {name : Nonterminal α} (short : name.isShort = true) :
    Has property here (height + 87) (rule α name) := by
  cases name with
  | clauses forms => exact clauses_has short
  | _ => unfold rule; infer_instance

end Links

end LosslessJava.Grammar
