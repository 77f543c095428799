import LosslessJava.Proofs.BracketBudgets

/-! The rules of the grammar, each with its weight. A rule that counts as one level deeper holds at most two
brackets around one another before the next level; what goes round without counting is annotations in the
arguments of annotations. -/

namespace LosslessJava.Grammar

open LosslessJava.Parser

def Nonterminal.isProper : {α : Type} → Nonterminal α → Bool
  | _, .clauses forms => forms.all fun form => form.2.isOuter
  | _, .classBody kind => kind.isNamed
  | _, _ => true

def Nonterminal.weight : {α : Type} → Nonterminal α → Nat
  | _, .unary | _, .parenOperand | _, .simpleName => 2
  | _, .typeArg | _, .lambdaParamList | _, .elementValue => 1
  | _, _ => 0

/-- Rules that are called by name have the weight of the name. The value of an annotation costs less where the
annotation is itself within one. -/
class Weighed (setting : Setting Nonterminal) : Prop where
  call : ∀ {α : Type} {name : Nonterminal α}, name.isProper = true → Weighs setting false name.weight (Parser.call name)
  value : Weighs setting true 1 (Parser.call .elementValue)

end LosslessJava.Grammar

namespace LosslessJava.Parser.Weighs

variable {N : Type → Type} {setting : Setting N} {free : Bool} {weight : Nat} {α : Type}

theorem heavier {rule : Program N α} (weighs : Weighs setting free weight rule) {more : Nat} (le : weight ≤ more) :
    Weighs setting free more rule where
  abides same run given _ afford := by
    refine weighs.abides same run given ?_
    simp only [Setting.Affords] at afford ⊢
    omega

section Steps

instance : Weighs setting free weight (.act .noLambda) := act rfl

instance : Weighs setting free weight (.act .lookaheadLimit) := act rfl

instance : Weighs setting free weight cursor := act rfl

instance {kinds : KindSet} : Weighs setting free weight (allow kinds) := act rfl

instance {kind : Kind} : Weighs setting free weight (consume kind) := act rfl

instance : Weighs setting free weight consumeAny := act rfl

instance {keyword : Kind} : Weighs setting free weight (consumeAs keyword) := of_act fun run => by
  have run := Result.of_done run
  unfold State.consumeAs at run
  split at run
  · cases run
    exact State.pushToken_abides
  · cases run

instance {kind : Kind} {count : Nat} : Weighs setting free weight (join kind count) :=
  of_act fun run => by
    cases run
    exact State.pushToken_abides

instance {issue : Issue} : Weighs setting free weight (report issue) := act rfl

instance {issue : Issue} : Weighs setting free weight (reportAndSkip issue) := act rfl

instance {recovery : KindSet} : Weighs setting free weight (recover recovery) := act rfl

end Steps

section Questions

instance : Weighs setting free weight position := by
  unfold position
  infer_instance

instance {n : Nat} : Weighs setting free weight (nth n) := by
  unfold nth
  infer_instance

instance : Weighs setting free weight current := inferInstanceAs (Weighs setting free weight (nth 0))

instance {n : Nat} {kind : Kind} : Weighs setting free weight (nthIs n kind) := by
  unfold nthIs
  infer_instance

instance {n : Nat} {keyword : Kind} : Weighs setting free weight (nthIsWord n keyword) := by
  unfold nthIsWord
  infer_instance

instance {kind : Kind} : Weighs setting free weight (sees kind) := by
  unfold sees
  infer_instance

instance {kinds : KindSet} : Weighs setting free weight (seesAny kinds) := by
  unfold seesAny
  infer_instance

instance {keyword : Kind} : Weighs setting free weight (seesWord keyword) := by
  unfold seesWord
  infer_instance

instance {one other : Program N Bool} [Weighs setting free weight one] [Weighs setting free weight other] :
    Weighs setting free weight (one <&&> other) := by
  refine andThen fun found => ?_
  split <;> infer_instance

instance {one other : Program N Bool} [Weighs setting free weight one] [Weighs setting free weight other] :
    Weighs setting free weight (one <||> other) := by
  refine andThen fun found => ?_
  split <;> infer_instance

instance [Inhabited α] : Weighs setting free weight (endless : Program N α) := by
  unfold endless
  infer_instance

instance [Inhabited α] {what : String} {peek : Lookahead.Peek α} : Weighs setting free weight (decideBy what peek) := by
  unfold decideBy
  refine andThen fun limit => andThen fun cursor => ?_
  split <;> infer_instance

instance : Weighs setting free weight parenKindHere := by
  unfold parenKindHere
  infer_instance

instance : Weighs setting free weight seesLocalVarDecl := inferInstanceAs (Weighs setting free weight (decideBy _ _))

instance : Weighs setting free weight seesLocalTypeDecl := inferInstanceAs (Weighs setting free weight (decideBy _ _))

instance : Weighs setting free weight seesForeach := inferInstanceAs (Weighs setting free weight (decideBy _ _))

instance : Weighs setting free weight patternKindHere := inferInstanceAs (Weighs setting free weight (decideBy _ _))

instance : Weighs setting free weight seesArrayTypeLiteral := inferInstanceAs (Weighs setting free weight (decideBy _ _))

end Questions

section Combinators

instance {rule : Program N α} [Weighs setting free weight rule] : Weighs setting free weight (discard rule) :=
  inferInstanceAs (Weighs setting free weight (rule >>= fun _ => Pure.pure ()))

instance {kind : Kind} : Weighs setting free weight (accept kind) := by
  unfold accept
  infer_instance

instance {kind : Kind} {rule : Program N Unit} [Weighs setting free weight rule] :
    Weighs setting free weight (whenSees kind rule) := by
  unfold whenSees
  infer_instance

instance {what : String} : Weighs setting free weight (expectedHere what) := by
  unfold expectedHere
  infer_instance

instance {what : String} {recovery : KindSet} : Weighs setting free weight (expectedThenRecover what recovery) := by
  unfold expectedThenRecover
  infer_instance

instance {kind : Kind} : Weighs setting free weight (expect kind) := by
  unfold expect
  infer_instance

instance {kind : Kind} : Weighs setting free weight (require kind) := by
  unfold require
  infer_instance

instance {a : α} {step : Program N Bool} [Weighs setting free weight step] : Weighs setting free weight (stepTo a step) := by
  unfold stepTo
  infer_instance

instance {step : Program N Bool} [Weighs setting free weight step] : Weighs setting free weight (loop step) := by
  unfold loop
  infer_instance

instance {step : Program N Bool} [Weighs setting free weight step] : Weighs setting free weight (loopAny step) := by
  unfold loopAny
  infer_instance

instance {rule : Program N α} [Weighs setting free weight rule] : Weighs setting free weight (bracketed rule) := by
  unfold bracketed
  infer_instance

instance {kind : Kind} {rule : Program N Unit} [outer : Evident kind.isOuter] [Weighs setting free weight rule] :
    Weighs setting free weight (node kind rule) := by
  unfold node
  infer_instance

end Combinators

end LosslessJava.Parser.Weighs

namespace LosslessJava.Grammar

open LosslessJava.Parser

set_option synthInstance.maxSize 2000

variable {setting : Setting Nonterminal} {free : Bool} {weight : Nat} {α : Type}

section Lists

instance {opener closer delimiter : Kind} {what : String} {first : KindSet} {element : Rule Bool}
    [Weighs setting free weight element] :
    Weighs setting free weight (delimited opener closer delimiter what first element) := by
  unfold delimited delimitedRound
  infer_instance

instance {rule : Rule Unit} [Weighs setting free weight rule] : Weighs setting free weight (commaSeparated rule) := by
  unfold commaSeparated
  infer_instance

instance {rule : Rule Unit} [Weighs setting free weight rule] {issue : Kind → Issue} :
    Weighs setting free weight (skipUnmoved rule issue) := by
  unfold skipUnmoved
  infer_instance

instance {closer : Kind} {rule : Rule Unit} [Weighs setting free weight rule] :
    Weighs setting free weight (listUntil closer rule) := by
  unfold listUntil
  infer_instance

instance {recovery : KindSet} : Weighs setting free weight (semicolon recovery) := by
  unfold semicolon
  infer_instance

instance {kind : Kind} {rule : Rule Unit} [Weighs setting free weight rule] :
    Weighs setting free weight (unlessSees kind rule) := by
  unfold unlessSees
  infer_instance

end Lists

instance : Weighs setting free weight qualifiedName := by
  unfold qualifiedName
  infer_instance

instance : Weighs setting free weight seesAnnotation := by
  unfold seesAnnotation
  infer_instance

instance : Weighs setting free weight seesDims := by
  unfold seesDims
  infer_instance

instance : Weighs setting free weight emptyBrackets := by
  unfold emptyBrackets
  infer_instance

variable [weighed : Weighed setting]

section Calls

theorem call_weighs {name : Nonterminal α} (proper : name.isProper = true) (le : name.weight ≤ weight) :
    Weighs setting false weight (call name) := (weighed.call proper).heavier le

instance : Weighs setting false weight (call .type) := call_weighs rfl (Nat.zero_le _)

instance {least : Power} : Weighs setting false weight (call (.expression least)) := call_weighs rfl (Nat.zero_le _)

instance : Weighs setting false weight (call .arrayInitializer) := call_weighs rfl (Nat.zero_le _)

instance : Weighs setting false weight (call .pattern) := call_weighs rfl (Nat.zero_le _)

instance {form : Option Kind} : Weighs setting false weight (call (.terminator form)) := call_weighs rfl (Nat.zero_le _)

instance : Weighs setting false weight (call .block) := call_weighs rfl (Nat.zero_le _)

instance : Weighs setting false weight (call .statement) := call_weighs rfl (Nat.zero_le _)

instance {kind : Kind} [named : Evident kind.isNamed] : Weighs setting false weight (call (.classBody kind)) :=
  call_weighs named.holds (Nat.zero_le _)

instance : Weighs setting false (weight + 1) (call .typeArg) := call_weighs rfl (Nat.le_add_left ..)

instance : Weighs setting false (weight + 1) (call .lambdaParamList) := call_weighs rfl (Nat.le_add_left ..)

instance : Weighs setting false (weight + 1) (call .elementValue) := call_weighs rfl (Nat.le_add_left ..)

instance : Weighs setting true (weight + 1) (call .elementValue) := weighed.value.heavier (Nat.le_add_left ..)

instance : Weighs setting false (weight + 2) (call .unary) := call_weighs rfl (Nat.le_add_left ..)

instance : Weighs setting false (weight + 2) (call .parenOperand) := call_weighs rfl (Nat.le_add_left ..)

instance : Weighs setting false (weight + 2) (call .simpleName) := call_weighs rfl (Nat.le_add_left ..)

end Calls

section Names

instance : Weighs setting true (weight + 1) annotationArgs := by
  unfold annotationArgs elementValuePair
  infer_instance

instance : Weighs setting true (weight + 1) annotation := by
  unfold annotation
  infer_instance

instance : Weighs setting false (weight + 1) annotation := .strictly inferInstance

/-- The value of an annotation weighs one, be it within another one or not. -/
theorem elementValue_weighs : Weighs setting true 1 elementValue := by
  have expression : Weighs setting true 1 (call (.expression .conditional)) :=
    Weighs.freely (inferInstanceAs (Weighs setting false 0 _))
  have array : Weighs setting true 1 (nested false do
      discard <| node .elementValueArray <|
        delimited .leftBrace .rightBrace .comma "element value" First.elementValue (call .elementValue)
      return true) := inferInstanceAs (Weighs setting true (0 + 1) _)
  unfold elementValue
  infer_instance

instance : Weighs setting false (weight + 1) annotations := by
  unfold annotations
  infer_instance

instance : Weighs setting false (weight + 1) modifier := by
  unfold modifier
  refine .andThen fun annotated => ?_
  split <;> infer_instance

instance : Weighs setting false (weight + 1) modifiers := by
  unfold modifiers
  infer_instance

end Names

section Types

instance : Weighs setting false weight seesWildcard := by
  unfold seesWildcard
  infer_instance

instance : Weighs setting false (weight + 1) typeArg := by
  unfold typeArg wildcard wildcardBound
  infer_instance

instance : Weighs setting false (weight + 2) typeArgs := by
  unfold typeArgs
  infer_instance

instance : Weighs setting false (weight + 2) classTypeSegments := by
  unfold classTypeSegments classTypeSegment
  dsimp only
  infer_instance

instance : Weighs setting false (weight + 2) elementType := by
  unfold elementType
  infer_instance

instance {node : Completed} : Weighs setting false weight (arraySuffix node) := by
  unfold arraySuffix
  infer_instance

instance : Weighs setting false weight type := by
  unfold type
  refine .below (.andThen fun found => ?_)
  split <;> infer_instance

instance : Weighs setting false weight dims := by
  unfold dims
  infer_instance

instance : Weighs setting false weight resultType := by
  unfold resultType
  infer_instance

instance {operator : Kind} : Weighs setting false weight (typesAfter operator) := by
  unfold typesAfter
  infer_instance

instance : Weighs setting false (weight + 1) typeParams := by
  unfold typeParams typeParam typeBound
  infer_instance

instance {keyword kind : Kind} [outer : Evident kind.isOuter] : Weighs setting false weight (clause keyword kind) := by
  unfold clause consumeKeyword
  infer_instance

instance {operator kind : Kind} [outer : Evident kind.isOuter] : Weighs setting false weight (compoundType operator kind) := by
  unfold compoundType
  refine .andThen fun found => ?_
  split <;> infer_instance

instance : Weighs setting false weight pattern := by
  unfold pattern parenPattern typedPattern patternList
  infer_instance

end Types

section Switches

instance : Weighs setting false weight anyExpression := by
  unfold anyExpression
  infer_instance

instance : Weighs setting false weight condition := by
  unfold condition
  infer_instance

instance : Weighs setting false weight exprStmt := by
  unfold exprStmt exprAndSemicolon
  infer_instance

instance {node : Completed} : Weighs setting false weight (guardedPattern node) := by
  unfold guardedPattern
  infer_instance

instance : Weighs setting false weight caseItem := by
  unfold caseItem
  refine .andThen fun _ => ?_
  split
  · infer_instance
  · refine .andThen fun _ => ?_
    split
    · refine .andThen fun found => ?_
      split <;> infer_instance
    · infer_instance

instance : Weighs setting false weight caseItems := by
  unfold caseItems optionalGuard
  infer_instance

instance {form : Option Kind} : Weighs setting false weight (terminator form) := by
  unfold terminator
  dsimp only
  infer_instance

instance {form : Option Kind} : Weighs setting false weight (switchLabel form) := by
  unfold switchLabel labelHead
  infer_instance

instance : Weighs setting false weight seesLabel := by
  unfold seesLabel
  infer_instance

instance : Weighs setting false weight ruleBody := by
  unfold ruleBody
  refine .andThen fun kind => ?_
  split <;> infer_instance

instance {form : Option Kind} : Weighs setting false weight (switchEntry form) := by
  unfold switchEntry moreLabels groupStatements
  infer_instance

instance {form : Option Kind} : Weighs setting false weight (nextEntry form) := by
  unfold nextEntry entryOrError
  infer_instance

instance : Weighs setting false weight switchBlock := by
  unfold switchBlock
  infer_instance

instance : Weighs setting false weight switchExpr := by
  unfold switchExpr
  infer_instance

end Switches

section Expressions

instance : Weighs setting false (weight + 1) argList := by
  unfold argList
  infer_instance

instance : Weighs setting false weight variableInitializer := by
  unfold variableInitializer
  infer_instance

instance : Weighs setting false weight arrayInitializer := by
  unfold arrayInitializer
  infer_instance

instance : Weighs setting false (weight + 1) lambdaParamList := by
  unfold lambdaParamList lambdaElement lambdaParam
  infer_instance

instance : Weighs setting false (weight + 1) lambdaExpr := by
  unfold lambdaExpr lambdaParams
  infer_instance

instance : Weighs setting false (weight + 2) reference := by
  unfold reference
  infer_instance

instance : Tells Kind.isOuter reference := by
  unfold reference
  infer_instance

instance {node : Completed} : Weighs setting false (weight + 2) (methodRef node) := by
  unfold methodRef
  infer_instance

instance {node : Completed} : Weighs setting false (weight + 2) (typeLiteralSuffix node) := by
  unfold typeLiteralSuffix
  infer_instance

instance : Weighs setting false weight arrayCreationRest := by
  unfold arrayCreationRest dimExpr
  infer_instance

instance : Weighs setting false (weight + 1) objectCreationRest := by
  unfold objectCreationRest
  infer_instance

instance : Weighs setting false (weight + 2) creation := by
  unfold creation
  infer_instance

instance : Tells Kind.isOuter creation := by
  unfold creation
  infer_instance

instance : Weighs setting false weight genericCallName := by
  unfold genericCallName
  refine .andThen fun kind => ?_
  split <;> infer_instance

instance : Weighs setting false (weight + 2) genericCallRest := by
  unfold genericCallRest
  infer_instance

instance {kind : Kind} : Weighs setting false (weight + 1) (callOr kind) := by
  unfold callOr
  infer_instance

instance {kind : Kind} [outer : Evident kind.isOuter] : Tells Kind.isOuter (callOr kind) := by
  unfold callOr
  infer_instance

instance : Weighs setting false (weight + 2) selected := by
  unfold selected
  refine .andThen fun kind => ?_
  split <;> infer_instance

instance : Tells Kind.isOuter selected := by
  unfold selected
  refine .andThen fun kind => ?_
  split <;> infer_instance

instance {node : Completed} : Weighs setting false (weight + 2) (postfixStep node) := by
  unfold postfixStep dotSuffix arrayAccess subscript
  refine .andThen fun kind => ?_
  split <;> infer_instance

instance {node : Completed} : Weighs setting false weight (incrementStep node) := by
  unfold incrementStep
  refine .andThen fun kind => ?_
  split <;> infer_instance

instance {node : Completed} : Weighs setting false (weight + 2) (postfixExpr node) := by
  unfold postfixExpr
  infer_instance

instance : Weighs setting false weight genericReceiver? := by
  unfold genericReceiver?
  refine .tried (.andThen fun found => ?_)
  split <;> infer_instance

instance : Weighs setting false (weight + 2) simpleName := by
  unfold simpleName plainName
  refine .andThen fun next => .andThen fun literal => ?_
  split
  · refine .andThen fun found => ?_
    split <;> infer_instance
  · infer_instance

instance : Weighs setting false (weight + 2) nameExpr := by
  unfold nameExpr
  refine .andThen fun next => .andThen fun barred => ?_
  split
  · infer_instance
  · split
    · refine .andThen fun found => ?_
      split <;> infer_instance
    · infer_instance

instance {kind plain : Kind} [outer : Evident plain.isOuter] : Weighs setting false (weight + 1) (selfExpr kind plain) := by
  unfold selfExpr
  infer_instance

instance : Weighs setting false (weight + 2) genericSelfCall := by
  unfold genericSelfCall genericSelfName
  infer_instance

instance : Weighs setting false weight missingExpression := by
  unfold missingExpression
  dsimp only
  infer_instance

instance : Weighs setting false (weight + 2) literalType := by
  unfold literalType
  refine .andThen fun found => ?_
  split <;> infer_instance

instance : Weighs setting false (weight + 2) primary := by
  unfold primary
  refine .andThen fun kind => ?_
  split
  · infer_instance
  · split
    · infer_instance
    · split <;> infer_instance

instance : Weighs setting false (weight + 2) castExpr := by
  unfold castExpr intersectionType
  infer_instance

instance : Weighs setting false (weight + 1) parenExpr := by
  unfold parenExpr
  infer_instance

instance {kind : ParenKind} : Weighs setting false (weight + 2) (operandOf kind) := by
  unfold operandOf
  split <;> infer_instance

instance : Weighs setting false (weight + 2) parenOperand := by
  unfold parenOperand
  infer_instance

instance : Weighs setting false (weight + 2) attachedOperand := by
  unfold attachedOperand
  refine .andThen fun found => ?_
  split <;> infer_instance

instance : Weighs setting false (weight + 2) prefixExpr := by
  unfold prefixExpr
  infer_instance

instance : Weighs setting false (weight + 2) unary := by
  unfold unary
  refine .andThen fun kind => ?_
  split <;> infer_instance

instance : Weighs setting false weight instanceofTarget := by
  unfold instanceofTarget
  infer_instance

instance {op : Operator} : Weighs setting false weight (operation op) := by
  unfold operation
  split <;> infer_instance

instance {op : Operator} : Tells Kind.isOuter (operation op) := by
  unfold operation
  split <;> infer_instance

instance {least : Power} {node : Completed} : Weighs setting false weight (operatorStep least node) := by
  unfold operatorStep
  refine .andThen fun cursor => ?_
  split <;> infer_instance

instance {least : Power} : Weighs setting false weight (expression least) := by
  unfold expression
  refine .below (.andThen fun found => ?_)
  split <;> infer_instance

end Expressions

end LosslessJava.Grammar
