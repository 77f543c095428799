import LosslessJava.Grammar.Operator
import LosslessJava.Grammar.Switch

/-!
Expressions: operands with what is attached to them, and operators by their power.
-/
namespace LosslessJava.Grammar

open LosslessJava.Parser

/-- Arguments in round brackets. -/
def argList : Rule Unit :=
  discard <| node .argList <| bracketed <|
    delimited .leftParen .rightParen .comma "argument" First.expression do
      return (← anyExpression).isSome

/-- An initial value: an expression, or values in braces. -/
def variableInitializer : Rule Bool := do
  if ← sees .leftBrace then
    call .arrayInitializer
    return true
  else
    return (← anyExpression).isSome

/-- Initial values in braces. -/
def arrayInitializer : Rule Unit :=
  nested () do
    discard <| node .arrayInitializer <| bracketed <|
      delimited .leftBrace .rightBrace .comma "initializer" First.initializer variableInitializer

/-- One parameter of a lambda, with or without a type. -/
def lambdaParam : Rule Unit :=
  discard <| node .lambdaParam do
    let next ← nth 1
    if ← sees .identifier <&&> pure (next == .comma || next == .rightParen) then
      consume .identifier
    else
      discard modifiers
      discard <| call .type
      discard <| accept .ellipsis
      require .identifier

/-- A parameter in a list, which counts as an element whatever was found of it. -/
def lambdaElement : Rule Bool := do
  lambdaParam
  return true

/-- The parameters of a lambda. -/
def lambdaParamList : Rule Unit :=
  discard <| node .lambdaParamList <|
    delimited .leftParen .rightParen .comma "lambda parameter" First.type lambdaElement

/-- Parameters of a lambda: a list, or a single name. -/
def lambdaParams : Rule Unit := do
  if ← sees .leftParen then
    call .lambdaParamList
  else
    discard <| node .lambdaParam (consume .identifier)

def lambdaExpr : Rule Completed :=
  node .lambdaExpr do
    lambdaParams
    require .arrow
    if ← sees .leftBrace then
      call .block
    else
      discard anyExpression

/-- `::` and what a method or constructor is referred to by. -/
def reference : Rule Kind := do
  consume .colonColon
  whenSees .lt typeArgs
  if ← sees .identifier <||> sees .newKw then
    consumeAny
    return .methodRef
  else
    expectedHere "method name or `new`"
    return .methodRef

def methodRef (receiver : Completed) : Rule Completed := around receiver reference

/-- What makes an expression of a type: `.class`, or `::` and a name. -/
def typeLiteralSuffix (type : Completed) : Rule Completed := do
  if ← sees .dot <&&> nthIs 1 .classKw then
    around type do
      consume .dot
      consume .classKw
      return .classLiteral
  else if ← sees .colonColon then
    methodRef type
  else
    expectedHere "`.class` or `::`"
    return type

/-- A size of a new array. -/
def dimExpr : Rule Unit :=
  discard <| node .dimExpr do
    consume .leftBracket
    discard <| bracketed anyExpression
    require .rightBracket

/-- Sizes, further dimensions and initial values of a new array. -/
def arrayCreationRest : Rule Unit := do
  loop do
    let next ← nth 1
    if ← sees .leftBracket <&&> pure (next != .rightBracket) then
      dimExpr
      return true
    else
      return false
  dims
  whenSees .leftBrace (call .arrayInitializer)

/-- Arguments and perhaps a body of a new object. -/
def objectCreationRest : Rule Unit := do
  if ← sees .leftParen then
    argList
    whenSees .leftBrace (call (.classBody .classBody))
  else
    expectedHere "`(` or `[`"
    whenSees .leftBrace (call (.classBody .classBody))

/-- A new object or array, in a node whose kind it tells. -/
def creation : Rule Kind := do
  consume .newKw
  whenSees .lt typeArgs
  if (← elementType).isSome then
    if ← sees .leftBracket then
      arrayCreationRest
      return .arrayCreation
    else
      objectCreationRest
      return .newExpr
  else
    return .newExpr

/-- The name of a method that is called with explicit type arguments. -/
def genericCallName : Rule Unit := do
  match ← current with
  | .identifier | .thisKw | .superKw => consumeAny
  | _ => expectedHere "method name"

/-- A call with explicit type arguments, behind the dot. -/
def genericCallRest : Rule Unit := do
  typeArgs
  genericCallName
  if ← sees .leftParen then
    argList
  else
    expectedHere "`(`"

/-- Arguments, if there are any, of which the kind of the node around them depends. -/
def callOr (plain : Kind) : Rule Kind := do
  if ← sees .leftParen then
    argList
    return .methodCall
  else
    return plain

/-- What a dot selects, in a node whose kind it tells. -/
def selected : Rule Kind := do
  match ← current with
  | .identifier =>
    consume .identifier
    callOr .fieldAccess
  | .lt =>
    genericCallRest
    return .methodCall
  | .thisKw =>
    consume .thisKw
    return .thisExpr
  | .superKw =>
    consume .superKw
    callOr .superExpr
  | .newKw => creation
  | .classKw =>
    consume .classKw
    return .classLiteral
  | _ =>
    expectedHere "identifier after `.`"
    return .fieldAccess

def dotSuffix (receiver : Completed) : Rule Completed :=
  around receiver do
    consume .dot
    selected

/-- An index in square brackets. -/
def subscript : Rule Kind := do
  consume .leftBracket
  discard <| bracketed anyExpression
  require .rightBracket
  return .arrayAccess

def arrayAccess (array : Completed) : Rule Completed := around array subscript

/-- One selection, index or method reference behind an operand, if there is one. -/
def postfixStep (operand : Completed) : Rule (Option Completed) := do
  match ← current with
  | .dot => return some (← dotSuffix operand)
  | .leftBracket => return some (← arrayAccess operand)
  | .colonColon => return some (← methodRef operand)
  | _ => return none

/-- One `++` or `--` behind an operand, if there is one. -/
def incrementStep (operand : Completed) : Rule (Option Completed) := do
  match ← current with
  | .plusPlus | .minusMinus =>
    return some (← around operand do
      consumeAny
      return .postfixExpr)
  | _ => return none

/-- All that is attached to an operand from behind. After `++` or `--` only more of these follow. -/
def postfixExpr (operand : Completed) : Rule Completed := do
  loopFrom (← loopFrom operand postfixStep) incrementStep

/-- A type with arguments and `::` behind it, taken back if it turns out to be something else. -/
def genericReceiver? : Rule (Option Completed) :=
  speculate do
    match ← call .type with
    | some type => return if ← sees .colonColon then some type else none
    | none => return none

/-- A name, or a call of it. -/
def plainName : Rule Completed :=
  nodeOf do
    consume .identifier
    callOr .nameExpr

/-- A name that is not the receiver of a generic method reference. -/
def simpleName : Rule (Option Completed) := do
  let next ← nth 1
  if ← pure (next == .leftBracket || next == .dot) <&&> seesArrayTypeLiteral then
    match ← call .type with
    | some type => return some (← typeLiteralSuffix type)
    | none => return none
  else
    return some (← plainName)

/-- An expression that begins with a name. -/
def nameExpr : Rule (Option Completed) := do
  let next ← nth 1
  if next = .arrow ∧ ¬ (← .act .noLambda) then
    return some (← lambdaExpr)
  else if next = .lt then
    match ← genericReceiver? with
    | some type => return some (← methodRef type)
    | none => call .simpleName
  else
    call .simpleName

/-- The object itself, as `this` or `super`, or a constructor call with one of them. -/
def selfExpr (kind plain : Kind) : Rule Completed :=
  nodeOf do
    consume kind
    callOr plain

/-- The constructor that is called with explicit type arguments. -/
def genericSelfName : Rule Unit := do
  if ← sees .thisKw <||> sees .superKw then
    consumeAny
  else
    expectedHere "`this` or `super`"

/-- A constructor call with explicit type arguments. -/
def genericSelfCall : Rule Completed :=
  node .methodCall do
    typeArgs
    genericSelfName
    whenSees .leftParen argList

/-- Reports that an expression is missing. The token in its place is skipped unless something around
the expression may need it. -/
def missingExpression : Rule Unit := do
  allow First.expression
  let found ← current
  let issue : Issue := .expected "expression" found
  if ← sees .eof <||> pure (Sync.expression.contains found) then
    report issue
  else
    reportAndSkip issue

/-- A type that is to become an expression by what follows it. -/
def literalType : Rule (Option Completed) := do
  match ← resultType with
  | some type => return some (← typeLiteralSuffix type)
  | none => return none

/-- An operand without anything attached. -/
def primary : Rule (Option Completed) := do
  let kind ← current
  if kind.isLiteral then
    return some (← node .literal consumeAny)
  else if kind = .voidKw ∨ kind.isPrimitiveType then
    literalType
  else
    match kind with
    | .identifier => nameExpr
    | .thisKw => return some (← selfExpr .thisKw .thisExpr)
    | .superKw => return some (← selfExpr .superKw .superExpr)
    | .newKw => return some (← nodeOf creation)
    | .switchKw => return some (← switchExpr)
    | .lt => return some (← genericSelfCall)
    | _ =>
      missingExpression
      return none

def castExpr : Rule Completed :=
  node .castExpr do
    consume .leftParen
    intersectionType
    require .rightParen
    discard <| nested none (call .unary)

def parenExpr : Rule Completed :=
  node .parenExpr do
    consume .leftParen
    discard <| bracketed anyExpression
    require .rightParen

/-- An operand of which it is known what its `(` opens. -/
def operandOf : ParenKind → Rule (Option Completed)
  | .lambda => return some (← lambdaExpr)
  | .cast => return some (← castExpr)
  | .parenthesized => return some (← postfixExpr (← parenExpr))

/-- An operand that begins with `(`. -/
def parenOperand : Rule (Option Completed) := do operandOf (← parenKindHere)

/-- An operand with all that is attached to it; a lambda stands alone. -/
def attachedOperand : Rule (Option Completed) := do
  match ← primary with
  | some operand =>
    if operand.kind = .lambdaExpr then
      return some operand
    else
      return some (← postfixExpr operand)
  | none => return none

/-- An operand behind an operator. -/
def prefixExpr : Rule Completed :=
  node .prefixExpr do
    consumeAny
    discard <| nested none (call .unary)

/-- An operand with the operators in front of it. -/
def unary : Rule (Option Completed) := do
  match ← current with
  | .plus | .minus | .plusPlus | .minusMinus | .bang | .tilde => return some (← prefixExpr)
  | .leftParen => call .parenOperand
  | _ => attachedOperand

/-- What stands behind `instanceof`. -/
def instanceofTarget : Rule Unit := do
  if (← patternKindHere).isSome then
    discard <| call .pattern
  else if ← sees .finalKw then
    report .finalWithoutBinding
    discard <| call .type
  else
    discard <| call .type

/-- An operator and its right side, in a node whose kind it tells. -/
def operation (op : Operator) : Rule Kind := do
  match op.kind with
  | .instanceofKw =>
    consume .instanceofKw
    instanceofTarget
    return .instanceofExpr
  | .question =>
    consume .question
    discard anyExpression
    require .colon
    discard <| call (.expression .conditional)
    return .conditionalExpr
  | _ =>
    join op.kind op.rawCount
    if op.power = .assignment then
      discard <| call (.expression .assignment)
      return .assignExpr
    else
      discard <| call (.expression (op.power + 1))
      return .binaryExpr

/-- One operator behind a left side and what belongs to it, if it binds tightly enough. -/
def operatorStep (least : Power) (left : Completed) : Rule (Option Completed) := do
  match Operator.at? (← cursor) with
  | some op =>
    if op.power < least then
      return none
    else
      return some (← around left (operation op))
  | none => return none

/-- An expression of operators that bind at least as tightly as `least`. -/
def expression (least : Power) : Rule (Option Completed) :=
  nested none do
    match ← unary with
    | some operand => return some (← loopFrom operand (operatorStep least))
    | none => return none

end LosslessJava.Grammar
