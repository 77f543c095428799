import LosslessJava.Grammar.Modules
import LosslessJava.Grammar.Statements

/-!
The grammar of Java: what its names stand for, and the rules for a whole input.
-/
namespace LosslessJava.Grammar

open LosslessJava.Parser

/-- The rule of a name. -/
def rule (α : Type) : Nonterminal α → Rule α
  | .type => type
  | .typeArg => typeArg
  | .expression least => expression least
  | .unary => unary
  | .parenOperand => parenOperand
  | .simpleName => simpleName
  | .lambdaParamList => lambdaParamList
  | .elementValue => elementValue
  | .arrayInitializer => arrayInitializer
  | .pattern => pattern
  | .terminator form => terminator form
  | .block => block
  | .statement => statement
  | .classBody kind => classBody kind
  | .clauses forms => clauses forms

/-- An import, up to its semicolon. -/
def importRest : Rule Unit := do
  consume .importKw
  discard <| accept .staticKw
  qualifiedName
  if ← sees .dot <&&> nthIs 1 .star then
    consume .dot
    consume .star

/-- A declaration at the top of a compilation unit behind its modifiers; answers the kind of its
node, if there is one. -/
def topLevelRest (modified : Bool) : Rule (Option Kind) := do
  let cursor ← cursor
  let kind := cursor.current
  if kind = .packageKw then
    consume .packageKw
    qualifiedName
    semicolon Sync.item
    return some .packageDecl
  else if kind = .importKw ∧ !modified then
    importRest
    semicolon Sync.item
    return some .importDecl
  else if kind = .semicolon ∧ !modified then
    consume .semicolon
    return some .emptyDecl
  else if isModuleDecl cursor then
    moduleDecl
    return some .moduleDecl
  else
    typeDeclRest

/-- The start of a declaration at the top of a compilation unit, which may have modifiers. -/
def topLevelItem : Rule Unit :=
  discard <| nodeIf do topLevelRest (← modifiers)

/-- A whole file. -/
def compilationUnit : Rule Unit :=
  discard <| node .compilationUnit do
    loop do
      if ← sees .eof then
        return false
      else
        skipUnmoved topLevelItem (.expected "a declaration")
        return true
    consume .eof

/-- What stands behind an expression that should be the whole input. -/
def restOfInput : Rule Unit := do
  if ← sees .eof then
    return ()
  else
    expectedHere Kind.eof.describe
    loop do
      if ← sees .eof then
        return false
      else
        consumeAny
        return true

/-- A single expression. Input behind it is reported, and put with it into an error node. -/
def expressionRoot : Rule Unit :=
  discard <| nodeIf do
    let expression ← anyExpression
    if ← pure expression.isSome <&&> sees .eof then
      return none
    else
      restOfInput
      return some .error

end LosslessJava.Grammar
