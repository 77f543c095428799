import LosslessJava.Grammar.Declarations

/-!
Statements.
-/
namespace LosslessJava.Grammar

open LosslessJava.Parser

/-- Statements in braces. -/
def block : Rule Unit := do
  if ← sees .leftBrace then
    nested () do
      discard <| node .block do
        consume .leftBrace
        listUntil .rightBrace (call .statement)
        require .rightBrace
  else
    expectedHere Kind.leftBrace.describe

/-- A declaration of local variables up to its semicolon. -/
def localVarDecl (ending : Rule Unit) : Rule Unit :=
  discard <| node .localVarDecl do
    discard modifiers
    discard <| call .type
    variableDeclarators
    ending

/-- The end of a statement. -/
def statementEnd : Rule Unit := semicolon Sync.statement

/-- A keyword and what follows it, in a node. -/
def keywordStmt (kind keyword : Kind) (rest : Rule Unit) : Rule Unit :=
  discard <| node kind do
    consume keyword
    rest

/-- An `if` whose node is still open, with its `else` branch when another `if` follows in it. -/
structure OpenIf where
  mark : Mark
  branch : Option Mark

/-- One `if` of a chain, onto those that are open before it; `true` if the next one stands here. -/
def ifLink (opened : List OpenIf) : Rule (List OpenIf × Bool) := do
  let mark ← start
  consume .ifKw
  condition
  call .statement
  if ← sees .elseKw then
    let branch ← start
    consume .elseKw
    if ← sees .ifKw then
      return (⟨mark, some branch⟩ :: opened, true)
    else
      call .statement
      discard <| branch.complete .elseBranch
      return (⟨mark, none⟩ :: opened, false)
  else
    return (⟨mark, none⟩ :: opened, false)

/-- Completes the `else` branch of a link that is still open. -/
def closeBranch : Option Mark → Rule Unit
  | some branch => discard <| branch.complete .elseBranch
  | none => return ()

/-- Completes the nodes of a chain, the innermost first. -/
def closeIfs : List OpenIf → Rule Unit
  | [] => return ()
  | link :: rest => do
    closeBranch link.branch
    discard <| link.mark.complete .ifStmt
    closeIfs rest

/-- A chain of `if` and `else if`. It is read link by link, so its length counts nothing towards the
nesting bound; the nodes nest all the same. -/
def ifStmt : Rule Unit := do
  let (opened, _) ← loopFrom ([], true) fun (opened, more) => do
    if more then
      return some (← ifLink opened)
    else
      return none
  closeIfs opened

/-- Expressions separated by commas. -/
def exprList : Rule Unit := commaSeparated (discard anyExpression)

/-- Head of a loop over a collection. -/
def foreachHeader : Rule Unit := do
  discard modifiers
  discard <| call .type
  require .identifier
  require .colon
  discard anyExpression

/-- What a loop with a condition begins with. -/
def forInit : Rule Unit := do
  if ← seesLocalVarDecl then
    localVarDecl (return ())
  else
    exprList

/-- Runs a rule unless a kind of token stands here. -/
def unlessSees (kind : Kind) (rule : Rule Unit) : Rule Unit := do
  if ← sees kind then return () else rule

/-- Head of a loop with a condition. -/
def forHeader : Rule Unit := do
  unlessSees .semicolon (discard <| node .forInit forInit)
  require .semicolon
  unlessSees .semicolon (discard anyExpression)
  require .semicolon
  unlessSees .rightParen (discard <| node .forUpdate exprList)

/-- The head of a `for` loop, which tells what kind of loop it is. -/
def loopHeader : Rule Kind := do
  if ← seesForeach then
    foreachHeader
    return .foreachStmt
  else
    forHeader
    return .forStmt

def forStmt : Rule Unit :=
  discard <| nodeOf do
    consume .forKw
    require .leftParen
    let kind ← bracketed loopHeader
    require .rightParen
    call .statement
    return kind

/-- The variable that a resource declares, up to its `=`. -/
def resourceVariable : Rule Unit := do
  if ← seesLocalVarDecl then
    discard modifiers
    discard <| call .type
    require .identifier
    require .eq

/-- One resource of a `try`; answers whether another one may follow. -/
def resource : Rule Bool := do
  let found ← nodeIf do
    let before ← position
    resourceVariable
    discard anyExpression
    return if (← position) = before then none else some .resource
  if found.isSome then accept .semicolon else return false

def resourceSpec : Rule Unit :=
  discard <| node .resourceSpec do
    consume .leftParen
    bracketed <| loop do
      if ← sees .rightParen <||> sees .eof then return false else resource
    require .rightParen

def catchClause : Rule Unit :=
  keywordStmt .catchClause .catchKw do
    require .leftParen
    discard <| node .catchParam do
      discard modifiers
      unionType
      require .identifier
    require .rightParen
    call .block

/-- The `catch` clauses of a `try`; answers whether there were any. -/
def catchClauses : Rule Bool :=
  loopAny do
    if ← sees .catchKw then
      catchClause
      return true
    else
      return false

/-- Resources of a `try`; answers whether there were any. -/
def optionalResources : Rule Bool := do
  if ← sees .leftParen then
    resourceSpec
    return true
  else
    return false

/-- A `try`, which needs resources or something that handles its outcome. -/
def tryStmt : Rule Unit :=
  keywordStmt .tryStmt .tryKw do
    let resources ← optionalResources
    call .block
    let caught ← catchClauses
    if ← sees .finallyKw then
      keywordStmt .finallyClause .finallyKw (call .block)
    else if !caught && !resources then
      expectedHere "`catch` or `finally`"

/-- Whether the `yield` at the cursor starts a statement and is no plain name. -/
def isYieldStmt (cursor : TokenCursor) : Bool :=
  isWordAt cursor 0 .yieldKw &&
    match cursor.nth 1 with
    | .eq | .plusEq | .minusEq | .starEq | .slashEq | .percentEq | .ampEq | .pipeEq => false
    | .caretEq | .shlEq | .gt | .dot | .leftBracket | .semicolon | .colon => false
    | .colonColon | .arrow | .eof => false
    | .plusPlus | .minusMinus => cursor.nth 2 != .semicolon
    | _ => true

/-- Whether a token can start a declaration of a local type, records apart. -/
def startsLocalType : Kind → Bool
  | .classKw | .interfaceKw | .enumKw | .abstractKw | .staticKw | .strictfpKw | .finalKw => true
  | .atSign => true
  | _ => false

/-- Whether a token can start a declaration of local variables. -/
def startsLocalVar (kind : Kind) : Bool :=
  kind == .identifier || kind == .finalKw || kind == .atSign || kind.isPrimitiveType

/-- A statement that no keyword of its own begins. -/
def plainStatement : Rule Unit := do
  let kind ← current
  if ← pure (startsLocalType kind) <&&> seesLocalTypeDecl then
    discard <| node .localTypeDecl typeDecl
  else if ← pure (startsLocalVar kind) <&&> seesLocalVarDecl then
    localVarDecl statementEnd
  else
    exprStmt

/-- A statement that begins with a name. -/
def nameStatement : Rule Unit := do
  let cursor ← cursor
  if cursor.nth 1 = .colon then
    discard <| node .labeledStmt do
      consume .identifier
      consume .colon
      call .statement
  else if isYieldStmt cursor then
    discard <| node .yieldStmt do
      consumeAs .yieldKw
      discard anyExpression
      statementEnd
  else if isWordAt cursor 0 .recordKw ∧ cursor.nth 1 = .identifier then
    discard <| node .localTypeDecl typeDecl
  else
    plainStatement

/-- A jump, with a label or without. -/
def jumpStmt (kind : Kind) : Rule Unit :=
  discard <| node kind do
    consumeAny
    discard <| accept .identifier
    statementEnd

/-- An expression behind a colon, if there is one. -/
def assertMessage : Rule Unit := do
  if ← accept .colon then
    discard anyExpression

/-- One statement, by the token it begins with. -/
def statementHere : Rule Unit := do
  match ← current with
  | .leftBrace => call .block
  | .semicolon => discard <| node .emptyStmt (consume .semicolon)
  | .ifKw => ifStmt
  | .whileKw =>
    keywordStmt .whileStmt .whileKw do
      condition
      call .statement
  | .doKw =>
    keywordStmt .doWhileStmt .doKw do
      call .statement
      require .whileKw
      condition
      statementEnd
  | .forKw => forStmt
  | .tryKw => tryStmt
  | .switchKw =>
    keywordStmt .switchStmt .switchKw do
      condition
      switchBlock
  | .returnKw =>
    keywordStmt .returnStmt .returnKw do
      unlessSees .semicolon (discard anyExpression)
      statementEnd
  | .throwKw =>
    keywordStmt .throwStmt .throwKw do
      discard anyExpression
      statementEnd
  | .breakKw => jumpStmt .breakStmt
  | .continueKw => jumpStmt .continueStmt
  | .assertKw =>
    keywordStmt .assertStmt .assertKw do
      discard anyExpression
      assertMessage
      statementEnd
  | .synchronizedKw =>
    if ← nthIs 1 .leftParen then
      keywordStmt .synchronizedStmt .synchronizedKw do
        condition
        call .block
    else
      plainStatement
  | .identifier => nameStatement
  | _ => plainStatement

/-- One statement. -/
def statement : Rule Unit := nested () statementHere

end LosslessJava.Grammar
