import LosslessJava.Grammar.Patterns

/-!
Switch blocks: entries with labels that end in `:` or `->`. The end of a label decides what its
entry is; the first label of a block fixes the form, and a later one of the other form is reported
where it ends.
-/
namespace LosslessJava.Grammar

open LosslessJava.Parser

/-- An expression of any sort. -/
def anyExpression : Rule (Option Completed) := call (.expression .assignment)

/-- An expression in round brackets, as after `if`, `while` and `switch`. -/
def condition : Rule Unit :=
  discard <| node .condition do
    require .leftParen
    discard <| bracketed anyExpression
    require .rightParen

/-- An expression with a semicolon. Where the expression is missing, tokens are skipped. -/
def exprAndSemicolon : Rule Unit := do
  if (← anyExpression).isSome then
    semicolon Sync.statement
  else
    recover Sync.statement
    discard <| accept .semicolon

/-- A statement that is an expression. Nothing is recorded if no token was consumed. -/
def exprStmt : Rule Unit :=
  discard <| nodeIf do
    let before ← position
    exprAndSemicolon
    return if (← position) = before then none else some .exprStmt

/-- The condition that `&&` adds to a pattern in a label. -/
def guardedPattern (pattern : Completed) : Rule Unit :=
  whenSees .ampAmp <| discard <| around pattern do
    consume .ampAmp
    discard <| call (.expression .logicalAnd)
    return .guardedPattern

/-- One item of a `case` label: `default`, a pattern or an expression. -/
def caseItem : Rule Unit := do
  if ← sees .defaultKw then
    consume .defaultKw
  else if (← patternKindHere).isSome then
    match ← call .pattern with
    | some pattern => guardedPattern pattern
    | none => return ()
  else
    discard <| call (.expression .conditional)

/-- The condition behind `when`, if there is one. -/
def optionalGuard : Rule Unit := do
  if ← seesWord .whenKw then
    discard <| node .guard do
      consumeAs .whenKw
      discard anyExpression

/-- What stands between `case` and the end of the label. -/
def caseItems : Rule Unit := do
  commaSeparated caseItem
  optionalGuard

/-- The end of a label, in a block of which `form` is the form so far. Answers the end, which is `:`
or the form so far where it is missing, and the form from here on. -/
def terminator (form : Option Kind) : Rule (Kind × Option Kind) := do
  if ← sees .colon <||> sees .arrow then
    let kind ← current
    let established := form.getD kind
    if established = kind then
      consume kind
      return (kind, some established)
    else
      report (.mixedLabels kind established)
      consume kind
      return (kind, some established)
  else
    expectedHere "`:` or `->`"
    return (form.getD .colon, form)

/-- What introduces a label: `default`, or `case` with its items. -/
def labelHead : Rule Unit := do
  if ← sees .defaultKw then
    consume .defaultKw
  else
    consume .caseKw
    withNoLambda true caseItems

/-- One label. Answers its end and the form of the block from here on. -/
def switchLabel (form : Option Kind) : Rule (Kind × Option Kind) :=
  nodeWith do
    labelHead
    return (.switchLabel, ← call (.terminator form))

/-- Whether a label stands here. -/
def seesLabel : Rule Bool := sees .caseKw <||> sees .defaultKw

/-- What a label that ends in an arrow leads to. -/
def ruleBody : Rule Unit := do
  match ← current with
  | .leftBrace => call .block
  | .throwKw => call .statement
  | _ => exprStmt

/-- The statements of a group of labels. -/
def groupStatements : Rule Unit :=
  loop do
    if ← seesLabel <||> sees .rightBrace <||> sees .eof then
      return false
    else
      let before ← position
      call .statement
      return (← position) != before

/-- Labels that share their statements with one before them. Answers the form of the block. -/
def moreLabels (form : Option Kind) : Rule (Option Kind) :=
  loopFrom form fun form => do
    if ← seesLabel then
      return some (← switchLabel form).2
    else
      return none

/-- A rule, or a group of labels with the statements they share. Answers the form of the block. -/
def switchEntry (form : Option Kind) : Rule (Option Kind) :=
  nodeWith do
    let (ending, form) ← switchLabel form
    if ending = .arrow then
      ruleBody
      return (.switchRule, form)
    else
      let form ← moreLabels form
      groupStatements
      return (.switchGroup, form)

/-- An entry of a block, or what stands in its place. Answers the form of the block. -/
def entryOrError (form : Option Kind) : Rule (Option Kind) := do
  if ← seesLabel then
    switchEntry form
  else
    expectedThenRecover "`case` or `default`" Sync.switchEntry
    return form

/-- One entry of a block of which `form` is the form so far, or nothing at the end of the block. -/
def nextEntry (form : Option Kind) : Rule (Option (Option Kind)) := do
  if ← sees .rightBrace <||> sees .eof then
    return none
  else
    let before ← position
    let form ← entryOrError form
    if (← position) = before then
      reportAndSkip (.unexpected (← current))
      return some form
    else
      return some form

def switchBlock : Rule Unit := do
  if ← sees .leftBrace then
    discard <| node .switchBlock do
      consume .leftBrace
      discard <| loopFrom none nextEntry
      require .rightBrace
  else
    expectedHere Kind.leftBrace.describe

def switchExpr : Rule Completed :=
  node .switchExpr do
    consume .switchKw
    condition
    switchBlock

end LosslessJava.Grammar
