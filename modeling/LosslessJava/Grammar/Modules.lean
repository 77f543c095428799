import LosslessJava.Grammar.Modifiers

/-!
Module declarations. The keywords of directives are names everywhere but in a module's body.
-/
namespace LosslessJava.Grammar

open LosslessJava.Parser

/-- Whether a module declaration stands at the cursor. -/
def isModuleDecl (cursor : TokenCursor) : Bool :=
  let n := if isWordAt cursor 0 .openKw then 1 else 0
  isWordAt cursor n .moduleKw && cursor.nth (n + 1) == .identifier

/-- What may follow `requires`. Before a semicolon, `transitive` is the name of a module. -/
def requiresModifiers : Rule Unit :=
  loop do
    if ← sees .staticKw then
      consume .staticKw
      return true
    else if ← nthIsWord 0 .transitiveKw <&&> nthIs 1 .identifier then
      consumeAs .transitiveKw
      return true
    else
      return false

/-- The modules that a package is exported or opened to. -/
def targets : Rule Unit := do
  if ← seesWord .toKw then
    consumeAs .toKw
    commaSeparated qualifiedName

/-- The implementations of a service. -/
def implementations : Rule Unit := do
  if ← seesWord .withKw then
    consumeAs .withKw
    commaSeparated qualifiedName
  else
    expectedHere "`with`"

/-- A directive up to its semicolon; answers the kind of its node if there is one. -/
def directiveHead : Rule (Option Kind) := do
  if ← seesWord .requiresKw then
    consumeAs .requiresKw
    requiresModifiers
    qualifiedName
    return some .requiresDirective
  else if ← seesWord .exportsKw then
    consumeAs .exportsKw
    qualifiedName
    targets
    return some .exportsDirective
  else if ← seesWord .opensKw then
    consumeAs .opensKw
    qualifiedName
    targets
    return some .opensDirective
  else if ← seesWord .usesKw then
    consumeAs .usesKw
    qualifiedName
    return some .usesDirective
  else if ← seesWord .providesKw then
    consumeAs .providesKw
    qualifiedName
    implementations
    return some .providesDirective
  else
    return none

/-- A directive, or what is skipped in its place; answers the kind of its node if there is one. -/
def directiveRest : Rule (Option Kind) := do
  match ← directiveHead with
  | some kind =>
    semicolon Sync.directive
    return some kind
  | none =>
    expectedThenRecover "a module directive" Sync.directive
    discard <| accept .semicolon
    return none

def directive : Rule Unit := discard <| nodeIf directiveRest

def moduleBody : Rule Unit := do
  if ← sees .leftBrace then
    discard <| node .moduleBody do
      consume .leftBrace
      listUntil .rightBrace directive
      require .rightBrace
  else
    expectedHere Kind.leftBrace.describe

/-- The word in front of an open module. -/
def optionalOpen : Rule Unit := do
  if ← seesWord .openKw then
    consumeAs .openKw

/-- A module declaration, up to the end of its body. -/
def moduleDecl : Rule Unit := do
  optionalOpen
  consumeAs .moduleKw
  qualifiedName
  moduleBody

end LosslessJava.Grammar
