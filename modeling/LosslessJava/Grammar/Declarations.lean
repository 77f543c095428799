import LosslessJava.Grammar.Expressions

/-!
Declarations of types and of their members.
-/
namespace LosslessJava.Grammar

open LosslessJava.Parser

/-- An initial value behind `=`, if there is one. -/
def optionalInitializer : Rule Unit := do
  if ← accept .eq then
    discard variableInitializer

/-- Names with dimensions and initial values, separated by commas. -/
def variableDeclarators : Rule Unit :=
  commaSeparated <| discard <| node .variableDeclarator do
    require .identifier
    dims
    optionalInitializer

/-- Whether a keyword stands here, contextual or not. -/
def seesKeyword (keyword : Kind) : Rule Bool :=
  if keyword.isContextualKeyword then seesWord keyword else sees keyword

/-- The first of the forms, counted from `index`, whose keyword stands here. -/
def clauseHere (index : Nat) : List ClauseForm → Rule (Option (Nat × ClauseForm))
  | [] => return none
  | form :: rest => do
    if ← seesKeyword form.1 then return some (index, form) else clauseHere (index + 1) rest

/-- A clause, which is reported first if it is out of order. -/
def orderedClause (keyword kind : Kind) (inOrder : Bool) : Rule Unit := do
  if inOrder then
    clause keyword kind
  else
    report (.clauseOrder keyword)
    clause keyword kind

/-- One clause, if there is one, behind one that stands at `last` among the forms. -/
def clauseStep (forms : List ClauseForm) (last : Option Nat) : Rule (Option (Option Nat)) := do
  match ← clauseHere 0 forms with
  | some (index, (keyword, kind)) =>
    orderedClause keyword kind !(last.any (index ≤ ·))
    return some (some (max index (last.getD index)))
  | none => return none

/-- Clauses in the order of the given forms. One out of order, or repeated, is reported and gets its
node all the same. -/
def clauses (forms : List ClauseForm) : Rule Unit := discard <| loopFrom none (clauseStep forms)

def throwsClause : Rule Unit := call (.clauses [(.throwsKw, .throwsClause)])

def implementsClause : Rule Unit := call (.clauses [(.implementsKw, .implementsClause)])

/-- The mark of a parameter for any number of arguments, with annotations in front. -/
def ellipsisHere : Rule Unit := do
  if ← sees .atSign <||> sees .ellipsis then
    discard annotations
    require .ellipsis

/-- Whether a receiver stands behind a parameter's type; if so, it is consumed. -/
def receiver : Rule Bool := do
  if ← sees .thisKw then
    consume .thisKw
    return true
  else
    let dot ← nthIs 1 .dot
    let self ← nthIs 2 .thisKw
    if ← sees .identifier <&&> pure (dot && self) then
      consume .identifier
      consume .dot
      consume .thisKw
      return true
    else
      return false

/-- A parameter of a method or a component of a record; answers whether there was one. Only a
parameter can be a receiver. -/
def formalParam (kind : Kind) : Rule Bool := do
  let param ← nodeIf do
    discard modifiers
    if (← call .type).isSome then
      if ← pure (kind == .param) <&&> receiver then
        return some .receiverParam
      else
        ellipsisHere
        require .identifier
        dims
        return some kind
    else
      return none
  return param.isSome

def paramList : Rule Unit := do
  if ← sees .leftParen then
    discard <| node .paramList <|
      delimited .leftParen .rightParen .comma "parameter" First.param (formalParam .param)
  else
    expectedHere Kind.leftParen.describe

/-- The default value of an annotation's element. -/
def defaultValue : Rule Unit :=
  whenSees .defaultKw <| discard <| node .defaultValue do
    consume .defaultKw
    discard <| call .elementValue

/-- A default value, which only elements of annotation types have. -/
def defaultValueIn (body : Kind) : Rule Unit :=
  if body = .annotationTypeBody then defaultValue else return ()

def methodBody : Rule Unit := do
  if ← sees .leftBrace then
    call .block
  else if ← accept .semicolon then
    return ()
  else
    expectedThenRecover "method body or `;`" Sync.member

/-- What follows a method's name. -/
def methodRest (body : Kind) : Rule Kind := do
  paramList
  dims
  throwsClause
  defaultValueIn body
  methodBody
  return if body = .annotationTypeBody then .annotationMethodDecl else .methodDecl

def constructorDecl : Rule Kind := do
  consume .identifier
  paramList
  throwsClause
  call .block
  return .constructorDecl

/-- A member that begins with a type. -/
def methodOrField (body : Kind) : Rule Kind := do
  discard resultType
  if ← sees .identifier <&&> nthIs 1 .leftParen then
    consume .identifier
    methodRest body
  else
    variableDeclarators
    semicolon Sync.member
    return .fieldDecl

/-- A member that begins with type parameters. -/
def genericMember (body : Kind) : Rule Kind := do
  typeParams
  if ← sees .identifier <&&> nthIs 1 .leftParen then
    constructorDecl
  else
    discard resultType
    require .identifier
    methodRest body

/-- Whether a record's declaration stands at the cursor, which needs a name and a header. -/
def isRecordDecl (cursor : TokenCursor) : Bool :=
  isWordAt cursor 0 .recordKw && cursor.nth 1 == .identifier
    && (cursor.nth 2 == .leftParen || cursor.nth 2 == .lt)

/-- Whether a declaration of a type without its modifiers stands at the cursor. -/
def isTypeDecl (cursor : TokenCursor) : Bool :=
  match cursor.current with
  | .classKw | .interfaceKw | .enumKw => true
  | .atSign => cursor.nth 1 == .interfaceKw
  | .identifier => isRecordDecl cursor
  | _ => false

def classDecl : Rule Unit := do
  consume .classKw
  require .identifier
  whenSees .lt typeParams
  call <| .clauses
    [(.extendsKw, .extendsClause), (.implementsKw, .implementsClause), (.permitsKw, .permitsClause)]
  call (.classBody .classBody)

def interfaceDecl : Rule Unit := do
  consume .interfaceKw
  require .identifier
  whenSees .lt typeParams
  call <| .clauses [(.extendsKw, .extendsClause), (.permitsKw, .permitsClause)]
  call (.classBody .interfaceBody)

def enumDecl : Rule Unit := do
  consume .enumKw
  require .identifier
  implementsClause
  call (.classBody .enumBody)

def recordHeader : Rule Unit := do
  if ← sees .leftParen then
    discard <| node .recordHeader <|
      delimited .leftParen .rightParen .comma "record component" First.param
        (formalParam .recordComponent)
  else
    expectedHere "record header"

def recordDecl : Rule Unit := do
  consumeAs .recordKw
  require .identifier
  whenSees .lt typeParams
  recordHeader
  implementsClause
  call (.classBody .classBody)

def annotationTypeDecl : Rule Unit := do
  consume .atSign
  consume .interfaceKw
  require .identifier
  call (.classBody .annotationTypeBody)

/-- A declaration of a type behind its modifiers; answers the kind of its node, if there is one. -/
def typeDeclRest : Rule (Option Kind) := do
  let cursor ← cursor
  if isTypeDecl cursor then
    match cursor.current with
    | .classKw =>
      classDecl
      return some .classDecl
    | .interfaceKw =>
      interfaceDecl
      return some .interfaceDecl
    | .enumKw =>
      enumDecl
      return some .enumDecl
    | .atSign =>
      annotationTypeDecl
      return some .annotationTypeDecl
    | _ =>
      recordDecl
      return some .recordDecl
  else
    expectedThenRecover "a class, interface, enum or record declaration" Sync.item
    return none

/-- A declaration of a type with its modifiers. -/
def typeDecl : Rule Unit :=
  discard <| nodeIf do
    discard modifiers
    typeDeclRest

/-- A member behind its modifiers, in a body of a kind; answers the kind of its node, if there is
one. -/
def memberDeclRest (body : Kind) : Rule (Option Kind) := do
  let cursor ← cursor
  let kind := cursor.current
  if isTypeDecl cursor then
    typeDeclRest
  else if kind = .lt then
    return some (← genericMember body)
  else if kind = .identifier ∧ cursor.nth 1 = .leftParen then
    return some (← constructorDecl)
  else if kind = .identifier ∧ cursor.nth 1 = .leftBrace then
    consume .identifier
    call .block
    return some .compactConstructorDecl
  else if kind = .voidKw ∨ First.type.contains kind then
    return some (← methodOrField body)
  else
    expectedThenRecover "a member declaration" Sync.member
    return none

/-- A member that begins with modifiers or a type, in a body of a kind. -/
def memberDecl (body : Kind) : Rule Unit :=
  discard <| nodeIf do
    discard modifiers
    memberDeclRest body

/-- A member of a body of a kind. -/
def member (body : Kind) : Rule Unit := do
  if ← sees .semicolon then
    discard <| node .emptyDecl (consume .semicolon)
  else if ← sees .leftBrace <||> (sees .staticKw <&&> nthIs 1 .leftBrace) then
    discard <| node .initializerBlock do
      discard <| accept .staticKw
      call .block
  else
    memberDecl body

def enumConstant : Rule Unit :=
  discard <| node .enumConstant do
    discard modifiers
    require .identifier
    whenSees .leftParen argList
    whenSees .leftBrace (call (.classBody .classBody))

/-- Constants of an enum, with a semicolon where members may follow. -/
def enumConstants : Rule Unit := do
  loop do
    if ← sees .identifier <||> sees .atSign then
      enumConstant
      accept .comma
    else
      return false
  if ← sees .rightBrace then
    return ()
  else
    require .semicolon

/-- Constants, which only the body of an enum has. -/
def enumConstantsIn (body : Kind) : Rule Unit :=
  if body = .enumBody then enumConstants else return ()

/-- A body whose opening brace stands here. -/
def bracedBody (kind : Kind) : Rule Unit :=
  nested () do
    discard <| node kind do
      consume .leftBrace
      enumConstantsIn kind
      listUntil .rightBrace (member kind)
      require .rightBrace

/-- The braced body of a type. -/
def classBody (kind : Kind) : Rule Unit := do
  if ← sees .leftBrace then
    bracedBody kind
  else
    expectedThenRecover Kind.leftBrace.describe Sync.body
    whenSees .leftBrace (bracedBody kind)

end LosslessJava.Grammar
