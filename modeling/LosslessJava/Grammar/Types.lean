import LosslessJava.Grammar.Modifiers

/-!
Types, type arguments and type parameters.
-/
namespace LosslessJava.Grammar

open LosslessJava.Parser

/-- Whether a pair of empty brackets stands here. -/
def seesDims : Rule Bool := sees .leftBracket <&&> nthIs 1 .rightBracket

def emptyBrackets : Rule Unit := do
  consume .leftBracket
  consume .rightBracket

theorem left_lt_of_nth {cursor : TokenCursor} {n m : Nat} (more : cursor.nth n ≠ .eof) (later : n < m) :
    cursor.stream.size - (cursor.position + m) < cursor.stream.size - (cursor.position + n) := by
  have inside : cursor.position + n < cursor.stream.size := by
    refine Nat.lt_of_not_le fun behind => more (TokenStream.kind_tokenAt_of_le ?_)
    simp only [TokenCursor.index]
    omega
  omega

/-- Index behind pairs of a dot and a name. -/
def nameTailEnd (cursor : TokenCursor) (n : Nat) : Nat :=
  if cursor.nth n = .dot ∧ cursor.nth (n + 1) = .identifier then nameTailEnd cursor (n + 2) else n
  termination_by cursor.stream.size - (cursor.position + n)
  decreasing_by
    rename_i pair
    exact left_lt_of_nth (by simp [pair.1]) (by omega)

theorem le_nameTailEnd (cursor : TokenCursor) (n : Nat) : n ≤ nameTailEnd cursor n := by
  fun_induction nameTailEnd cursor n with
  | case1 n pair ih => omega
  | case2 n none => exact Nat.le_refl n

/-- Index behind the bracket that closes `depth` open ones, if one does. -/
def parensEnd? (cursor : TokenCursor) (depth n : Nat) : Option Nat :=
  if cursor.nth n = .eof then
    none
  else if cursor.nth n = .leftParen then
    parensEnd? cursor (depth + 1) (n + 1)
  else if cursor.nth n = .rightParen then
    if depth ≤ 1 then some (n + 1) else parensEnd? cursor (depth - 1) (n + 1)
  else
    parensEnd? cursor depth (n + 1)
  termination_by cursor.stream.size - (cursor.position + n)
  decreasing_by all_goals exact left_lt_of_nth ‹_› (by omega)

theorem lt_of_parensEnd? {cursor : TokenCursor} {depth n close : Nat} (closed : parensEnd? cursor depth n = some close) :
    n < close := by
  fun_induction parensEnd? cursor depth n with
  | case1 => cases closed
  | case3 => cases closed; omega
  | case2 depth n _ _ ih | case4 depth n _ _ _ _ ih | case5 depth n _ _ _ ih =>
    have later := ih closed
    omega

/-- Whether a kind of token stands behind the annotations at `n`. An annotation is taken to be two
tokens, a name's tail and brackets, whatever the second token is. -/
def annotationsThen (cursor : TokenCursor) (kind : Kind) (n : Nat) : Bool :=
  if cursor.nth n = .atSign then
    let behind := nameTailEnd cursor (n + 2)
    if cursor.nth behind = .leftParen then
      match _closed : parensEnd? cursor 0 behind with
      | some close => annotationsThen cursor kind close
      | none => false
    else
      annotationsThen cursor kind behind
  else
    cursor.nth n == kind
  termination_by cursor.stream.size - (cursor.position + n)
  decreasing_by
    all_goals
      have here : cursor.nth n = .atSign := by assumption
      have tail := le_nameTailEnd cursor (n + 2)
      refine left_lt_of_nth (by simp [here]) ?_
    · have later := lt_of_parensEnd? _closed
      omega
    · omega

/-- Whether a wildcard stands here, annotations in front of it included. -/
def seesWildcard : Rule Bool := do
  if ← sees .question then
    return true
  else if ← sees .atSign then
    let cursor ← cursor
    return annotationsThen cursor .question 0
  else
    return false

/-- What bounds a wildcard. -/
def wildcardBound : Rule Unit := do
  if ← sees .extendsKw <||> sees .superKw then
    consumeAny
    discard <| call .type

def wildcard : Rule Unit :=
  discard <| node .wildcardType do
    discard annotations
    consume .question
    wildcardBound

/-- One type argument; answers whether there was one. -/
def typeArg : Rule Bool := do
  if ← seesWildcard then
    wildcard
    return true
  else
    return (← call .type).isSome

def typeArgs : Rule Unit :=
  discard <| node .typeArgList do
    if ← nthIs 1 .gt then
      consume .lt
      consume .gt
    else
      delimited .lt .gt .comma "type argument" First.typeArgument (call .typeArg)

/-- A dot and a name behind it, perhaps annotated; answers whether there was a name. -/
def classTypeSegment : Rule Bool := do
  whenSees .lt typeArgs
  let next ← nth 1
  let annotated := next == .atSign && (← nth 2) != .interfaceKw
  if ← sees .dot <&&> pure (next == .identifier || annotated) then
    consume .dot
    discard annotations
    if ← accept .identifier then
      return true
    else
      expectedHere "identifier"
      return false
  else
    return false

/-- The names of a class type, with type arguments and annotations; all in one node. -/
def classTypeSegments : Rule Unit := do
  consume .identifier
  loop classTypeSegment

/-- A primitive or class type without array dimensions. -/
def elementType : Rule (Option Completed) := do
  let found ← nodeIf do
    let annotated ← annotations
    if ← seesAny First.primitiveType then
      consumeAny
      return some .primitiveType
    else if ← sees .identifier then
      classTypeSegments
      return some .classType
    else
      expectedHere "type"
      return if annotated then some .error else none
  return found.filter fun node => node.kind != .error

/-- Pairs of empty brackets, each of which makes an array type of the type before it. -/
def arraySuffix (type : Completed) : Rule Completed :=
  loopFrom type fun type => do
    if ← seesDims then
      return some (← around type do
        emptyBrackets
        return .arrayType)
    else
      return none

/-- A type. -/
def type : Rule (Option Completed) :=
  nested none do
    match ← elementType with
    | some type => return some (← arraySuffix type)
    | none => return none

/-- Dimensions behind a declared name, if there are any. -/
def dims : Rule Unit := do
  if ← seesDims then
    discard <| node .dims <| loop do
      if ← seesDims then
        emptyBrackets
        return true
      else
        return false

/-- The type of a result: `void` or a type. -/
def resultType : Rule (Option Completed) := do
  if ← sees .voidKw then
    return some (← node .voidType (consume .voidKw))
  else
    call .type

/-- Types joined by an operator, as in a bound. -/
def typesAfter (operator : Kind) : Rule Unit :=
  loop do
    if ← accept operator then
      discard <| call .type
      return true
    else
      return false

/-- What bounds a type parameter. -/
def typeBound : Rule Unit :=
  whenSees .extendsKw <| discard <| node .typeBound do
    consume .extendsKw
    discard <| call .type
    typesAfter .amp

/-- One type parameter; answers whether there was one. -/
def typeParam : Rule Bool := do
  let param ← nodeIf do
    discard annotations
    if ← sees .identifier then
      consume .identifier
      typeBound
      return some .typeParam
    else
      expectedHere "type parameter"
      return none
  return param.isSome

def typeParams : Rule Unit :=
  discard <| node .typeParamList <|
    delimited .lt .gt .comma "type parameter" First.type typeParam

/-- Consumes a keyword, contextual or not. -/
def consumeKeyword (keyword : Kind) : Rule Unit :=
  if keyword.isContextualKeyword then consumeAs keyword else consume keyword

/-- A keyword and a list of types. -/
def clause (keyword kind : Kind) : Rule Unit :=
  discard <| node kind do
    consumeKeyword keyword
    commaSeparated (discard <| call .type)

/-- A type, or types joined by an operator and put into a node of a kind. -/
def compoundType (operator kind : Kind) : Rule Unit := do
  match ← call .type with
  | some type =>
    whenSees operator <| discard <| around type do
      typesAfter operator
      return kind
  | none => return ()

/-- The type of a cast. -/
def intersectionType : Rule Unit := compoundType .amp .intersectionType

/-- The type of a caught exception. -/
def unionType : Rule Unit := compoundType .pipe .unionType

end LosslessJava.Grammar
