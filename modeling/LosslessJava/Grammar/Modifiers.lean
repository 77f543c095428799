import LosslessJava.Grammar.Rules

/-!
Names, annotations and modifiers.
-/
namespace LosslessJava.Grammar

open LosslessJava.Parser

/-- Names joined by dots. -/
def qualifiedName : Rule Unit := do
  if ← sees .identifier then
    discard <| node .qualifiedName do
      consume .identifier
      loop do
        if ← sees .dot <&&> nthIs 1 .identifier then
          consume .dot
          consume .identifier
          return true
        else
          return false
  else
    expectedHere "identifier"

/-- Whether an annotation stands here, and not the declaration of an annotation type. -/
def seesAnnotation : Rule Bool := do
  if ← sees .atSign then return !(← nthIs 1 .interfaceKw) else return false

def elementValuePair : Rule Unit :=
  discard <| node .elementValuePair do
    require .identifier
    require .eq
    discard <| call .elementValue

/-- What stands in the brackets of an annotation. -/
def annotationArgs : Rule Unit := do
  if ← sees .rightParen then
    return ()
  else if ← sees .identifier <&&> nthIs 1 .eq then
    commaSeparated elementValuePair
  else
    discard <| call .elementValue

def annotation : Rule Unit :=
  discard <| node .annotationUse do
    consume .atSign
    qualifiedName
    whenSees .leftParen <| discard <| node .annotationArgList do
      consume .leftParen
      bracketed annotationArgs
      require .rightParen

/-- Annotations that belong to what follows them; answers whether there were any. -/
def annotations : Rule Bool :=
  loopAny do
    if ← seesAnnotation then
      annotation
      return true
    else
      return false

/-- A value in an annotation: an annotation, an expression, or values in braces. -/
def elementValue : Rule Bool := do
  if ← seesAnnotation then
    annotation
    return true
  else if ← sees .leftBrace then
    nested false do
      discard <| node .elementValueArray <|
        delimited .leftBrace .rightBrace .comma "element value" First.elementValue
          (call .elementValue)
      return true
  else
    return (← call (.expression .conditional)).isSome

/-- Whether `sealed` stands at the cursor as a modifier, which needs another modifier or the keyword
of a declaration after it. -/
def isSealed (cursor : TokenCursor) : Bool :=
  let next := cursor.nth 1
  isWordAt cursor 0 .sealedKw &&
    (First.modifier.contains next || next == .classKw || next == .interfaceKw || next == .atSign
      || (next == .identifier && cursor.nthText 1 == "non"))

/-- Whether `non-sealed` stands at the cursor, which comes as three tokens that touch. -/
def isNonSealed (cursor : TokenCursor) : Bool :=
  cursor.current == .identifier && cursor.nthText 0 == "non" && cursor.nth 1 == .minus
    && isWordAt cursor 2 .sealedKw && cursor.isJoint 0 && cursor.isJoint 1

/-- One modifier or annotation; answers whether there was one. -/
def modifier : Rule Bool := do
  if ← seesAnnotation then
    annotation
    return true
  else
    let cursor ← cursor
    if First.modifier.contains cursor.current then
      consumeAny
      return true
    else if isSealed cursor then
      consumeAs .sealedKw
      return true
    else if isNonSealed cursor then
      join .nonSealedKw 3
      return true
    else
      return false

/-- A list of modifiers, if there are any; answers whether there were. -/
def modifiers : Rule Bool := do
  let list ← nodeIf do
    return if ← loopAny modifier then some .modifierList else none
  return list.isSome

end LosslessJava.Grammar
