import LosslessJava.Grammar.First
import LosslessJava.Parser.Program

/-!
Lookahead: decisions where the next token alone does not tell which rule applies. A decision reads
tokens ahead without moving, and only so many of them. One that would need more is reported as an
ambiguity; it has then seen an end of input in place of the tokens beyond the limit.
-/
namespace LosslessJava.Parser

/-- What the `(` at the current token opens. -/
inductive ParenKind where
  | lambda
  | cast
  | parenthesized
  deriving DecidableEq, Repr, Inhabited

/-- Which pattern stands at the current token. -/
inductive PatternKind where
  | type
  | record
  deriving DecidableEq, Repr

namespace Lookahead

/-- What a decision looks at. -/
structure View where
  cursor : TokenCursor
  limit : Nat

/-- A look ahead, which remembers whether it hit the limit. There is no answer where it is not at
its end after as many steps as it may take. -/
abbrev Peek := ReaderT View (StateT Bool Option)

/-- A look for the end of a form, which fails where the form does not stand. -/
abbrev Scan := OptionT Peek

/-- Kind of the token `n` places ahead; beyond the limit there is only an end of input. -/
def nth (n : Nat) : Peek Kind := do
  let view ← read
  if view.limit ≤ n then
    set true
    return .eof
  else
    return view.cursor.nth n

def nthIs (n : Nat) (kind : Kind) : Peek Bool := return (← nth n) == kind

def nthIsWord (n : Nat) (keyword : Kind) : Peek Bool := do
  if ← nthIs n .identifier then
    return isWordAt (← read).cursor n keyword
  else
    return false

/-- Bound on the steps of a scan: behind the last token every scan stops. -/
def stepLimit : Peek Nat := return (← read).cursor.stream.size + 1

/-- No answer, after the last of the steps that a scan may take. -/
def outOfSteps {α : Type} : Peek α := fun _ _ => none

/-- Both of two looks; the second is not made where the first fails. -/
def both (first second : Peek Bool) : Peek Bool := do
  if ← first then second else return false

/-- The bracket that closes an opening one. -/
def closing? : Kind → Option Kind
  | .leftParen => some .rightParen
  | .leftBracket => some .rightBracket
  | .leftBrace => some .rightBrace
  | _ => none

/-- Index of the closing bracket for `depth` open ones, from `i` on. -/
def closingFrom (opener closer : Kind) : Nat → Nat → Nat → Scan Nat
  | 0, _, _ => outOfSteps
  | steps + 1, depth, i => do
    let kind ← nth i
    if kind = .eof then
      failure
    else if kind = opener then
      closingFrom opener closer steps (depth + 1) (i + 1)
    else if kind = closer then
      if depth ≤ 1 then return i else closingFrom opener closer steps (depth - 1) (i + 1)
    else
      closingFrom opener closer steps depth (i + 1)

/-- Index of the bracket closing the one at `n`. -/
def balanced (n : Nat) : Scan Nat := do
  let opener ← nth n
  match closing? opener with
  | some closer => closingFrom opener closer (← stepLimit) 0 n
  | none => failure

/-- Index behind pairs of a dot and a name. -/
def nameTail : Nat → Nat → Peek Nat
  | 0, _ => outOfSteps
  | steps + 1, n => do
    if ← both (nthIs n .dot) (nthIs (n + 1) .identifier) then nameTail steps (n + 2) else return n

/-- Index behind a qualified name. -/
def qualifiedName (n : Nat) : Scan Nat := do
  if ← nthIs n .identifier then nameTail (← stepLimit) (n + 1) else failure

/-- Index behind annotations, of which there may be none. -/
def annotationsFrom : Nat → Nat → Scan Nat
  | 0, _ => outOfSteps
  | steps + 1, n => do
    if ← both (nthIs n .atSign) (return (← nth (n + 1)) != .interfaceKw) then
      let n ← qualifiedName (n + 1)
      if ← nthIs n .leftParen then
        annotationsFrom steps ((← balanced n) + 1)
      else
        annotationsFrom steps n
    else
      return n

def annotations (n : Nat) : Scan Nat := do annotationsFrom (← stepLimit) n

/-- Index behind annotations and those other modifiers that `accepts` allows. -/
def modifiersFrom (accepts : Nat → Peek Bool) : Nat → Nat → Scan Nat
  | 0, _ => outOfSteps
  | steps + 1, n => do
    let n ← annotations n
    if ← accepts n then modifiersFrom accepts steps (n + 1) else return n

/-- Index behind `final` and annotations, the modifiers of local variables. -/
def localModifiers (n : Nat) : Scan Nat := do
  modifiersFrom (nthIs · .finalKw) (← stepLimit) n

/-- Index behind modifiers of a type declaration. -/
def modifiers (n : Nat) : Scan Nat := do
  let accepts (n : Nat) : Peek Bool := do
    let kind ← nth n
    if Grammar.First.modifier.contains kind then return true else nthIsWord n .sealedKw
  modifiersFrom accepts (← stepLimit) n

/-- Index behind pairs of empty brackets. -/
def dimsFrom : Nat → Nat → Peek Nat
  | 0, _ => outOfSteps
  | steps + 1, n => do
    if ← both (nthIs n .leftBracket) (nthIs (n + 1) .rightBracket) then
      dimsFrom steps (n + 2)
    else
      return n

def dims (n : Nat) : Peek Nat := do dimsFrom (← stepLimit) n

/-- Index behind the type arguments of which the next stands at `n`, their closing `>` included;
each `>` is a token of its own, so nested lists close one by one. -/
def typeArgumentsFrom (type : Nat → Scan Nat) : Nat → Nat → Scan Nat
  | 0, _ => outOfSteps
  | steps + 1, n => do
    let n ← annotations n
    let n ← do
      if ← nthIs n .question then
        let bound ← nth (n + 1)
        if bound = .extendsKw ∨ bound = .superKw then type (n + 2) else pure (n + 1)
      else
        type n
    match ← nth n with
    | .comma => typeArgumentsFrom type steps (n + 1)
    | .gt => return n + 1
    | _ => failure

/-- Index behind a list of type arguments whose `<` is at `n`. -/
def typeArguments (type : Nat → Scan Nat) (n : Nat) : Scan Nat := do
  if ← nthIs (n + 1) .gt then
    return n + 2
  else
    typeArgumentsFrom type (← stepLimit) (n + 1)

/-- Index behind the rest of a class type, of which a name was read. -/
def typeSegments (type : Nat → Scan Nat) : Nat → Nat → Scan Nat
  | 0, _ => outOfSteps
  | steps + 1, n => do
    let n ← do
      if ← nthIs n .lt then typeArguments type n else pure n
    if ← nthIs n .dot then
      let after ← annotations (n + 1)
      if ← nthIs after .identifier then typeSegments type steps (after + 1) else return n
    else
      return n

/-- Index behind a type, for types nested less than `levels` deep. -/
def typeWithin : Nat → Nat → Scan Nat
  | 0, _ => outOfSteps
  | levels + 1, n => do
    let n ← annotations n
    let kind ← nth n
    if kind.isPrimitiveType then
      dims (n + 1)
    else if kind = .identifier then
      dims (← typeSegments (typeWithin levels) (← stepLimit) (n + 1))
    else
      failure

/-- Index behind a type at `n`, array dimensions included. -/
def type (n : Nat) : Scan Nat := do typeWithin (← stepLimit) n

/-- Index behind further parts of an intersection. -/
def intersectionFrom : Nat → Nat → Scan Nat
  | 0, _ => outOfSteps
  | steps + 1, n => do
    if ← nthIs n .amp then intersectionFrom steps (← type (n + 1)) else return n

/-- Index behind the type of a cast. -/
def castType (n : Nat) : Scan Nat := do intersectionFrom (← stepLimit) (← type n)

/-- Index of the `)` behind bare names that are separated by commas. -/
def bareParams : Nat → Nat → Scan Nat
  | 0, _ => outOfSteps
  | steps + 1, n => do
    let name ← nth n
    let next ← nth (n + 1)
    match name, next with
    | .identifier, .comma => bareParams steps (n + 2)
    | .identifier, .rightParen => return n + 1
    | _, _ => failure

/-- Index of the `)` behind parameters with types. -/
def typedParams : Nat → Nat → Scan Nat
  | 0, _ => outOfSteps
  | steps + 1, n => do
    let n ← localModifiers n
    let n ← type n
    let n ← annotations n
    let n := if ← nthIs n .ellipsis then n + 1 else n
    if ← nthIs n .identifier then
      let n ← dims (n + 1)
      match ← nth n with
      | .comma => typedParams steps (n + 1)
      | .rightParen => return n
      | _ => failure
    else
      failure

/-- Index of the `)` of a lambda's parameters, the first of which is at `n`: none at all, bare names
or parameters with types. -/
def lambdaParams (n : Nat) : Scan Nat := do
  let kind ← nth n
  if kind = .rightParen then
    return n
  else if kind = .identifier then
    let next ← nth (n + 1)
    if next = .comma ∨ next = .rightParen then
      bareParams (← stepLimit) n
    else
      typedParams (← stepLimit) n
  else
    typedParams (← stepLimit) n

/-- Whether an operand without operators in front can start with a kind of token. -/
def startsPrimary (kind : Kind) : Bool :=
  kind.isLiteral || kind.isPrimitiveType ||
    match kind with
    | .identifier | .leftParen | .thisKw | .superKw | .newKw | .switchKw | .voidKw => true
    | _ => false

/-- Whether the token at `n` can follow a cast to a reference type. A sign counts, so `(Foo) -1` is
a cast; an increment counts only with an operand after it, so `(i)++` is none. -/
def startsCastOperand (n : Nat) : Peek Bool := do
  match ← nth n with
  | .plus | .minus | .bang | .tilde => return true
  | .plusPlus | .minusMinus => return startsPrimary (← nth (n + 1))
  | kind => return startsPrimary kind

/-- Whether a lambda's parameters and its arrow follow the `(`. -/
def isLambda : Scan Bool := do nthIs ((← lambdaParams 1) + 1) .arrow

/-- Whether a type of its own in the brackets, and what follows them, make a cast. -/
def isCast : Scan Bool := do
  let close ← castType 1
  if ← nthIs close .rightParen then
    let first ← nth (← annotations 1)
    if first.isPrimitiveType then return true else startsCastOperand (close + 1)
  else
    return false

/-- The answer of a scan, or `false` where it fails. -/
def succeeds (scan : Scan Bool) : Peek Bool := return (← scan.run).getD false

/-- A lambda wins over a cast and a cast over an expression in brackets. -/
def parenKind (noLambda : Bool) : Peek ParenKind := do
  if ← both (return !noLambda) (succeeds isLambda) then
    return .lambda
  else if ← succeeds isCast then
    return .cast
  else
    return .parenthesized

/-- Skips opening brackets, at most `limit` of them. -/
def patternKindFrom : Nat → Nat → Scan PatternKind
  | 0, _ => outOfSteps
  | limit + 1, n => do
    if ← nthIs n .leftParen then
      patternKindFrom limit (n + 1)
    else
      let stop ← type (← localModifiers n)
      match ← nth stop with
      | .identifier => return .type
      | .leftParen => return .record
      | _ => failure

/-- A type with a name behind it. -/
def isLocalVarDecl : Scan Bool := do nthIs (← type (← localModifiers 0)) .identifier

/-- Modifiers with `class`, `interface`, `enum`, `@interface` or a record's head behind them. -/
def isLocalTypeDecl : Scan Bool := do
  let n ← modifiers 0
  match ← nth n with
  | .classKw | .interfaceKw | .enumKw => return true
  | .atSign => nthIs (n + 1) .interfaceKw
  | _ => both (nthIsWord n .recordKw) (nthIs (n + 1) .identifier)

/-- A type, a name and a colon. -/
def isForeach : Scan Bool := do
  let stop ← type (← localModifiers 0)
  both (nthIs stop .identifier) (nthIs (stop + 1) .colon)

/-- A name with empty brackets, and `.class` or `::` behind them. -/
def isArrayTypeLiteral : Scan Bool := do
  let n ← qualifiedName 0
  if ← both (nthIs n .leftBracket) (nthIs (n + 1) .rightBracket) then
    let stop ← dims n
    let first ← nth stop
    let second ← nth (stop + 1)
    return first == .colonColon || (first == .dot && second == .classKw)
  else
    return false

/-- What a look gives, and whether it hit the limit. -/
def Peek.decide {α : Type} (peek : Peek α) (cursor : TokenCursor) (limit : Nat) :
    Option (α × Bool) :=
  (peek.run ⟨cursor, limit⟩).run false

end Lookahead

open Lookahead

variable {N : Type → Type}

/-- Makes a decision at the current token, and reports when it ran into the limit. A look that
comes to no end keeps the parse from coming to one. -/
def decideBy {α : Type} [Inhabited α] (what : String) (peek : Peek α) : Program N α := do
  let limit ← .act .lookaheadLimit
  match peek.decide (← cursor) limit with
  | some (decision, exhausted) =>
    if exhausted then
      report (.undecided what limit)
      return decision
    else
      return decision
  | none => endless

/-- What the `(` at the current token opens. -/
def parenKindHere : Program N ParenKind := do
  decideBy "cast, lambda or parenthesized expression" (parenKind (← .act .noLambda))

/-- Whether a declaration of local variables stands here. -/
def seesLocalVarDecl : Program N Bool :=
  decideBy "declaration or expression" (Lookahead.succeeds isLocalVarDecl)

/-- Whether a declaration of a local type stands here. -/
def seesLocalTypeDecl : Program N Bool :=
  decideBy "local type declaration" (Lookahead.succeeds isLocalTypeDecl)

/-- Whether the head of a `for` loop over a collection stands here. -/
def seesForeach : Program N Bool := decideBy "enhanced for header" (Lookahead.succeeds isForeach)

/-- Which pattern stands here, if any does. -/
def patternKindHere : Program N (Option PatternKind) :=
  decideBy "pattern or expression" do (patternKindFrom (← stepLimit) 0).run

/-- Whether an array type with `.class` or `::` behind it stands here. -/
def seesArrayTypeLiteral : Program N Bool :=
  decideBy "array type literal" (Lookahead.succeeds isArrayTypeLiteral)

end LosslessJava.Parser
