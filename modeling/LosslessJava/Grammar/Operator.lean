import LosslessJava.Grammar.Rules

/-!
Infix operators: their kinds, how tightly they bind, and where they stand in a token stream.
-/
namespace LosslessJava.Grammar

/-- An infix operator, which may be made of several tokens. -/
structure Operator where
  kind : Kind
  rawCount : Nat
  power : Power
  deriving DecidableEq, Repr

namespace Operator

/-- How tightly an infix operator binds; nothing for other kinds. -/
def power? : Kind → Option Power
  | .eq | .plusEq | .minusEq | .starEq | .slashEq | .percentEq => some .assignment
  | .ampEq | .pipeEq | .caretEq | .shlEq | .shrEq | .ushrEq => some .assignment
  | .question => some .conditional
  | .pipePipe => some .logicalOr
  | .ampAmp => some .logicalAnd
  | .pipe => some .bitOr
  | .caret => some .bitXor
  | .amp => some .bitAnd
  | .eqEq | .bangEq => some .equality
  | .lt | .ltEq | .gt | .gtEq | .instanceofKw => some .relational
  | .shl | .shr | .ushr => some .shift
  | .plus | .minus => some .additive
  | .star | .slash | .percent => some .multiplicative
  | _ => none

/-- The operator that begins with the `>` at the cursor. Lexing leaves every `>` alone, so `>>`,
`>>>`, `>=`, `>>=` and `>>>=` are put together here from tokens that touch. -/
def angle (cursor : TokenCursor) : Operator :=
  let joint (n : Nat) (kind : Kind) : Bool := cursor.nth (n + 1) == kind && cursor.isJoint n
  if joint 0 .gt then
    if joint 1 .gt then
      if joint 2 .eq then ⟨.ushrEq, 4, .assignment⟩ else ⟨.ushr, 3, .shift⟩
    else if joint 1 .eq then
      ⟨.shrEq, 3, .assignment⟩
    else
      ⟨.shr, 2, .shift⟩
  else if joint 0 .eq then
    ⟨.gtEq, 2, .relational⟩
  else
    ⟨.gt, 1, .relational⟩

/-- The infix operator at the cursor. -/
def at? (cursor : TokenCursor) : Option Operator :=
  if cursor.current = .gt then
    some (angle cursor)
  else
    (power? cursor.current).map fun power => ⟨cursor.current, 1, power⟩

end Operator

end LosslessJava.Grammar
