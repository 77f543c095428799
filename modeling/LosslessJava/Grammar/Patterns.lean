import LosslessJava.Grammar.Types

/-!
Patterns: types that bind a name, and records of patterns.
-/
namespace LosslessJava.Grammar

open LosslessJava.Parser

/-- Patterns in round brackets behind a record's type. -/
def patternList : Rule Unit :=
  discard <| node .patternList <|
    delimited .leftParen .rightParen .comma "pattern" First.pattern do
      return (← call .pattern).isSome

/-- A pattern in round brackets of its own. -/
def parenPattern : Rule Completed :=
  node .parenPattern do
    consume .leftParen
    discard <| call .pattern
    require .rightParen

/-- A type with a name or with a list of patterns behind it. -/
def typedPattern : Rule (Option Completed) :=
  nodeIf do
    discard modifiers
    if (← call .type).isSome then
      if ← sees .leftParen then
        patternList
        return some .recordPattern
      else
        require .identifier
        return some .typePattern
    else
      return none

/-- A type pattern, record pattern or pattern in brackets. -/
def pattern : Rule (Option Completed) :=
  nested none do
    if ← sees .leftParen then
      return some (← parenPattern)
    else
      typedPattern

end LosslessJava.Grammar
