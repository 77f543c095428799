import LosslessJava.Grammar.First

/-!
Where parsing goes on after an error: the kinds of token up to which a construct skips.
-/
namespace LosslessJava.Grammar.Sync

/-- Tokens that a missing expression does not swallow. -/
def expression : KindSet :=
  .ofList [
    .semicolon, .comma, .colon, .arrow, .rightParen, .rightBracket, .leftBrace, .rightBrace]
  ∪ First.statementKeyword

def statement : KindSet := First.statementKeyword.insert .semicolon

def switchEntry : KindSet := .ofList [.caseKw, .defaultKw]

/-- Declarations at the top of a compilation unit. -/
def item : KindSet :=
  First.modifier
    ∪ .ofList [.classKw, .interfaceKw, .enumKw, .atSign, .importKw, .packageKw, .semicolon]

def body : KindSet := item.insert .leftBrace

def member : KindSet :=
  First.modifier ∪ First.primitiveType
    ∪ .ofList [.voidKw, .classKw, .interfaceKw, .enumKw, .atSign, .semicolon, .lt]

def directive : KindSet := .singleton .semicolon

end LosslessJava.Grammar.Sync
