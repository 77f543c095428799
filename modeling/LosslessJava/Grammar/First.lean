import LosslessJava.KindSet

/-!
Which kinds of token a construct can start with.
-/
namespace LosslessJava.Grammar.First

/-- The modifiers that are keywords. -/
def modifier : KindSet := .ofList [
  .publicKw, .protectedKw, .privateKw, .staticKw, .abstractKw, .finalKw, .nativeKw, .synchronizedKw,
  .transientKw, .volatileKw, .strictfpKw, .defaultKw]

def primitiveType : KindSet := .ofList [
  .booleanKw, .byteKw, .charKw, .shortKw, .intKw, .longKw, .floatKw, .doubleKw]

def type : KindSet := primitiveType ∪ .ofList [.identifier, .atSign]

def typeArgument : KindSet := type.insert .question

def param : KindSet := type.insert .finalKw

def pattern : KindSet := type ∪ .ofList [.finalKw, .leftParen]

def expression : KindSet :=
  .ofList [
    .intLiteral, .floatLiteral, .charLiteral, .stringLiteral, .textBlock, .trueKw, .falseKw,
    .nullKw, .identifier, .leftParen, .bang, .tilde, .plus, .minus, .plusPlus, .minusMinus,
    .thisKw, .superKw, .newKw, .switchKw, .voidKw]
  ∪ primitiveType

def initializer : KindSet := expression.insert .leftBrace

def elementValue : KindSet := expression ∪ .ofList [.atSign, .leftBrace]

/-- Keywords that begin a statement or close one off. -/
def statementKeyword : KindSet := .ofList [
  .ifKw, .elseKw, .whileKw, .doKw, .forKw, .tryKw, .catchKw, .finallyKw, .switchKw, .caseKw,
  .defaultKw, .returnKw, .throwKw, .breakKw, .continueKw, .synchronizedKw, .assertKw, .classKw,
  .interfaceKw, .enumKw, .finalKw]

end LosslessJava.Grammar.First
