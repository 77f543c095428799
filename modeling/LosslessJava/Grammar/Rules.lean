import LosslessJava.Parser.Lookahead
import LosslessJava.Grammar.Sync

/-!
What the rules of the grammar share: the names of those rules that others refer to by name, and
rules for lists of elements.
-/
namespace LosslessJava.Grammar

open LosslessJava.Parser

/-- How tightly an operator binds; the tighter, the larger. -/
abbrev Power := Nat

namespace Power

def assignment : Power := 1

def conditional : Power := 2

def logicalOr : Power := 3

def logicalAnd : Power := 4

def bitOr : Power := 5

def bitXor : Power := 6

def bitAnd : Power := 7

def equality : Power := 8

def relational : Power := 9

def shift : Power := 10

def additive : Power := 11

def multiplicative : Power := 12

end Power

/-- A clause of a declaration: its keyword and the kind of its node. -/
abbrev ClauseForm := Kind × Kind

/-- The rules that have a name, with what they answer: those through which the grammar is recursive,
and those that decide what stands at the current token and consume it only after more was done. -/
inductive Nonterminal : Type → Type where
  | type : Nonterminal (Option Completed)
  /-- A type argument; answers whether there was one. -/
  | typeArg : Nonterminal Bool
  /-- An expression of operators that bind at least as tightly as given. -/
  | expression (least : Power) : Nonterminal (Option Completed)
  /-- An operand with the operators in front of it. -/
  | unary : Nonterminal (Option Completed)
  /-- An operand that begins with `(`. -/
  | parenOperand : Nonterminal (Option Completed)
  /-- A name that is not the receiver of a generic method reference. -/
  | simpleName : Nonterminal (Option Completed)
  | lambdaParamList : Nonterminal Unit
  /-- A value in an annotation; answers whether there was one. -/
  | elementValue : Nonterminal Bool
  | arrayInitializer : Nonterminal Unit
  | pattern : Nonterminal (Option Completed)
  /-- The end of a label, in a block of which `form` is the form so far. -/
  | terminator (form : Option Kind) : Nonterminal (Kind × Option Kind)
  | block : Nonterminal Unit
  | statement : Nonterminal Unit
  /-- The braced body of a type; the kind of its node tells which members it may have. -/
  | classBody (kind : Kind) : Nonterminal Unit
  | clauses (forms : List ClauseForm) : Nonterminal Unit

/-- A rule of the grammar. -/
abbrev Rule := Program Nonterminal

/-- One element between brackets and a delimiter behind it, or a delimiter where an element was
needed; answers whether another element may follow. After an element without a delimiter, one does
if it can start at the current token. -/
def delimitedRound (closer delimiter : Kind) (what : String) (first : KindSet)
    (element : Rule Bool) : Rule Bool := do
  if ← sees closer <||> sees .eof then
    return false
  else if ← sees delimiter then
    reportAndSkip (.missingElement what)
    return true
  else if ← element then
    if ← accept delimiter then
      return true
    else if ← seesAny first then
      require delimiter
      return true
    else
      return false
  else
    return false

/-- Elements between brackets with delimiters between them. -/
def delimited (opener closer delimiter : Kind) (what : String) (first : KindSet)
    (element : Rule Bool) : Rule Unit := do
  consume opener
  loop (delimitedRound closer delimiter what first element)
  require closer

/-- A rule, and again after every comma. -/
def commaSeparated (rule : Rule Unit) : Rule Unit :=
  loop do
    rule
    accept .comma

/-- Runs a rule, and reports the current token and skips it if the rule did not move. -/
def skipUnmoved (rule : Rule Unit) (issue : Kind → Issue) : Rule Unit := do
  let before ← position
  rule
  if (← position) = before then
    reportAndSkip (issue (← current))

/-- A rule again and again until a closing token. What the rule does not take is skipped. -/
def listUntil (closer : Kind) (rule : Rule Unit) : Rule Unit :=
  loop do
    if ← sees closer <||> sees .eof then
      return false
    else
      skipUnmoved rule .unexpected
      return true

/-- The `;` at the end of a declaration or statement. Where it is missing, tokens are skipped. -/
def semicolon (recovery : KindSet) : Rule Unit := do
  if ← expect .semicolon then
    return ()
  else
    recover recovery
    discard <| accept .semicolon

end LosslessJava.Grammar
