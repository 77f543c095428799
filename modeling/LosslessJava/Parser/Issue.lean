import LosslessJava.Diagnostic

/-!
Issues: the reasons for which a parser complains. Their wording is here and nowhere else.
-/
namespace LosslessJava

inductive Issue where
  /-- Something else was needed where `found` stands. -/
  | expected (what : String) (found : Kind)
  /-- A delimiter stands where an element was needed. -/
  | missingElement (what : String)
  /-- A token that no rule takes. -/
  | unexpected (found : Kind)
  /-- A clause after one that it should precede, or after one of its own sort. -/
  | clauseOrder (keyword : Kind)
  /-- A label whose terminator is not that of the switch's first label. -/
  | mixedLabels (terminator established : Kind)
  /-- A modifier before a type that binds no name. -/
  | finalWithoutBinding
  /-- A decision that needed more tokens than it may look at. -/
  | undecided (what : String) (limit : Nat)
  | nestingTooDeep (limit : Nat)
  /-- Nothing was left to go on from after an error. -/
  | recoveryRanOut
  deriving DecidableEq, Repr

namespace Issue

def kind : Issue → DiagnosticKind
  | .undecided _ _ => .ambiguity
  | .nestingTooDeep _ => .nestingTooDeep
  | .recoveryRanOut => .abandoned
  | _ => .syntaxError

def message : Issue → String
  | .expected what found => "expected " ++ what ++ ", found " ++ found.describe
  | .missingElement what => "expected " ++ what
  | .unexpected found => "unexpected " ++ found.describe
  | .clauseOrder keyword => keyword.describe ++ " clause is out of order"
  | .mixedLabels terminator established =>
    terminator.describe ++ " label in a switch that uses " ++ established.describe ++ " labels"
  | .finalWithoutBinding => "`final` requires a pattern binding"
  | .undecided what limit =>
    "cannot resolve " ++ what ++ " within " ++ toString limit ++ " tokens of lookahead"
  | .nestingTooDeep limit => "nesting exceeds the limit of " ++ toString limit ++ " levels"
  | .recoveryRanOut => "reached end of input while recovering"

end Issue

end LosslessJava
