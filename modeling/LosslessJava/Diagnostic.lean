import LosslessJava.KindSet
import LosslessJava.Text.Quoted
import LosslessJava.Text.Span

/-!
Diagnostics: what was wrong with an input, and at which token.
-/
namespace LosslessJava

inductive DiagnosticKind where
  /-- No alternative of a rule matched the current token. -/
  | syntaxError
  /-- A decision needed more lookahead than it may use. -/
  | ambiguity
  /-- The nesting bound was exceeded. -/
  | nestingTooDeep
  /-- Recovery reached the end of input without a token to go on from. -/
  | abandoned
  deriving DecidableEq, Repr, Inhabited

namespace DiagnosticKind

def name : DiagnosticKind → String
  | .syntaxError => "Syntax"
  | .ambiguity => "Ambiguity"
  | .nestingTooDeep => "NestingTooDeep"
  | .abandoned => "Abandoned"

def describe : DiagnosticKind → String
  | .syntaxError => "syntax error"
  | .ambiguity => "ambiguous construct"
  | .nestingTooDeep => "nesting too deep"
  | .abandoned => "parse abandoned"

end DiagnosticKind

structure Diagnostic where
  kind : DiagnosticKind := .syntaxError
  message : String
  range : Span
  /-- Index of the offending token in the token stream. -/
  tokenIndex : Nat
  /-- Kinds of token that would have been accepted instead. -/
  expected : KindSet := .empty
  deriving DecidableEq, Repr, Inhabited

namespace Diagnostic

/-- Place and message. -/
def describe (d : Diagnostic) : String := d.range.describe ++ ": " ++ d.message

/-- All fields, written out for debugging. -/
def dump (d : Diagnostic) : String :=
  "Diagnostic \x7b kind: " ++ d.kind.name ++ ", message: " ++ Text.quote d.message
    ++ ", range: " ++ d.range.describe ++ ", token_index: " ++ toString d.tokenIndex
    ++ ", expected: " ++ d.expected.dump ++ " \x7d"

end Diagnostic

end LosslessJava
