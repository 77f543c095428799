import LosslessJava.Grammar
import LosslessJava.Tree.Dump

/-!
Parsing a text into a tree and diagnostics. Every input has a tree; what is wrong with it is said in
the diagnostics and shows as error nodes.
-/
namespace LosslessJava

/-- A tree and what went wrong on the way to it. -/
structure Parse where
  tree : Tree
  diagnostics : List Diagnostic
  /-- Normal unless the parse was abandoned. -/
  state : RecoveryState
  mode : ParseMode

/-- Why a parse is not taken for a success. -/
inductive ParseError where
  /-- The first error of a strict parse. -/
  | first (diagnostic : Diagnostic)
  /-- The errors of a parse that went through all of the input. -/
  | invalid (diagnostics : List Diagnostic)
  /-- The errors of a parse that was given up. -/
  | abandoned (diagnostics : List Diagnostic)
  deriving Repr

namespace ParseError

def name : ParseError → String
  | .first _ => "Syntax"
  | .invalid _ => "Invalid"
  | .abandoned _ => "Abandoned"

def message : ParseError → String
  | .first diagnostic => diagnostic.describe
  | .invalid diagnostics => "input has " ++ toString diagnostics.length ++ " syntax error(s)"
  | .abandoned diagnostics => "parse abandoned after " ++ toString diagnostics.length ++ " error(s)"

end ParseError

namespace Parse

def root (parse : Parse) : Tree.Node := parse.tree.root

def hasErrors (parse : Parse) : Bool := !parse.diagnostics.isEmpty

/-- The tree, if nothing was wrong. -/
def result (parse : Parse) : Except ParseError Tree :=
  match parse.diagnostics with
  | [] => .ok parse.tree
  | first :: _ =>
    match parse.mode, parse.state with
    | .strict, _ => .error (.first first)
    | .lenient, .abandoned => .error (.abandoned parse.diagnostics)
    | .lenient, _ => .error (.invalid parse.diagnostics)

/-- The tree and below it the diagnostics, one on a line. -/
def dump (parse : Parse) : String :=
  parse.root.dump ++ "Errors:\n"
    ++ String.join (parse.diagnostics.map fun diagnostic => "  " ++ diagnostic.describe ++ "\n")

/-- All parts in one line, written out for debugging. -/
def describe (parse : Parse) : String :=
  "Parse \x7b root: " ++ parse.root.describe ++ ", diagnostics: ["
    ++ ", ".intercalate (parse.diagnostics.map Diagnostic.dump)
    ++ "], state: " ++ parse.state.name ++ " \x7d"

/-- What a run that has come to its end has parsed. -/
def ofState (env : Parser.Env) (state : Parser.State) : Except Halt Parse :=
  match Event.buildSteps state.events with
  | some steps =>
    match BuildStep.toTree env.stream steps with
    | .ok tree =>
      let final := if state.recovery = .recovering then .normal else state.recovery
      .ok ⟨tree, state.diagnostics.toList, final, env.options.mode⟩
    | .error error => .error (.build error)
  | none => .error .strayMark

/-- Runs a rule for a whole input over a stream. -/
def run (rule : Grammar.Rule Unit) (stream : TokenStream) (options : ParseOptions) :
    Except Halt Parse :=
  match rule.exec { stream, options } Grammar.rule {} with
  | some (.ok ((), state)) => ofState { stream, options } state
  | some (.error halt) => .error halt
  | none => .error .endless

end Parse

/-- Parses given tokens of a text as a whole file. -/
def parseTokens (text : String) (tokens : Array Token) (options : ParseOptions) :
    Except Halt Parse :=
  Parse.run Grammar.compilationUnit (.ofTokens text tokens) options

/-- Parses a whole file. -/
def parse (text : String) (options : ParseOptions := {}) : Except Halt Parse :=
  Parse.run Grammar.compilationUnit (.lex text) options

/-- Parses a single expression. The end of input is not part of its tree. -/
def parseExpression (text : String) (options : ParseOptions := {}) : Except Halt Parse :=
  Parse.run Grammar.expressionRoot (.lex text) options

end LosslessJava
