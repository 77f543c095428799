import LosslessJava.Parser.Event
import LosslessJava.Parser.Issue

/-!
The state of a parser, and the steps that consume tokens and record nodes. A step that the grammar
may take only in some states stops the parse in the others.
-/
namespace LosslessJava

/-- What happens at the first error. -/
inductive ParseMode where
  /-- Recover and go on. -/
  | lenient
  /-- Stop; the rest of the input goes into one error node. -/
  | strict
  deriving DecidableEq, Repr, Inhabited

structure ParseOptions where
  mode : ParseMode := .lenient
  /-- How deep rules may nest before the parse is abandoned. -/
  maxDepth : Nat := 256
  /-- How many tokens a decision may look at. -/
  lookaheadLimit : Nat := 1024
  deriving DecidableEq, Repr, Inhabited

inductive RecoveryState where
  | normal
  /-- An error was reported and no token was consumed since. -/
  | recovering
  /-- Nothing after this point was parsed. -/
  | abandoned
  deriving DecidableEq, Repr, Inhabited

def RecoveryState.name : RecoveryState → String
  | .normal => "Normal"
  | .recovering => "Recovering"
  | .abandoned => "Abandoned"

/-- Why a parse can stop without a result. -/
inductive Halt where
  /-- A rule had to consume a kind of token that did not stand there. -/
  | misplaced (expected found : Kind)
  /-- A rule had to consume a contextual keyword where neither it nor an identifier stood. -/
  | misplacedWord
  /-- A mark leads to no start of a node, or to one that cannot be taken back. -/
  | strayMark
  /-- The recorded events make no tree. -/
  | build (error : Tree.BuildError)
  /-- The parse never comes to an end. No computation gives this answer; it stands for none. -/
  | endless
  deriving Repr

def Halt.message : Halt → String
  | .misplaced expected found => "expected " ++ expected.name ++ ", found " ++ found.name
  | .misplacedWord => "assertion failed: self.current() == NAME || self.current() == kind"
  | .strayMark => "internal error: entered unreachable code"
  | .build error => error.message
  | .endless => "the parse does not come to an end"

namespace Parser

/-- What stays the same during a parse. -/
structure Env where
  stream : TokenStream
  options : ParseOptions

/-- What a parse changes. -/
structure State where
  /-- Index of the current token in the stream. -/
  position : Nat := 0
  events : Array Event := #[]
  diagnostics : Array Diagnostic := #[]
  /-- Errors so far, among them those that were not recorded. -/
  errorCount : Nat := 0
  /-- Kinds that were tried at the current token. -/
  expected : KindSet := .empty
  recovery : RecoveryState := .normal
  /-- How deep the current rule is nested. -/
  depth : Nat := 0
  /-- Switch labels and guards end in an arrow, so a name before an arrow starts no lambda there. -/
  noLambda : Bool := false

/-- Place of a node's start among the events. -/
structure Mark where
  position : Nat
  deriving DecidableEq, Repr

/-- A finished node. -/
structure Completed where
  position : Nat
  kind : Kind
  deriving DecidableEq, Repr

/-- Whether a token is an identifier that is spelled like the keyword. -/
def isWordAt (cursor : TokenCursor) (n : Nat) (keyword : Kind) : Bool :=
  cursor.nth n == .identifier && some (cursor.nthText n) == keyword.text?

namespace State

variable (env : Env) (s : State)

/-- The current position in the stream. -/
def cursor : TokenCursor := ⟨env.stream, s.position⟩

/-- Kind of the current token. -/
def current : Kind := (s.cursor env).current

def withRecovery (recovery : RecoveryState) : State := { s with recovery }

/-- Another setting of the restriction on lambdas. -/
def withNoLambda (noLambda : Bool) : State := { s with noLambda }

/-- One level deeper. -/
def enter : State := { s with depth := s.depth + 1 }

/-- One level less deep. -/
def leave : State := { s with depth := s.depth - 1 }

/-- Remembers kinds as acceptable at the current token. -/
def allow (kinds : KindSet) : State := { s with expected := s.expected.union kinds }

/-- Records a tree token made of `rawCount` tokens and moves behind them. -/
def pushToken (kind : Kind) (rawCount : Nat) : State :=
  { s with
    events := s.events.push (.token kind rawCount)
    position := ((s.cursor env).advance rawCount).position
    expected := .empty
    recovery := if s.recovery = .recovering then .normal else s.recovery }

/-- Consumes the current token, which has to be of a kind. -/
def consume (kind : Kind) : Except Halt State :=
  if s.current env = kind then
    .ok (s.pushToken env kind 1)
  else
    .error (.misplaced kind (s.current env))

/-- Consumes the current token, unless the input is at its end. -/
def consumeAny : State :=
  if s.current env = .eof then s else s.pushToken env (s.current env) 1

/-- Consumes the current token, which has to be an identifier, as a contextual keyword. A token that
is the keyword already is taken as well. -/
def consumeAs (keyword : Kind) : Except Halt State :=
  if s.current env = .identifier ∨ s.current env = keyword then
    .ok (s.pushToken env keyword 1)
  else
    .error .misplacedWord

/-- Where the next event is recorded. -/
def mark : Mark := ⟨s.events.size⟩

/-- Records the start of a node whose kind is not yet known. -/
def start : State := { s with events := s.events.push .tombstone }

/-- Finishes a node that everything since its mark belongs to. -/
def complete (mark : Mark) (kind : Kind) : Except Halt State :=
  match s.events[mark.position]? with
  | some (.start _ forwardParent) =>
    .ok { s with
      events := (s.events.setIfInBounds mark.position (.start kind forwardParent)).push .finish }
  | _ => .error .strayMark

/-- Gives a node up; what it holds stays with the node around it. A start that nothing was recorded
after is taken back. -/
def release (mark : Mark) : Except Halt State :=
  if mark.position + 1 = s.events.size then
    if s.events.back? = some .tombstone then
      .ok { s with events := s.events.pop }
    else
      .error .strayMark
  else
    .ok s

/-- Starts a node whose first child is a finished one. -/
def precede (first : Completed) : Except Halt State :=
  let distance := s.mark.position - first.position
  let started := s.start
  match started.events[first.position]? with
  | some (.start kind _) =>
    .ok { started with
      events := started.events.setIfInBounds first.position (.start kind (some distance)) }
  | _ => .error .strayMark

end State

end Parser

end LosslessJava
