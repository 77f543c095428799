import LosslessJava.Parser.Recovery

/-!
Rules as programs. A rule of the grammar is put together from the steps on the parser's state and
refers to other rules by name; what the names stand for is told when it is run. So what is true of
the steps and of the ways to put rules together holds of every rule.
-/
namespace LosslessJava.Parser

/-- One step of a rule. -/
inductive Action : Type → Type where
  /-- Reads the current position in the stream. -/
  | cursor : Action TokenCursor
  | noLambda : Action Bool
  /-- Reads how many tokens a decision may look at. -/
  | lookaheadLimit : Action Nat
  | allow (kinds : KindSet) : Action Unit
  | consume (kind : Kind) : Action Unit
  | consumeAny : Action Unit
  | consumeAs (keyword : Kind) : Action Unit
  /-- Consumes so many tokens as one. -/
  | join (kind : Kind) (rawCount : Nat) : Action Unit
  | report (issue : Issue) : Action Unit
  | reportAndSkip (issue : Issue) : Action Unit
  | recover (recovery : KindSet) : Action Unit
  | start : Action Mark
  | complete (mark : Mark) (kind : Kind) : Action Completed
  | release (mark : Mark) : Action Unit
  | precede (first : Completed) : Action Mark

/-- What a rule gives together with the state behind it, unless the parse stopped. -/
abbrev Result (α : Type) := Except Halt (α × State)

/-- A step that gives nothing but the state behind it. -/
def Result.done (after : Except Halt State) : Result Unit := after.map fun s => ((), s)

def Action.run (env : Env) (s : State) {α : Type} : Action α → Result α
  | .cursor => .ok (s.cursor env, s)
  | .noLambda => .ok (s.noLambda, s)
  | .lookaheadLimit => .ok (env.options.lookaheadLimit, s)
  | .allow kinds => .ok ((), s.allow kinds)
  | .consume kind => .done (s.consume env kind)
  | .consumeAny => .ok ((), s.consumeAny env)
  | .consumeAs keyword => .done (s.consumeAs env keyword)
  | .join kind rawCount => .ok ((), s.pushToken env kind rawCount)
  | .report issue => .done (s.report env issue)
  | .reportAndSkip issue => .done (s.reportAndSkip env issue)
  | .recover recovery => .done (s.recover env recovery)
  | .start => .ok (s.mark, s.start)
  | .complete mark kind => (s.complete mark kind).map fun s => (⟨mark.position, kind⟩, s)
  | .release mark => .done (s.release mark)
  | .precede first => let mark := s.mark; (s.precede first).map fun s => (mark, s)

/-- A rule that refers to other rules by names from `N`. -/
inductive Program (N : Type → Type) : Type → Type 1 where
  | pure {α : Type} (a : α) : Program N α
  | bind {α β : Type} (first : Program N β) (next : β → Program N α) : Program N α
  | act {α : Type} (action : Action α) : Program N α
  /-- Repeats a step on a value for as long as it gives a next one. -/
  | loopFrom {α : Type} (a : α) (step : α → Program N (Option α)) : Program N α
  /-- Runs a rule one level deeper. Beyond the deepest level the rule is not entered and the parse
  is abandoned; the answer is then `otherwise`. -/
  | nested {α : Type} (otherwise : α) (rule : Program N α) : Program N α
  /-- Runs a rule with another setting of the restriction on lambdas. -/
  | withNoLambda {α : Type} (noLambda : Bool) (rule : Program N α) : Program N α
  /-- Tries a rule. Unless it gives a node and reports no error, all its effects are undone. -/
  | speculate (rule : Program N (Option Completed)) : Program N (Option Completed)
  /-- Runs the rule of a name. -/
  | call {α : Type} (name : N α) : Program N α

namespace Program

variable {N : Type → Type}

instance : Monad (Program N) where
  pure := .pure
  bind := .bind

/-- What a tried rule leaves behind, which was tried in state `s`. -/
def settle (s : State) (found : Option Completed) (after : State) : Option Completed × State :=
  if found.isSome ∧ after.errorCount = s.errorCount then (found, after) else (none, s)

section

variable (env : Env) (rules : (α : Type) → N α → Program N α)

/-- Runs a rule, its names standing for the given rules. There is no answer if the run never comes
to an end. -/
def exec {α : Type} (rule : Program N α) (s : State) : Option (Result α) :=
  -- The function itself. Named by a tactic, it leaves no positions of the source in the definition.
  let run : {β : Type} → Program N β → State → Option (Result β) := by apply exec
  match rule with
  | .pure a => some (.ok (a, s))
  | .bind first next => do
    match ← run first s with
    | .ok (a, t) => run (next a) t
    | .error halt => some (.error halt)
  | .act action => some (action.run env s)
  | .loopFrom a step => do
    match ← run (step a) s with
    | .ok (some b, t) => run (.loopFrom b step) t
    | .ok (none, t) => some (.ok (a, t))
    | .error halt => some (.error halt)
  | .nested otherwise rule =>
    if env.options.maxDepth ≤ s.depth then
      some ((s.abandonNested env).map fun t => (otherwise, t))
    else do
      match ← run rule s.enter with
      | .ok (a, t) => some (.ok (a, t.leave))
      | .error halt => some (.error halt)
  | .withNoLambda noLambda rule => do
    match ← run rule (s.withNoLambda noLambda) with
    | .ok (a, t) => some (.ok (a, t.withNoLambda s.noLambda))
    | .error halt => some (.error halt)
  | .speculate rule => do
    match ← run rule s with
    | .ok (found, t) => some (.ok (settle s found t))
    | .error halt => some (.error halt)
  | .call name => run (rules _ name) s
  partial_fixpoint

end

end Program

variable {N : Type → Type}

def cursor : Program N TokenCursor := .act .cursor

def allow (kinds : KindSet) : Program N Unit := .act (.allow kinds)

def consume (kind : Kind) : Program N Unit := .act (.consume kind)

def consumeAny : Program N Unit := .act .consumeAny

def consumeAs (keyword : Kind) : Program N Unit := .act (.consumeAs keyword)

def join (kind : Kind) (rawCount : Nat) : Program N Unit := .act (.join kind rawCount)

def report (issue : Issue) : Program N Unit := .act (.report issue)

def reportAndSkip (issue : Issue) : Program N Unit := .act (.reportAndSkip issue)

def recover (recovery : KindSet) : Program N Unit := .act (.recover recovery)

def start : Program N Mark := .act .start

def Mark.complete (mark : Mark) (kind : Kind) : Program N Completed := .act (.complete mark kind)

def Mark.release (mark : Mark) : Program N Unit := .act (.release mark)

def Completed.precede (first : Completed) : Program N Mark := .act (.precede first)

def call {α : Type} (name : N α) : Program N α := .call name

/-- Index of the current token. -/
def position : Program N Nat := return (← cursor).position

/-- Kind of the token `n` places ahead. -/
def nth (n : Nat) : Program N Kind := return (← cursor).nth n

def current : Program N Kind := nth 0

def nthIs (n : Nat) (kind : Kind) : Program N Bool := return (← nth n) == kind

def nthIsWord (n : Nat) (keyword : Kind) : Program N Bool := return isWordAt (← cursor) n keyword

/-- Whether the current token is of a kind, which is remembered as acceptable here. -/
def sees (kind : Kind) : Program N Bool := do
  allow (.singleton kind)
  nthIs 0 kind

def seesAny (kinds : KindSet) : Program N Bool := do
  allow kinds
  return kinds.contains (← current)

/-- Whether the current token is the contextual keyword, which is remembered as acceptable here. -/
def seesWord (keyword : Kind) : Program N Bool := do
  allow (.singleton keyword)
  nthIsWord 0 keyword

/-- Consumes the current token if it is of a kind. -/
def accept (kind : Kind) : Program N Bool := do
  if ← sees kind then
    consume kind
    return true
  else
    return false

/-- Runs a rule where a kind of token stands. -/
def whenSees (kind : Kind) (rule : Program N Unit) : Program N Unit := do
  if ← sees kind then rule

/-- Reports that something else was needed at the current token. -/
def expectedHere (what : String) : Program N Unit := do report (.expected what (← current))

/-- Reports that something else was needed and skips ahead. -/
def expectedThenRecover (what : String) (recovery : KindSet) : Program N Unit := do
  expectedHere what
  recover recovery

/-- Consumes a token of a kind, or reports that it is missing. -/
def expect (kind : Kind) : Program N Bool := do
  if ← accept kind then
    return true
  else
    expectedHere kind.describe
    return false

/-- Consumes a token of a kind, or reports that it is missing, and goes on in either case. -/
def require (kind : Kind) : Program N Unit := discard (expect kind)

/-- Repeats a step on a value for as long as it gives a next one. -/
def loopFrom {α : Type} (a : α) (step : α → Program N (Option α)) : Program N α := .loopFrom a step

/-- A step that gives `next` where another one answers `true`, and nothing where not. -/
def stepTo {α : Type} (next : α) (step : Program N Bool) : Program N (Option α) := do
  return if ← step then some next else none

/-- Repeats a step for as long as it answers `true`. -/
def loop (step : Program N Bool) : Program N Unit := loopFrom () fun _ => stepTo () step

/-- Repeats a step for as long as it answers `true`, and answers whether it ever did. -/
def loopAny (step : Program N Bool) : Program N Bool := loopFrom false fun _ => stepTo true step

/-- A rule that never comes to an end. -/
def endless {α : Type} [Inhabited α] : Program N α := loopFrom default fun a => return some a

def nested {α : Type} (otherwise : α) (rule : Program N α) : Program N α := .nested otherwise rule

def withNoLambda {α : Type} (noLambda : Bool) (rule : Program N α) : Program N α :=
  .withNoLambda noLambda rule

/-- Runs a rule inside brackets, where lambdas are free again. -/
def bracketed {α : Type} (rule : Program N α) : Program N α := withNoLambda false rule

def speculate (rule : Program N (Option Completed)) : Program N (Option Completed) :=
  .speculate rule

/-- A node around what a rule records, which tells the node's kind. -/
def nodeOf (rule : Program N Kind) : Program N Completed := do
  let mark ← start
  let kind ← rule
  mark.complete kind

/-- A node of one kind around what a rule records. -/
def node (kind : Kind) (rule : Program N Unit) : Program N Completed :=
  nodeOf do
    rule
    return kind

/-- A node around what a rule records, which tells the node's kind beside its own answer. -/
def nodeWith {α : Type} (rule : Program N (Kind × α)) : Program N α := do
  let mark ← start
  let (kind, a) ← rule
  discard <| mark.complete kind
  return a

/-- A node around what a rule records, if the rule tells a kind for it. Otherwise the node is given
up. -/
def nodeIf (rule : Program N (Option Kind)) : Program N (Option Completed) := do
  let mark ← start
  match ← rule with
  | some kind => return some (← mark.complete kind)
  | none =>
    mark.release
    return none

/-- A node whose first child is a finished one, and around what a rule records, which tells the
node's kind. -/
def around (first : Completed) (rule : Program N Kind) : Program N Completed := do
  let mark ← first.precede
  let kind ← rule
  mark.complete kind

end LosslessJava.Parser
