import LosslessJava.Parser.State

/-!
Errors and what follows them: reporting, skipping ahead to a token from which parsing can go on, and
giving the rest of the input up. After a report nothing more is said about the same token.
-/
namespace LosslessJava.Parser.State

variable (env : Env)

variable {env} in
theorem position_pushToken {s : State} (more : s.current env ≠ .eof) (kind : Kind) :
    (s.pushToken env kind 1).position = s.position + 1 := by
  have inside := (s.cursor env).position_lt_of_current more
  simp only [pushToken, TokenCursor.advance, TokenCursor.index, cursor] at *
  omega

variable {env} in
theorem left_lt_of_position_lt {s t : State} (more : s.current env ≠ .eof)
    (moved : s.position < t.position) :
    env.stream.size - t.position < env.stream.size - s.position := by
  have inside := (s.cursor env).position_lt_of_current more
  simp only [cursor] at inside
  omega

/-- Consumes tokens up to the end of input. -/
def consumeRest (s : State) : State :=
  if s.current env = .eof then s else consumeRest (s.pushToken env (s.current env) 1)
  termination_by env.stream.size - s.position
  decreasing_by
    exact left_lt_of_position_lt ‹_› (by rw [position_pushToken ‹_›]; omega)

/-- Swallows the rest of the input into an error node. No error is recorded from here on. -/
def abandon (s : State) : Except Halt State :=
  if s.recovery = .abandoned then
    .ok s
  else
    let given := s.withRecovery .abandoned
    if s.current env = .eof then .ok given else (given.start.consumeRest env).complete s.mark .error

/-- Whether an error at the current token is not worth telling. -/
def isTold (s : State) : Bool :=
  s.recovery == .abandoned ||
    (s.recovery == .recovering && s.diagnostics.back?.map Diagnostic.tokenIndex == some s.position)

/-- What is to be told of an issue at the current token. -/
def diagnose (s : State) (issue : Issue) : Diagnostic :=
  { kind := issue.kind, message := issue.message, range := ((s.cursor env).nthToken 0).range,
    tokenIndex := s.position, expected := s.expected }

/-- Counts an error. -/
def count (s : State) : State := { s with errorCount := s.errorCount + 1 }

/-- Records what is to be told of an issue. -/
def tell (s : State) (issue : Issue) : State :=
  { s with diagnostics := s.diagnostics.push (s.diagnose env issue), recovery := .recovering }

/-- Records an issue at the current token, unless it is the second one there. -/
def report (s : State) (issue : Issue) : Except Halt State :=
  let counted := s.count
  if counted.isTold then
    .ok counted
  else
    let told := counted.tell env issue
    if env.options.mode = .strict then told.abandon env else .ok told

/-- Reports an issue and puts the current token into an error node. -/
def reportAndSkip (s : State) (issue : Issue) : Except Halt State := do
  let told ← s.report env issue
  if told.current env = .eof ∨ told.recovery = .abandoned then
    return told
  else
    (told.start.consumeAny env).complete told.mark .error

/-- Consumes a token without taking the error as overcome. -/
def skipToken (s : State) : State := (s.pushToken env (s.current env) 1).withRecovery .recovering

theorem position_lt_skipToken (s : State) (more : s.current env ≠ .eof) :
    s.position < (s.skipToken env).position := by
  have moved := position_pushToken more (s.current env)
  simp only [skipToken, withRecovery]
  omega

/-- How deep braces are nested behind a token. -/
def braceDepth (depth : Nat) : Kind → Nat
  | .leftBrace => depth + 1
  | .rightBrace => depth - 1
  | _ => depth

/-- Skips a braced region as a whole, of which `depth` braces are open. -/
def skipBraces (depth : Nat) (s : State) : State :=
  if s.current env = .eof then
    s
  else
    let inner := braceDepth depth (s.current env)
    if inner = 0 then s.skipToken env else skipBraces inner (s.skipToken env)
  termination_by env.stream.size - s.position
  decreasing_by exact left_lt_of_position_lt ‹_› (position_lt_skipToken env s ‹_›)

/-- Whether skipping stops at the current token. -/
def atSync (recovery : KindSet) (s : State) : Bool :=
  s.current env == .eof || s.current env == .rightBrace || recovery.contains (s.current env)

theorem position_le_skipBraces (depth : Nat) (s : State) :
    s.position ≤ (s.skipBraces env depth).position := by
  fun_induction skipBraces env depth s with
  | case1 => exact Nat.le_refl _
  | case2 depth s more => exact Nat.le_of_lt (position_lt_skipToken env s more)
  | case3 depth s more inner deeper ih =>
    exact Nat.le_trans (Nat.le_of_lt (position_lt_skipToken env s more)) ih

/-- Skips one token, or a braced region. -/
def skipOne (s : State) : State :=
  if s.current env = .leftBrace then s.skipBraces env 0 else s.skipToken env

theorem position_lt_skipOne (s : State) (more : s.current env ≠ .eof) :
    s.position < (s.skipOne env).position := by
  unfold skipOne
  split
  · next brace =>
    unfold skipBraces
    simp only [brace, braceDepth]
    exact Nat.lt_of_lt_of_le (position_lt_skipToken env s more) (position_le_skipBraces env _ _)
  · exact position_lt_skipToken env s more

/-- Skips up to a token at which skipping stops. -/
def skipTo (recovery : KindSet) (s : State) : State :=
  if s.atSync env recovery then s else skipTo recovery (s.skipOne env)
  termination_by env.stream.size - s.position
  decreasing_by
    have more : s.current env ≠ .eof := by
      intro ended
      simp [atSync, ended] at *
    exact left_lt_of_position_lt more (position_lt_skipOne env s more)

/-- Abandons the parse if skipping ran into the end of input, which was not looked for. -/
def settleAt (s : State) (recovery : KindSet) : Except Halt State :=
  if s.current env = .eof ∧ ¬ recovery.contains .eof then do
    let told ← s.report env .recoveryRanOut
    return told.withRecovery .abandoned
  else
    .ok s

/-- Skips tokens into an error node up to one of a set, a closing brace or the end of input. To run
into the end of input abandons the parse. -/
def recover (s : State) (recovery : KindSet) : Except Halt State :=
  if s.recovery = .abandoned ∨ s.atSync env recovery then
    .ok s
  else do
    let lost := s.withRecovery .recovering
    let skipped ← (lost.start.skipTo env recovery).complete s.mark .error
    (skipped.withRecovery .normal).settleAt env recovery

/-- Reports that rules are nested too deep, and abandons the parse. -/
def abandonNested (s : State) : Except Halt State :=
  if s.recovery = .abandoned then
    .ok s
  else do
    let told ← s.report env (.nestingTooDeep env.options.maxDepth)
    told.abandon env

end LosslessJava.Parser.State
