import LosslessJava.Proofs.Faults

/-! What the rules that have a name promise, and what a proof for any other rule may rely on: that
those it calls keep their promises, as far as there is room to call them. -/

namespace LosslessJava.Grammar

open LosslessJava.Parser

/-- A completed node is the only one that was recorded since `s`. If it is stray, there is another
one behind it, into which a report has swallowed the rest of the input. -/
def Led (env : Env) (s : State) (stray : Prop) (first : Completed) (t : State) : Prop :=
  ¬ stray ∧ s.Heads first t ∨ stray ∧ t.current env = .eof ∧ s.Strays t

def Operand (env : Env) (s : State) (stray : Prop) (found : Option Completed) (t : State) : Prop :=
  State.After env s t ∧
    (∀ first, found = some first → s.position < t.position ∧ Led env s stray first t) ∧
    (found = none → ¬ stray)

def annotationAt (cursor : TokenCursor) : Bool :=
  cursor.current == .atSign && cursor.nth 1 != .interfaceKw

structure Untypable (env : Env) (cursor : TokenCursor) : Prop where
  lenient : env.options.mode = .lenient
  primitive : First.primitiveType.contains cursor.current = false
  named : cursor.current ≠ .identifier
  annotated : annotationAt cursor = false

namespace Nonterminal

/-- Rules of a lower rank may be called where a rule begins; behind a token, every rule may be. -/
def rank : {α : Type} → Nonterminal α → Nat
  | _, .type | _, .lambdaParamList | _, .arrayInitializer | _, .terminator _ => 0
  | _, .block | _, .classBody _ | _, .clauses _ => 0
  | _, .typeArg | _, .pattern | _, .parenOperand | _, .simpleName => 1
  | _, .expression _ | _, .unary => 2
  | _, .elementValue | _, .statement => 3

def Pre (env : Env) : {α : Type} → Nonterminal α → State → Prop
  | _, .parenOperand, s | _, .lambdaParamList, s => s.current env = .leftParen
  | _, .simpleName, s => s.current env = .identifier
  | _, .arrayInitializer, s => s.current env = .leftBrace
  | _, .classBody kind, _ => kind.isNode
  | _, .clauses forms, _ => ∀ form ∈ forms, form.1.isToken ∧ form.1 ≠ .eof ∧ form.2.isNode
  | _, _, _ => True

/-- What a rule that was called in state `s` promises of its answer and of the state behind it. -/
def Post (env : Env) : {α : Type} → Nonterminal α → State → α → State → Prop
  | _, .type, s, found, t =>
    (∀ first, found = some first → s.position < t.position ∧ s.Heads first t) ∧
      (found = none → s.position < t.position ∨ s.current env = .eof ∨
        s.depth < env.options.maxDepth ∧ Untypable env (s.cursor env))
  | _, .pattern, s, found, t | _, .parenOperand, s, found, t =>
    ∀ first, found = some first → s.position < t.position ∧ s.Heads first t
  | _, .expression _, s, found, t => Operand env s (BareExpression env s) found t
  | _, .unary, s, found, t | _, .simpleName, s, found, t => Operand env s (BareType env s) found t
  | _, .typeArg, s, found, t | _, .elementValue, s, found, t =>
    found = true → s.position < t.position
  | _, .lambdaParamList, s, _, t | _, .arrayInitializer, s, _, t => s.position < t.position
  | _, _, _, _, _ => True

end Nonterminal

/-- What a rule is run in: an environment, what may be wrong with the rule at hand, and how deep
rules may still be called. Those that are called from where there is room keep their promises. -/
structure Scope where
  env : Env
  own : Program.Own
  depth : Nat
  regular : env.stream.Regular
  called : ∀ {α : Type} (name : Nonterminal α) (s : State), s.Good env →
    4 * (env.stream.size - s.position) + name.rank < depth → name.Pre env s →
      Program.Settles env rule (faults env) own depth (.call name) s fun a t =>
        State.After env s t ∧ name.Post env s a t

namespace Scope

variable (scope : Scope)

/-- The stream at an index. -/
def cursor (index : Nat) : TokenCursor := ⟨scope.env.stream, index⟩

abbrev Settles {α : Type} (rule : Rule α) (s : State) (post : α → State → Prop) : Prop :=
  Program.Settles scope.env Grammar.rule (faults scope.env) scope.own scope.depth rule s post

/-- Rules of a rank below `rank` may be called at an index. -/
def Room (rank index : Nat) : Prop := 4 * (scope.env.stream.size - index) + rank ≤ scope.depth

/-- What stands at an index may be seen from a place before it. -/
theorem nth_cursor_add (index m n : Nat) :
    (scope.cursor (index + m)).nth n = (scope.cursor index).nth (m + n) := by
  simp only [TokenCursor.nth, TokenCursor.nthToken, TokenCursor.index, cursor, Nat.add_assoc]

variable {scope} {rank i j : Nat}

theorem Room.later {other : Nat} (room : scope.Room rank i) (later : i ≤ j)
    (lower : other ≤ rank) : scope.Room other j := by
  simp only [Room] at *
  omega

theorem Room.moved (room : scope.Room rank i) (moved : i < j) (inside : j < scope.env.stream.size) :
    scope.Room 4 j := by
  simp only [Room] at *
  omega

end Scope

end LosslessJava.Grammar
