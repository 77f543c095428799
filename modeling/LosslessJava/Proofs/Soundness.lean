import LosslessJava.Proofs.Grammar.Modules
import LosslessJava.Proofs.Grammar.Statements

/-! Every rule that has a name keeps its promise, by induction on how deep rules may be called. What
a run of any rule does wrong is then the fault of a rule that it comes to. -/

namespace LosslessJava.Grammar

open LosslessJava.Parser

/-- A rule keeps the promise of its name if those that it calls keep theirs. -/
theorem rule_settles {scope : Scope} {α : Type} (name : Nonterminal α) {s : State}
    (good : s.Good scope.env) (room : scope.Room name.rank s.position)
    (pre : name.Pre scope.env s) (halts : (faults scope.env).halts α name s → scope.own.halts)
    (sticks : (faults scope.env).sticks α name s → scope.own.sticks) :
    scope.Settles (rule α name) s fun a t =>
      State.After scope.env s t ∧ name.Post scope.env s a t := by
  cases name with
  | type => exact type_settles good room
  | typeArg => exact typeArg_settles good room halts
  | expression least =>
    exact (expression_settles good room).weaken fun _ _ _ operand => ⟨operand.1, operand⟩
  | unary => exact (unary_settles good room).weaken fun _ _ _ operand => ⟨operand.1, operand⟩
  | parenOperand => exact parenOperand_settles good room pre halts
  | simpleName =>
    exact (simpleName_settles good room pre halts).weaken fun _ _ _ operand => ⟨operand.1, operand⟩
  | lambdaParamList => exact lambdaParamList_settles good room pre sticks
  | elementValue => exact elementValue_keeps room s good rfl
  | arrayInitializer => exact arrayInitializer_keeps room pre s good rfl
  | pattern => exact pattern_settles good room
  | terminator form =>
    exact terminator_keeps (fun strict here mixed => halts ⟨strict, good, here, mixed⟩) s good rfl
  | block => exact block_keeps room s good rfl
  | statement => exact statement_keeps room s good rfl
  | classBody kind => exact classBody_keeps room pre s good rfl
  | clauses forms =>
    exact (clauses_settles good room pre halts).weaken fun _ _ _ after => ⟨after, trivial⟩

/-- Rules that have a name keep their promises wherever they are called, whatever rule calls them. -/
theorem call_settles {env : Env} (regular : env.stream.Regular) (depth : Nat) (own : Program.Own)
    {α : Type} (name : Nonterminal α) (s : State) (good : s.Good env)
    (room : 4 * (env.stream.size - s.position) + name.rank < depth) (pre : name.Pre env s) :
    Program.Settles env rule (faults env) own depth (.call name) s fun a t =>
      State.After env s t ∧ name.Post env s a t := by
  induction depth generalizing own α s with
  | zero => omega
  | succ depth ih =>
    let scope : Scope := {
      env, depth, regular
      own := ⟨(faults env).halts α name s, (faults env).sticks α name s⟩
      called := fun name s good room pre => ih _ name s good room pre }
    have body : scope.Settles (rule α name) s fun a t =>
        State.After scope.env s t ∧ name.Post scope.env s a t :=
      rule_settles name good (Nat.le_of_lt_succ room) pre id id
    exact body.call id id

/-- The scope of a rule for a whole input, which is itself never to be blamed. -/
def Scope.root {env : Env} (regular : env.stream.Regular) : Scope where
  env
  regular
  own := ⟨False, False⟩
  depth := 4 * env.stream.size + 4
  called name s good room pre := call_settles regular _ _ name s good room pre

end LosslessJava.Grammar
