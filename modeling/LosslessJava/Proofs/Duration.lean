import LosslessJava.Proofs.StepBounds
import LosslessJava.Proofs.Totality
import LosslessJava.Proofs.Traversal

/-! How long a parse takes. A rule takes a bounded number of steps for each call that it makes, and calls
nest no deeper than the tokens allow; so the steps of a whole parse are bounded by the number of tokens,
whatever they are. -/

namespace LosslessJava

open LosslessJava.Parser

namespace Grammar

open Program (Budget Costs Runs stepBound)

variable {budget : Budget Nonterminal} {height : Nat}

def cheap (budget : Budget Nonterminal) : Compositional Nonterminal where
  Holds _ height _ rule := Costs budget height rule
  pure := .pure _
  act _ := .act _
  join _ := .act _
  consumeAs := .act _
  stands _ holds := holds
  bind _ _ one two := @Program.Costs.andThen _ _ _ _ _ _ _ one two
  look _ two := @Program.Costs.andThen _ _ _ _ _ _ _ (.act _) two
  precede two := @Program.Costs.andThen _ _ _ _ _ _ _ (.act _) two
  loopFrom round := @Program.Costs.loopFrom _ _ _ _ _ _ round
  nested inner := @Program.Costs.nested _ _ _ _ _ _ inner
  withNoLambda inner := @Program.Costs.withNoLambda _ _ _ _ _ _ inner
  speculate inner := @Program.Costs.speculate _ _ _ _ inner

section

private theorem ifLink_answers (opened : List OpenIf) :
    Program.Answers budget (ifLink opened) fun answer => answer.1.length ≤ opened.length + 1 := by
  have one (link : OpenIf) (more : Bool) : Program.Answers budget (Pure.pure (link :: opened, more) : Rule (List OpenIf × Bool))
      fun answer => answer.1.length ≤ opened.length + 1 := .pure (Nat.le_refl _)
  unfold ifLink
  refine .bind fun mark => .bind fun _ => .bind fun _ => .bind fun _ => .bind fun found => .ite ?_ (one _ _)
  refine .bind fun branch => .bind fun _ => .bind fun again => .ite (one _ _) ?_
  exact .bind fun _ => .bind fun _ => one _ _

private theorem closeIfs_steps (height : Nat) (opened : List OpenIf) {depth : Nat} {s : State} {r : Result Unit} {steps : Nat}
    (same : depth = budget.depth) (run : Runs budget.env budget.rules depth (closeIfs opened) s r steps) :
    steps ≤ (opened.length + 1) * (budget.bound (height + 3) + 1) := by
  have double : 2 * (budget.bound (height + 2) + 1) ≤ budget.bound (height + 3) := budget.double_le _
  induction opened generalizing s r steps with
  | nil =>
    have one : steps ≤ budget.bound (height + 2) := (Program.Costs.pure ()).steps_le same run
    rw [List.length_nil]
    omega
  | cons link rest ih =>
    have branch : Has (cheap budget) .nothing (height + 2) (closeBranch link.branch) := by
      unfold closeBranch
      split <;> infer_instance
    have node : Has (cheap budget) .nothing (height + 2) (discard (link.mark.complete .ifStmt)) := inferInstance
    have later {s : State} {r : Result Unit} {steps : Nat}
        (run : Runs budget.env budget.rules depth (do discard (link.mark.complete .ifStmt); closeIfs rest) s r steps) :=
      Program.Costs.bind_steps (node.holds.steps_le same) ih run
    have all := Program.Costs.bind_steps (branch.holds.steps_le same) later run
    rw [List.length_cons, Nat.succ_mul]
    omega

private theorem ifRound_answers (answer : List OpenIf × Bool) :
    Program.Answers budget (ifRound answer) fun next => ∀ b ∈ next, b.1.length ≤ answer.1.length + 1 := by
  unfold ifRound
  refine .ite (.bind_of (ifLink_answers answer.1) fun next grown => .pure ?_) (.pure (by simp))
  simpa using grown

variable [Callable (cheap budget)]

/-- A chain has no more links than there are tokens, so it is closed in as many steps as a loop may take. -/
theorem ifStmt_costs : Costs budget (height + 30) ifStmt := by
  have answers : Program.Answers budget (Parser.loopFrom ([], true) ifRound)
      fun answer => answer.1.length ≤ 0 + budget.env.stream.size :=
    .loopFrom (List.length ∘ Prod.fst) ifRound_answers
  have round (answer : List OpenIf × Bool) : Has (cheap budget) .nothing (height + 28) (ifRound answer) := by
    unfold ifRound
    infer_instance
  have chain : Has (cheap budget) .nothing (height + 29) (Parser.loopFrom ([], true) ifRound) := inferInstance
  rw [ifStmt_eq]
  refine @Program.Costs.bind_of _ _ _ _ _ _ _ _ chain.holds answers fun answer short => ⟨fun same run => ?_⟩
  have steps := closeIfs_steps (height + 25) _ same run
  refine steps.trans (Nat.mul_le_mul_right _ ?_)
  omega

end

instance [callable : Callable (cheap budget)] : Links (cheap budget) where
  ifStmt := ifStmt_costs
  nameExpr := (nameExpr_has ⟨Costs.act _⟩).holds
  parenOperand := (parenOperand_has ⟨Costs.act _⟩).holds

/-- How many steps a call takes at most, if calls nest no deeper than so many levels. -/
def callBound (size : Nat) : Nat → Nat
  | 0 => 0
  | depth + 1 => stepBound size (callBound size depth) 87 + 1

def budgetAt (env : Env) (depth : Nat) : Budget Nonterminal := ⟨env, rule, depth, callBound env.stream.size depth⟩

private theorem callable_cheap (env : Env) (depth : Nat) : Callable (cheap (budgetAt env depth)) := by
  induction depth with
  | zero =>
    refine ⟨fun _ => ⟨fun same run => ?_⟩⟩
    cases run
    cases same
  | succ depth ih =>
    refine ⟨fun {_ height _ name} short => ⟨fun same run => ?_⟩⟩
    have low : callBound env.stream.size (depth + 1) + env.stream.size + 1 ≤ (budgetAt env (depth + 1)).bound height :=
      (budgetAt env (depth + 1)).low_le height
    cases run with
    | call body =>
      have rule : Has (cheap (budgetAt env depth)) .nothing (0 + 87) (rule _ name) := rule_has short
      have steps : _ ≤ stepBound env.stream.size (callBound env.stream.size depth) 87 :=
        rule.holds.steps_le (Nat.succ.inj same) body
      rw [callBound] at low
      omega

end Grammar

variable {entry : EntryPoint} {text : String} {options : ParseOptions}

/-- How many steps a parse takes at most: how many rounds of loops, calls of rules and steps on the state
together. Only the number of tokens counts. -/
def stepLimit (size : Nat) : Nat := Program.stepBound size (Grammar.callBound size (4 * size + 4)) 80

/-- A parse comes to an end within as many steps as its number of tokens allows, and all rounds of all loops
move, unless it comes to a list of lambda parameters that never ends. A look ahead is one step here: that it comes to an
end of its own is `Lookahead.Decision.ends`. -/
theorem EntryPoint.runs_within_limit (entry : EntryPoint) (text : String) (options : ParseOptions) :
    (∃ depth result steps,
        Program.Runs (textEnv text options) Grammar.rule depth entry.rule {} result steps ∧
        steps ≤ stepLimit (textEnv text options).stream.size) ∨
      ∃ s, entry.Reaches text options .lambdaParamList s ∧
        Grammar.StuckParamList (textEnv text options) s ∧ entry.parse text options = .error .endless := by
  have limited {depth : Nat} (shallow : depth = 4 * (textEnv text options).stream.size + 4) {result : Result Unit}
      {steps : Nat} (run : Program.Runs (textEnv text options) Grammar.rule depth entry.rule {} result steps) :
      steps ≤ stepLimit (textEnv text options).stream.size := by
    have callable := Grammar.callable_cheap (textEnv text options) depth
    have cost : Has (Grammar.cheap (Grammar.budgetAt (textEnv text options) depth)) .nothing (0 + 80) entry.rule := by
      cases entry with
      | file => exact inferInstanceAs (Has _ .nothing (0 + 80) Grammar.compilationUnit)
      | expression => exact inferInstanceAs (Has _ .nothing (66 + 14) Grammar.expressionRoot)
    subst shallow
    exact cost.holds.steps_le rfl run
  cases entry.settles text options with
  | gives run => exact .inl ⟨_, _, _, run, limited rfl run⟩
  | halts run => exact .inl ⟨_, _, _, run, limited rfl run⟩
  | sticks cause =>
    obtain ⟨_, site, s, reached, fault⟩ := cause.resolve_left id
    cases site with
    | lambdaParamList =>
      exact .inr ⟨s, reached, fault,
        EntryPoint.parse_of_exec_none (reached.exec_eq_none (Grammar.StuckParamList.exec_eq_none fault))⟩
    | _ => exact fault.elim

end LosslessJava
