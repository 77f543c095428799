import LosslessJava.Proofs.Runs
import LosslessJava.Parser.Lookahead

/-! How many steps a rule can take. A rule is a term of some height; where a call of a rule takes a
bounded number of steps, one level of the term multiplies them at most by the rounds of a loop, of
which there are no more than tokens. The bounds are instances, so the one for a rule is found from
the rules that it is put together from. -/

namespace LosslessJava.Parser.Program

variable {N : Type → Type}

structure Budget (N : Type → Type) where
  env : Env
  rules : (α : Type) → N α → Program N α
  depth : Nat
  calls : Nat

/-- How many steps a rule takes at most that is `height` levels high, among `size` tokens. -/
def stepBound (size calls : Nat) : Nat → Nat
  | 0 => calls + size + 1
  | height + 1 => (size + 2) * (stepBound size calls height + 1)

private theorem double_le_stepBound (size calls height : Nat) :
    2 * (stepBound size calls height + 1) ≤ stepBound size calls (height + 1) :=
  Nat.mul_le_mul_right _ (by omega)

private theorem calls_le_stepBound (size calls height : Nat) : calls + size + 1 ≤ stepBound size calls height := by
  induction height with
  | zero => exact Nat.le_refl _
  | succ height ih =>
    have := double_le_stepBound size calls height
    omega

def Budget.bound (budget : Budget N) (height : Nat) : Nat :=
  stepBound budget.env.stream.size budget.calls height

variable {budget : Budget N} {height : Nat} {α β : Type}

namespace Budget

theorem double_le (budget : Budget N) (height : Nat) :
    2 * (budget.bound height + 1) ≤ budget.bound (height + 1) := double_le_stepBound _ _ _

theorem low_le (budget : Budget N) (height : Nat) :
    budget.calls + budget.env.stream.size + 1 ≤ budget.bound height := calls_le_stepBound _ _ _

end Budget

class Costs (budget : Budget N) (height : Nat) {α : Type} (rule : Program N α) : Prop where
  steps_le : ∀ {depth s r steps}, depth = budget.depth →
    Runs budget.env budget.rules depth rule s r steps → steps ≤ budget.bound height

structure Answers (budget : Budget N) (rule : Program N α) (P : α → Prop) : Prop where
  of_run : ∀ {depth s a t steps}, depth = budget.depth →
    Runs budget.env budget.rules depth rule s (.ok (a, t)) steps → P a

namespace Answers

variable {P : α → Prop}

theorem pure {a : α} (holds : P a) : Answers budget (Pure.pure a) P where
  of_run _ run := by
    cases run
    exact holds

theorem bind_of {first : Program N β} {next : β → Program N α} {Q : β → Prop} (one : Answers budget first Q)
    (answers : ∀ b, Q b → Answers budget (next b) P) : Answers budget (first >>= next) P where
  of_run same run := by
    cases run with
    | bind ran later => exact (answers _ (one.of_run same ran)).of_run same later

theorem bind {first : Program N β} {next : β → Program N α} (answers : ∀ b, Answers budget (next b) P) :
    Answers budget (first >>= next) P :=
  bind_of (Q := fun _ => True) ⟨fun _ _ => trivial⟩ fun b _ => answers b

theorem ite {c : Prop} [Decidable c] {yes no : Program N α} (holds : Answers budget yes P)
    (fails : Answers budget no P) : Answers budget (if c then yes else no) P := by
  split
  · exact holds
  · exact fails

/-- A loop cannot make a value grow by more than one in a round, and it has no more rounds than there
are tokens. -/
theorem loopFrom {a : α} {step : α → Program N (Option α)} (measure : α → Nat)
    (grows : ∀ a, Answers budget (step a) fun next => ∀ b ∈ next, measure b ≤ measure a + 1) :
    Answers budget (.loopFrom a step) fun b => measure b ≤ measure a + budget.env.stream.size where
  of_run {depth s b t steps} same run := by
    suffices measure b ≤ measure a + (budget.env.stream.size - s.position) by omega
    refine run.loop_induction
      (motive := fun a s r _ => r = .ok (b, t) → measure b ≤ measure a + (budget.env.stream.size - s.position))
      (fun _ given => ?leaves) (fun _ given => nomatch given) (fun round inside moved later given => ?goes) rfl
    case leaves =>
      cases given
      omega
    case goes =>
      have grown := (grows _).of_run same round _ rfl
      have rest := later given
      omega

end Answers

namespace Costs

private theorem act_steps {action : Action α} {depth s r steps}
    (run : Runs budget.env budget.rules depth (.act action) s r steps) : steps ≤ budget.bound height := by
  have low := budget.low_le height
  cases run
  omega

instance pure (a : α) : Costs budget height (Pure.pure a) where
  steps_le same run := by
    have low := budget.low_le height
    cases run
    omega

instance act (action : Action α) : Costs budget height (.act action) := ⟨fun _ run => act_steps run⟩

theorem bind_steps {first : Program N β} {next : β → Program N α} {depth m n s r steps}
    (one : ∀ {s r k}, Runs budget.env budget.rules depth first s r k → k ≤ m)
    (two : ∀ {b s r k}, Runs budget.env budget.rules depth (next b) s r k → k ≤ n)
    (run : Runs budget.env budget.rules depth (first >>= next) s r steps) : steps ≤ m + n + 1 := by
  cases run with
  | bind ran later =>
    have before := one ran
    have behind := two later
    omega
  | bindHalt ran =>
    have before := one ran
    omega

/-- What follows a rule counts only for the answers that the rule can give. -/
theorem bind_of {first : Program N β} {next : β → Program N α} {P : β → Prop} [cheap : Costs budget height first]
    (answers : Answers budget first P) (goes : ∀ b, P b → Costs budget height (next b)) :
    Costs budget (height + 1) (first >>= next) where
  steps_le same run := by
    have double := budget.double_le height
    cases run with
    | bind ran later =>
      have one := cheap.steps_le same ran
      have two := (goes _ (answers.of_run same ran)).steps_le same later
      omega
    | bindHalt ran =>
      have one := cheap.steps_le same ran
      omega

theorem andThen {first : Program N β} {next : β → Program N α} [Costs budget height first]
    (cheap : ∀ b, Costs budget height (next b)) : Costs budget (height + 1) (first >>= next) :=
  bind_of (P := fun _ => True) ⟨fun _ _ => trivial⟩ fun b _ => cheap b

instance nested {otherwise : α} {rule : Program N α} [cheap : Costs budget height rule] :
    Costs budget (height + 1) (Parser.nested otherwise rule) where
  steps_le same run := by
    have double := budget.double_le height
    have low := budget.low_le height
    cases run with
    | tooDeep => omega
    | nested _ ran =>
      have inner := cheap.steps_le same ran
      omega

instance withNoLambda {noLambda : Bool} {rule : Program N α} [cheap : Costs budget height rule] :
    Costs budget (height + 1) (Parser.withNoLambda noLambda rule) where
  steps_le same run := by
    have double := budget.double_le height
    cases run with
    | withNoLambda ran =>
      have inner := cheap.steps_le same ran
      omega

instance speculate {rule : Program N (Option Completed)} [cheap : Costs budget height rule] :
    Costs budget (height + 1) (Parser.speculate rule) where
  steps_le same run := by
    have double := budget.double_le height
    cases run with
    | speculate ran =>
      have inner := cheap.steps_le same ran
      omega

/-- From a position on, a loop has at most one round for each token left, and one more. -/
theorem loopFrom_steps {a : α} {step : α → Program N (Option α)} {depth s r steps}
    (cheap : ∀ a, Costs budget height (step a)) (same : depth = budget.depth)
    (run : Runs budget.env budget.rules depth (.loopFrom a step) s r steps) :
    steps ≤ (budget.env.stream.size - s.position + 1) * (budget.bound height + 1) := by
  refine run.loop_induction
    (motive := fun _ s _ steps => steps ≤ (budget.env.stream.size - s.position + 1) * (budget.bound height + 1))
    (fun round => ?_) (fun round => ?_) (fun {_ _ s t _ _ _} round inside moved later => ?_)
  · have once := (cheap _).steps_le same round
    exact Nat.le_trans (Nat.succ_le_succ once) (Nat.le_mul_of_pos_left _ (Nat.succ_pos _))
  · have once := (cheap _).steps_le same round
    exact Nat.le_trans (Nat.succ_le_succ once) (Nat.le_mul_of_pos_left _ (Nat.succ_pos _))
  · have once := (cheap _).steps_le same round
    have fewer : (budget.env.stream.size - t.position + 1 + 1) * (budget.bound height + 1) ≤
        (budget.env.stream.size - s.position + 1) * (budget.bound height + 1) :=
      Nat.mul_le_mul_right _ (by omega)
    rw [Nat.succ_mul] at fewer
    omega

instance loopFrom {a : α} {step : α → Program N (Option α)} [cheap : ∀ a, Costs budget height (step a)] :
    Costs budget (height + 1) (Parser.loopFrom a step) where
  steps_le same run :=
    Nat.le_trans (loopFrom_steps cheap same run) (Nat.mul_le_mul_right _ (by omega))

section

variable {rule : Program N α}

end

end Costs

end LosslessJava.Parser.Program
