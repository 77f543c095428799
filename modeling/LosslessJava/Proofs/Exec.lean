import LosslessJava.Parser.Program

/-! What running a rule comes to, one equation for each way to put rules together, and which rules a
run comes to by name. A run that does not answer, and a run that stops, do so because of one of the
steps they are made of. -/

namespace LosslessJava.Parser.Program

variable {N : Type → Type} {env : Env} {rules : (α : Type) → N α → Program N α}

section

variable {α β : Type}

/-- Goes on with a rule's answer, unless there is none or the parse stopped. -/
def andThen (ran : Option (Result α)) (next : α → State → Option (Result β)) : Option (Result β) :=
  match ran with
  | some (.ok (a, t)) => next a t
  | some (.error halt) => some (.error halt)
  | none => none

@[simp] theorem andThen_ok (a : α) (t : State) (next : α → State → Option (Result β)) :
    andThen (some (.ok (a, t))) next = next a t := rfl

@[simp] theorem andThen_error (halt : Halt) (next : α → State → Option (Result β)) :
    andThen (some (.error halt)) next = some (.error halt) := rfl

@[simp] theorem andThen_none (next : α → State → Option (Result β)) : andThen none next = none := rfl

/-- Changes what a rule gives, where it gives something. -/
def changed (change : α → State → β × State) (r : Result α) : Result β :=
  r.map fun (a, t) => change a t

@[simp] theorem exec_pure (a : α) (s : State) :
    (pure a : Program N α).exec env rules s = some (.ok (a, s)) := by
  show exec env rules (.pure a) s = _
  rw [exec]

@[simp] theorem exec_return (a : α) (s : State) :
    (Pure.pure a : Program N α).exec env rules s = some (.ok (a, s)) := exec_pure a s

@[simp] theorem exec_act (action : Action α) (s : State) :
    (act action : Program N α).exec env rules s = some (action.run env s) := by
  rw [exec]

theorem exec_bind (first : Program N β) (next : β → Program N α) (s : State) :
    (first >>= next).exec env rules s =
      andThen (first.exec env rules s) fun a t => (next a).exec env rules t := by
  show exec env rules (.bind first next) s = _
  rw [exec]
  rcases first.exec env rules s with _ | _ | ⟨a, t⟩ <;> rfl

theorem exec_discard (rule : Program N α) (s : State) :
    (Functor.discard rule).exec env rules s =
      andThen (rule.exec env rules s) fun _ t => some (.ok ((), t)) := by
  refine (exec_bind _ _ _).trans ?_
  congr 1
  funext _ t
  exact exec_pure () t

theorem exec_loopFrom (a : α) (step : α → Program N (Option α)) (s : State) :
    (loopFrom a step).exec env rules s =
      andThen ((step a).exec env rules s) fun next t =>
        match next with
        | some b => (loopFrom b step).exec env rules t
        | none => some (.ok (a, t)) := by
  rw [exec]
  rcases (step a).exec env rules s with _ | _ | ⟨_ | b, t⟩ <;> rfl

theorem exec_nested_of_le {s : State} (deep : env.options.maxDepth ≤ s.depth) (otherwise : α)
    (rule : Program N α) :
    (nested otherwise rule).exec env rules s =
      some ((s.abandonNested env).map fun t => (otherwise, t)) := by
  rw [exec, if_pos deep]

theorem exec_nested_of_lt {s : State} (room : s.depth < env.options.maxDepth) (otherwise : α)
    (rule : Program N α) :
    (nested otherwise rule).exec env rules s =
      (rule.exec env rules s.enter).map
        (changed fun a t => (a, t.leave)) := by
  rw [exec, if_neg (by omega)]
  rcases rule.exec env rules s.enter with _ | _ | ⟨a, t⟩ <;> rfl

theorem exec_withNoLambda (noLambda : Bool) (rule : Program N α) (s : State) :
    (withNoLambda noLambda rule).exec env rules s =
      (rule.exec env rules (s.withNoLambda noLambda)).map
        (changed fun a t => (a, t.withNoLambda s.noLambda)) := by
  rw [exec]
  rcases rule.exec env rules (s.withNoLambda noLambda) with _ | _ | ⟨a, t⟩ <;> rfl

theorem exec_speculate (rule : Program N (Option Completed)) (s : State) :
    (speculate rule).exec env rules s =
      (rule.exec env rules s).map (changed (settle s)) := by
  rw [exec]
  rcases rule.exec env rules s with _ | _ | ⟨a, t⟩ <;> rfl

theorem exec_call (name : N α) (s : State) :
    (call name).exec env rules s = (rules α name).exec env rules s := by
  rw [exec]

end

/-- A rule that is run from state `s` comes to the rule of a name in state `t`. -/
inductive Reaches (env : Env) (rules : (α : Type) → N α → Program N α) {β : Type} (site : N β)
    (t : State) : {α : Type} → Program N α → State → Prop where
  | here : Reaches env rules site t (.call site) t
  | inside {α : Type} {name : N α} {s}
      (reached : Reaches env rules site t (rules α name) s) :
      Reaches env rules site t (.call name) s
  | first {α γ : Type} {rule : Program N γ} {next : γ → Program N α} {s}
      (reached : Reaches env rules site t rule s) : Reaches env rules site t (.bind rule next) s
  | next {α γ : Type} {rule : Program N γ} {next : γ → Program N α} {s u} {a : γ}
      (ran : rule.exec env rules s = some (.ok (a, u)))
      (reached : Reaches env rules site t (next a) u) : Reaches env rules site t (.bind rule next) s
  | round {α : Type} {a : α} {step : α → Program N (Option α)} {s}
      (reached : Reaches env rules site t (step a) s) :
      Reaches env rules site t (.loopFrom a step) s
  | later {α : Type} {a b : α} {step : α → Program N (Option α)} {s u}
      (ran : (step a).exec env rules s = some (.ok (some b, u)))
      (reached : Reaches env rules site t (.loopFrom b step) u) :
      Reaches env rules site t (.loopFrom a step) s
  | nested {α : Type} {otherwise : α} {rule : Program N α} {s}
      (room : s.depth < env.options.maxDepth)
      (reached : Reaches env rules site t rule s.enter) :
      Reaches env rules site t (.nested otherwise rule) s
  | withNoLambda {α : Type} {noLambda : Bool} {rule : Program N α} {s}
      (reached : Reaches env rules site t rule (s.withNoLambda noLambda)) :
      Reaches env rules site t (.withNoLambda noLambda rule) s
  | speculate {rule : Program N (Option Completed)} {s}
      (reached : Reaches env rules site t rule s) : Reaches env rules site t (.speculate rule) s

variable {α β : Type}

/-- If one of the rules that a run comes to does not answer, neither does the run. -/
theorem Reaches.exec_eq_none {rule : Program N α} {site : N β} {s t : State}
    (reached : Reaches env rules site t rule s)
    (endless : (call site).exec env rules t = none) : rule.exec env rules s = none := by
  induction reached with
  | here => exact endless
  | inside _ ih => rw [exec_call]; exact ih
  | first _ ih => exact (exec_bind _ _ _).trans (by rw [ih, andThen_none])
  | next ran _ ih => exact (exec_bind _ _ _).trans (by rw [ran, andThen_ok, ih])
  | round _ ih => rw [exec_loopFrom, ih, andThen_none]
  | later ran _ ih => rw [exec_loopFrom, ran, andThen_ok]; exact ih
  | nested room _ ih => rw [exec_nested_of_lt room, ih, Option.map_none]
  | withNoLambda _ ih => rw [exec_withNoLambda, ih, Option.map_none]
  | speculate _ ih => rw [exec_speculate, ih, Option.map_none]

/-- If one of the rules that a run comes to stops the parse, so does the run. -/
theorem Reaches.exec_eq_error {rule : Program N α} {site : N β} {s t : State} {halt : Halt}
    (reached : Reaches env rules site t rule s)
    (stops : (call site).exec env rules t = some (.error halt)) :
    rule.exec env rules s = some (.error halt) := by
  induction reached with
  | here => exact stops
  | inside _ ih => rw [exec_call]; exact ih
  | first _ ih => exact (exec_bind _ _ _).trans (by rw [ih, andThen_error])
  | next ran _ ih => exact (exec_bind _ _ _).trans (by rw [ran, andThen_ok, ih])
  | round _ ih => rw [exec_loopFrom, ih, andThen_error]
  | later ran _ ih => rw [exec_loopFrom, ran, andThen_ok]; exact ih
  | nested room _ ih => rw [exec_nested_of_lt room, ih]; rfl
  | withNoLambda _ ih => rw [exec_withNoLambda, ih]; rfl
  | speculate _ ih => rw [exec_speculate, ih]; rfl

end LosslessJava.Parser.Program
