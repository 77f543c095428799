import LosslessJava.Proofs.Exec

/-! Runs that come to an end, as a relation: what a run gives, it gives by one of these rules. A proof
about all runs of all rules goes by induction on it, and never looks at the grammar. -/

namespace LosslessJava

theorem bind_eq_ok {ε α β : Type} {first : Except ε α} {next : α → Except ε β} {b : β} :
    first >>= next = .ok b ↔ ∃ a, first = .ok a ∧ next a = .ok b := by
  cases first <;> simp [bind, Except.bind]

theorem map_eq_ok {ε α β : Type} {given : Except ε α} {change : α → β} {b : β} :
    given.map change = .ok b ↔ ∃ a, given = .ok a ∧ change a = b := by
  cases given <;> simp [Except.map]

namespace Parser.Program

variable {N : Type → Type}

inductive Evaluates (env : Env) (rules : (α : Type) → N α → Program N α) :
    {α : Type} → Program N α → State → Result α → Prop where
  | pure {α : Type} {a : α} {s} : Evaluates env rules (.pure a) s (.ok (a, s))
  | act {α : Type} {action : Action α} {s} : Evaluates env rules (.act action) s (action.run env s)
  | bind {α β : Type} {rule : Program N β} {next : β → Program N α} {s a t r}
      (first : Evaluates env rules rule s (.ok (a, t)))
      (second : Evaluates env rules (next a) t r) : Evaluates env rules (.bind rule next) s r
  | bindHalt {α β : Type} {rule : Program N β} {next : β → Program N α} {s halt}
      (first : Evaluates env rules rule s (.error halt)) :
      Evaluates env rules (.bind rule next) s (.error halt)
  | loopEnd {α : Type} {a : α} {step : α → Program N (Option α)} {s t}
      (round : Evaluates env rules (step a) s (.ok (none, t))) :
      Evaluates env rules (.loopFrom a step) s (.ok (a, t))
  | loopNext {α : Type} {a b : α} {step : α → Program N (Option α)} {s t r}
      (round : Evaluates env rules (step a) s (.ok (some b, t)))
      (rest : Evaluates env rules (.loopFrom b step) t r) :
      Evaluates env rules (.loopFrom a step) s r
  | loopHalt {α : Type} {a : α} {step : α → Program N (Option α)} {s halt}
      (round : Evaluates env rules (step a) s (.error halt)) :
      Evaluates env rules (.loopFrom a step) s (.error halt)
  | tooDeep {α : Type} {otherwise : α} {rule : Program N α} {s}
      (deep : env.options.maxDepth ≤ s.depth) :
      Evaluates env rules (.nested otherwise rule) s
        ((s.abandonNested env).map fun t => (otherwise, t))
  | nested {α : Type} {otherwise : α} {rule : Program N α} {s r}
      (room : s.depth < env.options.maxDepth) (inner : Evaluates env rules rule s.enter r) :
      Evaluates env rules (.nested otherwise rule) s (changed (fun a t => (a, t.leave)) r)
  | withNoLambda {α : Type} {noLambda : Bool} {rule : Program N α} {s r}
      (inner : Evaluates env rules rule (s.withNoLambda noLambda) r) :
      Evaluates env rules (.withNoLambda noLambda rule) s
        (changed (fun a t => (a, t.withNoLambda s.noLambda)) r)
  | speculate {rule : Program N (Option Completed)} {s r} (inner : Evaluates env rules rule s r) :
      Evaluates env rules (.speculate rule) s (changed (settle s) r)
  | call {α : Type} {name : N α} {s r} (body : Evaluates env rules (rules α name) s r) :
      Evaluates env rules (.call name) s r

variable {env : Env} {rules : (α : Type) → N α → Program N α} {α : Type}

theorem Evaluates.exec_eq {rule : Program N α} {s r} (run : Evaluates env rules rule s r) :
    rule.exec env rules s = some r := by
  induction run with
  | pure => exact exec_pure _ _
  | act => exact exec_act _ _
  | bind _ _ first second => exact (exec_bind _ _ _).trans (by rw [first, andThen_ok, second])
  | bindHalt _ first => exact (exec_bind _ _ _).trans (by rw [first, andThen_error])
  | loopEnd _ round => rw [exec_loopFrom, round, andThen_ok]
  | loopNext _ _ round rest => rw [exec_loopFrom, round, andThen_ok]; exact rest
  | loopHalt _ round => rw [exec_loopFrom, round, andThen_error]
  | tooDeep deep => exact exec_nested_of_le deep _ _
  | nested room _ inner => rw [exec_nested_of_lt room, inner, Option.map_some]
  | withNoLambda _ inner => rw [exec_withNoLambda, inner, Option.map_some]
  | speculate _ inner => rw [exec_speculate, inner, Option.map_some]
  | call _ body => rw [exec_call, body]

theorem evaluates_of_exec {rule : Program N α} {s : State} {r : Result α}
    (run : rule.exec env rules s = some r) : Evaluates env rules rule s r := by
  refine exec.partial_correctness env rules (fun rule s r => Evaluates env rules rule s r) ?_
    rule s r run
  intro exec ih α rule s r run
  cases rule with
  | pure a =>
    cases run
    exact .pure
  | bind first next =>
    obtain ⟨given, ran, run⟩ := Option.bind_eq_some_iff.mp run
    rcases given with halt | ⟨a, t⟩
    · cases run
      exact .bindHalt (ih _ _ _ ran)
    · exact .bind (ih _ _ _ ran) (ih _ _ _ run)
  | act action =>
    cases run
    exact .act
  | loopFrom a step =>
    obtain ⟨given, ran, run⟩ := Option.bind_eq_some_iff.mp run
    rcases given with halt | ⟨_ | b, t⟩
    · cases run
      exact .loopHalt (ih _ _ _ ran)
    · cases run
      exact .loopEnd (ih _ _ _ ran)
    · exact .loopNext (ih _ _ _ ran) (ih _ _ _ run)
  | nested otherwise rule =>
    by_cases deep : env.options.maxDepth ≤ s.depth
    · simp only [if_pos deep] at run
      cases run
      exact .tooDeep deep
    · simp only [if_neg deep] at run
      obtain ⟨given, ran, run⟩ := Option.bind_eq_some_iff.mp run
      have inner : Evaluates env rules (.nested otherwise rule) s _ :=
        .nested (Nat.lt_of_not_le deep) (ih _ _ _ ran)
      rcases given with halt | ⟨a, t⟩ <;> cases run <;> exact inner
  | withNoLambda noLambda rule =>
    obtain ⟨given, ran, run⟩ := Option.bind_eq_some_iff.mp run
    have inner := Evaluates.withNoLambda (ih _ _ _ ran)
    rcases given with halt | ⟨a, t⟩ <;> cases run <;> exact inner
  | speculate rule =>
    obtain ⟨given, ran, run⟩ := Option.bind_eq_some_iff.mp run
    have inner := Evaluates.speculate (ih _ _ _ ran)
    rcases given with halt | ⟨found, t⟩ <;> cases run <;> exact inner
  | call name => exact .call (ih _ _ _ run)

/-- A run that is given up after so many steps on any path. -/
def execWithin (env : Env) (rules : (α : Type) → N α → Program N α) :
    Nat → {α : Type} → Program N α → State → Option (Result α)
  | 0, _, _, _ => none
  | fuel + 1, _, rule, s =>
    match rule with
    | .pure a => some (.ok (a, s))
    | .bind first next =>
      andThen (execWithin env rules fuel first s) fun a t => execWithin env rules fuel (next a) t
    | .act action => some (action.run env s)
    | .loopFrom a step =>
      andThen (execWithin env rules fuel (step a) s) fun next t =>
        match next with
        | some b => execWithin env rules fuel (.loopFrom b step) t
        | none => some (.ok (a, t))
    | .nested otherwise rule =>
      if env.options.maxDepth ≤ s.depth then
        some ((s.abandonNested env).map fun t => (otherwise, t))
      else
        (execWithin env rules fuel rule s.enter).map (changed fun a t => (a, t.leave))
    | .withNoLambda noLambda rule =>
      (execWithin env rules fuel rule (s.withNoLambda noLambda)).map
        (changed fun a t => (a, t.withNoLambda s.noLambda))
    | .speculate rule => (execWithin env rules fuel rule s).map (changed (settle s))
    | .call name => execWithin env rules fuel (rules _ name) s

/-- What a run gives before it is given up is what it gives. -/
theorem exec_of_execWithin {fuel : Nat} {rule : Program N α} {s : State} {r : Result α}
    (run : execWithin env rules fuel rule s = some r) : rule.exec env rules s = some r := by
  induction fuel generalizing α rule s r with
  | zero => cases run
  | succ fuel ih =>
    cases rule with
    | pure a => exact (exec_pure a s).trans run
    | bind first next =>
      refine (exec_bind first next s).trans ?_
      simp only [execWithin] at run
      rcases given : execWithin env rules fuel first s with _ | halt | ⟨a, t⟩
      · simp [given] at run
      · rw [ih given]
        rw [given] at run
        exact run
      · rw [ih given]
        rw [given] at run
        exact ih run
    | act action => exact (exec_act action s).trans run
    | loopFrom a step =>
      rw [exec_loopFrom]
      simp only [execWithin] at run
      rcases given : execWithin env rules fuel (step a) s with _ | halt | ⟨_ | b, t⟩
      · simp [given] at run
      · rw [ih given]
        rw [given] at run
        exact run
      · rw [ih given]
        rw [given] at run
        exact run
      · rw [ih given]
        rw [given] at run
        exact ih run
    | nested otherwise rule =>
      by_cases deep : env.options.maxDepth ≤ s.depth
      · rw [exec_nested_of_le deep]
        simpa only [execWithin, if_pos deep] using run
      · simp only [execWithin, if_neg deep] at run
        obtain ⟨given, inner, run⟩ := Option.map_eq_some_iff.mp run
        rw [exec_nested_of_lt (Nat.lt_of_not_le deep), ih inner, Option.map_some, run]
    | withNoLambda noLambda rule =>
      obtain ⟨given, inner, run⟩ := Option.map_eq_some_iff.mp run
      rw [exec_withNoLambda, ih inner, Option.map_some, run]
    | speculate rule =>
      obtain ⟨given, inner, run⟩ := Option.map_eq_some_iff.mp run
      rw [exec_speculate, ih inner, Option.map_some, run]
    | call name =>
      rw [exec_call]
      exact ih run

def reachesWithin (env : Env) (rules : (α : Type) → N α → Program N α)
    (wanted : (α : Type) → N α → State → Bool) : Nat → {α : Type} → Program N α → State → Bool
  | 0, _, _, _ => false
  | fuel + 1, _, rule, s =>
    match rule with
    | .pure _ => false
    | .act _ => false
    | .bind first next =>
      reachesWithin env rules wanted fuel first s ||
        match execWithin env rules fuel first s with
        | some (.ok (a, t)) => reachesWithin env rules wanted fuel (next a) t
        | _ => false
    | .loopFrom a step =>
      reachesWithin env rules wanted fuel (step a) s ||
        match execWithin env rules fuel (step a) s with
        | some (.ok (some b, t)) => reachesWithin env rules wanted fuel (.loopFrom b step) t
        | _ => false
    | .nested _ rule =>
      decide (s.depth < env.options.maxDepth) && reachesWithin env rules wanted fuel rule s.enter
    | .withNoLambda noLambda rule => reachesWithin env rules wanted fuel rule (s.withNoLambda noLambda)
    | .speculate rule => reachesWithin env rules wanted fuel rule s
    | .call name => wanted _ name s || reachesWithin env rules wanted fuel (rules _ name) s

theorem reaches_of_reachesWithin {wanted : (α : Type) → N α → State → Bool} {fuel : Nat}
    {rule : Program N α} {s : State} (found : reachesWithin env rules wanted fuel rule s = true) :
    ∃ (β : Type) (site : N β) (t : State), Reaches env rules site t rule s ∧ wanted β site t = true := by
  induction fuel generalizing α rule s with
  | zero => cases found
  | succ fuel ih =>
    cases rule with
    | pure | act => cases found
    | bind first next =>
      rcases (Bool.or_eq_true _ _).mp found with early | late
      · obtain ⟨β, site, t, reached, holds⟩ := ih early
        exact ⟨β, site, t, .first reached, holds⟩
      · split at late
        · next a u ran =>
          obtain ⟨β, site, t, reached, holds⟩ := ih late
          exact ⟨β, site, t, .next (exec_of_execWithin ran) reached, holds⟩
        · cases late
    | loopFrom a step =>
      rcases (Bool.or_eq_true _ _).mp found with early | late
      · obtain ⟨β, site, t, reached, holds⟩ := ih early
        exact ⟨β, site, t, .round reached, holds⟩
      · split at late
        · next b u ran =>
          obtain ⟨β, site, t, reached, holds⟩ := ih late
          exact ⟨β, site, t, .later (exec_of_execWithin ran) reached, holds⟩
        · cases late
    | nested otherwise rule =>
      obtain ⟨room, inner⟩ := (Bool.and_eq_true _ _).mp found
      obtain ⟨β, site, t, reached, holds⟩ := ih inner
      exact ⟨β, site, t, .nested (of_decide_eq_true room) reached, holds⟩
    | withNoLambda noLambda rule =>
      obtain ⟨β, site, t, reached, holds⟩ := ih found
      exact ⟨β, site, t, .withNoLambda reached, holds⟩
    | speculate rule =>
      obtain ⟨β, site, t, reached, holds⟩ := ih found
      exact ⟨β, site, t, .speculate reached, holds⟩
    | call name =>
      rcases (Bool.or_eq_true _ _).mp found with here | inside
      · exact ⟨_, name, s, .here, here⟩
      · obtain ⟨β, site, t, reached, holds⟩ := ih inside
        exact ⟨β, site, t, .inside reached, holds⟩

end Parser.Program

end LosslessJava
