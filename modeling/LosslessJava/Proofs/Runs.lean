import LosslessJava.Proofs.Exec

/-! Runs that come to an end, with their length, and what it takes for a rule to settle: it gives a
result, or the parse stops, or it never answers, and in the last two cases there is something to
blame. A proof for a rule is put together the way the rule is. -/

namespace LosslessJava.Parser.Program

variable {N : Type → Type}

/-- A run with its result and its number of steps, in which rules are called at most `depth` deep. A
round of a loop that goes on starts before the end of the tokens and moves: there is no run with a
round that did not. A step on the state may go over all tokens. -/
inductive Runs (env : Env) (rules : (α : Type) → N α → Program N α) :
    {α : Type} → Nat → Program N α → State → Result α → Nat → Prop where
  | pure {α : Type} {depth} {a : α} {s} : Runs env rules depth (.pure a) s (.ok (a, s)) 1
  | act {α : Type} {depth} {action : Action α} {s} :
      Runs env rules depth (.act action) s (action.run env s) (env.stream.size + 1)
  | bind {α β : Type} {depth} {rule : Program N β} {next : β → Program N α} {s a t r m n}
      (first : Runs env rules depth rule s (.ok (a, t)) m)
      (second : Runs env rules depth (next a) t r n) :
      Runs env rules depth (.bind rule next) s r (m + n + 1)
  | bindHalt {α β : Type} {depth} {rule : Program N β} {next : β → Program N α} {s halt m}
      (first : Runs env rules depth rule s (.error halt) m) :
      Runs env rules depth (.bind rule next) s (.error halt) (m + 1)
  | loopEnd {α : Type} {depth} {a : α} {step : α → Program N (Option α)} {s t m}
      (round : Runs env rules depth (step a) s (.ok (none, t)) m) :
      Runs env rules depth (.loopFrom a step) s (.ok (a, t)) (m + 1)
  | loopHalt {α : Type} {depth} {a : α} {step : α → Program N (Option α)} {s halt m}
      (round : Runs env rules depth (step a) s (.error halt) m) :
      Runs env rules depth (.loopFrom a step) s (.error halt) (m + 1)
  | loopNext {α : Type} {depth} {a b : α} {step : α → Program N (Option α)} {s t r m n}
      (round : Runs env rules depth (step a) s (.ok (some b, t)) m)
      (inside : s.position < env.stream.size) (moved : s.position < t.position)
      (rest : Runs env rules depth (.loopFrom b step) t r n) :
      Runs env rules depth (.loopFrom a step) s r (m + n + 1)
  | tooDeep {α : Type} {depth} {otherwise : α} {rule : Program N α} {s}
      (deep : env.options.maxDepth ≤ s.depth) :
      Runs env rules depth (.nested otherwise rule) s
        ((s.abandonNested env).map fun t => (otherwise, t)) (env.stream.size + 1)
  | nested {α : Type} {depth} {otherwise : α} {rule : Program N α} {s r m}
      (room : s.depth < env.options.maxDepth)
      (inner : Runs env rules depth rule s.enter r m) :
      Runs env rules depth (.nested otherwise rule) s
        (changed (fun a t => (a, t.leave)) r) (m + 1)
  | withNoLambda {α : Type} {depth} {noLambda : Bool} {rule : Program N α} {s r m}
      (inner : Runs env rules depth rule (s.withNoLambda noLambda) r m) :
      Runs env rules depth (.withNoLambda noLambda rule) s
        (changed (fun a t => (a, t.withNoLambda s.noLambda)) r) (m + 1)
  | speculate {depth} {rule : Program N (Option Completed)} {s r m}
      (inner : Runs env rules depth rule s r m) :
      Runs env rules depth (.speculate rule) s (changed (settle s) r) (m + 1)
  | call {α : Type} {depth} {name : N α} {s r m}
      (body : Runs env rules depth (rules α name) s r m) :
      Runs env rules (depth + 1) (.call name) s r (m + 1)

/-- What may be wrong with the rule of a name in a state: that it stops the parse there, or that it
never answers. -/
structure Faults (N : Type → Type) where
  halts : (α : Type) → N α → State → Prop
  sticks : (α : Type) → N α → State → Prop

structure Own where
  halts : Prop
  sticks : Prop

/-- There is something to blame for what a rule does: the rule itself, or one that it comes to. -/
def Blamed (env : Env) (rules : (α : Type) → N α → Program N α) (own : Prop)
    (faulty : (α : Type) → N α → State → Prop) {α : Type} (rule : Program N α) (s : State) : Prop :=
  own ∨ ∃ (β : Type) (site : N β) (t : State), Reaches env rules site t rule s ∧ faulty β site t

/-- A rule settles: it gives a result as required, or there is something to blame. -/
inductive Settles (env : Env) (rules : (α : Type) → N α → Program N α) (faults : Faults N)
    (own : Own) (depth : Nat) {α : Type} (rule : Program N α) (s : State)
    (post : α → State → Prop) : Prop where
  | gives {a t steps} (ran : Runs env rules depth rule s (.ok (a, t)) steps) (holds : post a t)
  | halts {halt steps} (ran : Runs env rules depth rule s (.error halt) steps)
      (cause : Blamed env rules own.halts faults.halts rule s)
  | sticks (cause : Blamed env rules own.sticks faults.sticks rule s)

variable {env : Env} {rules : (α : Type) → N α → Program N α} {faults : Faults N} {own : Own}
  {depth : Nat} {α β : Type}

theorem Runs.exec_eq {rule : Program N α} {s r steps} (ran : Runs env rules depth rule s r steps) :
    rule.exec env rules s = some r := by
  induction ran with
  | pure => exact exec_pure _ _
  | act => exact exec_act _ _
  | bind _ _ first second => exact (exec_bind _ _ _).trans (by rw [first, andThen_ok, second])
  | bindHalt _ first => exact (exec_bind _ _ _).trans (by rw [first, andThen_error])
  | loopEnd _ round => rw [exec_loopFrom, round, andThen_ok]
  | loopHalt _ round => rw [exec_loopFrom, round, andThen_error]
  | loopNext _ _ _ _ round rest => rw [exec_loopFrom, round, andThen_ok]; exact rest
  | tooDeep deep => exact exec_nested_of_le deep _ _
  | nested room _ inner => rw [exec_nested_of_lt room, inner, Option.map_some]
  | withNoLambda _ inner => rw [exec_withNoLambda, inner, Option.map_some]
  | speculate _ inner => rw [exec_speculate, inner, Option.map_some]
  | call _ body => rw [exec_call, body]

/-- What holds of a loop that is left or stopped, and of a round before a loop, holds of every loop that
comes to an end. -/
theorem Runs.loop_induction {step : α → Program N (Option α)} {motive : α → State → Result α → Nat → Prop}
    (leaves : ∀ {a s t n}, Runs env rules depth (step a) s (.ok (none, t)) n → motive a s (.ok (a, t)) (n + 1))
    (halts : ∀ {a s halt n}, Runs env rules depth (step a) s (.error halt) n → motive a s (.error halt) (n + 1))
    (goes : ∀ {a b s t r m n}, Runs env rules depth (step a) s (.ok (some b, t)) m →
      s.position < env.stream.size → s.position < t.position → motive b t r n → motive a s r (m + n + 1))
    {a : α} {s : State} {r : Result α} {steps : Nat}
    (run : Runs env rules depth (.loopFrom a step) s r steps) : motive a s r steps := by
  induction left : env.stream.size - s.position using Nat.strongRecOn generalizing a s steps with
  | ind size ih =>
    cases run with
    | loopEnd round => exact leaves round
    | loopHalt round => exact halts round
    | loopNext round inside moved rest => exact goes round inside moved (ih _ (by omega) rest rfl)

theorem Blamed.lift {own : Prop} {faulty : (α : Type) → N α → State → Prop} {inner : Program N β}
    {outer : Program N α} {s u} (blamed : Blamed env rules own faulty inner s)
    (through : ∀ {γ : Type} {site : N γ} {t}, Reaches env rules site t inner s →
      Reaches env rules site t outer u) : Blamed env rules own faulty outer u := by
  rcases blamed with mine | ⟨γ, site, t, reached, fault⟩
  · exact .inl mine
  · exact .inr ⟨γ, site, t, through reached, fault⟩

namespace Settles

variable {rule : Program N α} {s : State} {post : α → State → Prop}

theorem weaken {other : α → State → Prop}
    (settles : Settles env rules faults own depth rule s post)
    (implies : ∀ a t, rule.exec env rules s = some (.ok (a, t)) → post a t → other a t) :
    Settles env rules faults own depth rule s other := by
  cases settles with
  | gives ran holds => exact .gives ran (implies _ _ ran.exec_eq holds)
  | halts ran cause => exact .halts ran cause
  | sticks cause => exact .sticks cause

theorem pure {a : α} (holds : post a s) :
    Settles env rules faults own depth (Pure.pure a : Program N α) s post :=
  .gives .pure holds

theorem act {action : Action α} {a t} (run : action.run env s = .ok (a, t)) (holds : post a t) :
    Settles env rules faults own depth (.act action : Program N α) s post := by
  have ran : Runs env rules depth (.act action) s (action.run env s) _ := .act
  exact .gives (run ▸ ran) holds

/-- A step that stops the parse is to be blamed on the rule at hand. -/
theorem actHalt {action : Action α} {halt} (run : action.run env s = .error halt)
    (cause : own.halts) : Settles env rules faults own depth (.act action : Program N α) s post := by
  have ran : Runs env rules depth (.act action) s (action.run env s) _ := .act
  exact .halts (run ▸ ran) (.inl cause)

theorem bind {first : Program N β} {next : β → Program N α} {P : β → State → Prop}
    (settles : Settles env rules faults own depth first s P)
    (goes : ∀ a t, first.exec env rules s = some (.ok (a, t)) → P a t →
      Settles env rules faults own depth (next a) t post) :
    Settles env rules faults own depth (first >>= next) s post := by
  cases settles with
  | gives ran holds =>
    cases goes _ _ ran.exec_eq holds with
    | gives later holds => exact .gives (.bind ran later) holds
    | halts later cause => exact .halts (.bind ran later) (cause.lift (.next ran.exec_eq))
    | sticks cause => exact .sticks (cause.lift (.next ran.exec_eq))
  | halts ran cause => exact .halts (.bindHalt ran) (cause.lift .first)
  | sticks cause => exact .sticks (cause.lift .first)

theorem discard {other : State → Prop} (settles : Settles env rules faults own depth rule s post)
    (implies : ∀ a t, post a t → other t) :
    Settles env rules faults own depth (Functor.discard rule) s fun _ t => other t :=
  settles.bind fun a t _ holds => .pure (implies a t holds)

theorem actThen {action : Action β} {next : β → Program N α} {a t}
    (run : action.run env s = .ok (a, t))
    (goes : Settles env rules faults own depth (next a) t post) :
    Settles env rules faults own depth (.act action >>= next) s post := by
  have step : Settles env rules faults own depth (.act action) s fun b u => b = a ∧ u = t :=
    .act run ⟨rfl, rfl⟩
  refine step.bind fun b u _ ⟨same, still⟩ => ?_
  subst same still
  exact goes

theorem actHaltThen {action : Action β} {next : β → Program N α} {halt}
    (run : action.run env s = .error halt) (cause : own.halts) :
    Settles env rules faults own depth (.act action >>= next) s post := by
  have step : Settles env rules faults own depth (.act action) s fun _ _ => False :=
    .actHalt run cause
  exact step.bind fun _ _ _ impossible => impossible.elim

/-- A loop settles if every round keeps an invariant and either moves or leaves. A round may do
neither if that is what the rule at hand is to be blamed for. -/
theorem loopFrom {step : α → Program N (Option α)} (invariant : α → State → Prop) {a : α}
    (start : invariant a s) (inside : ∀ a t, invariant a t → t.position < env.stream.size)
    (round : ∀ a t, invariant a t →
      Settles env rules faults own depth (step a) t fun
        | some b, u => (invariant b u ∧ t.position < u.position) ∨ own.sticks
        | none, u => post a u) :
    Settles env rules faults own depth (.loopFrom a step) s post := by
  induction left : env.stream.size - s.position using Nat.strongRecOn generalizing a s with
  | ind size ih =>
    cases round a s start with
    | @gives next t steps ran holds =>
      cases next with
      | none => exact .gives (.loopEnd ran) holds
      | some b =>
        have within := inside a s start
        rcases holds with ⟨kept, moved⟩ | stuck
        · have shorter : env.stream.size - t.position < size := by
            omega
          cases ih _ shorter kept rfl with
          | gives later holds => exact .gives (.loopNext ran within moved later) holds
          | halts later cause => exact .halts (.loopNext ran within moved later) (cause.lift (.later ran.exec_eq))
          | sticks cause => exact .sticks (cause.lift (.later ran.exec_eq))
        · exact .sticks (.inl stuck)
    | halts ran cause => exact .halts (.loopHalt ran) (cause.lift .round)
    | sticks cause => exact .sticks (cause.lift .round)

theorem tooDeep {otherwise : α} {t} (deep : env.options.maxDepth ≤ s.depth)
    (run : s.abandonNested env = .ok t) (holds : post otherwise t) :
    Settles env rules faults own depth (.nested otherwise rule) s post := by
  have ran : Runs env rules depth (.nested otherwise rule) s _ _ := .tooDeep deep
  rw [run] at ran
  exact .gives ran holds

theorem nested {otherwise : α} (room : s.depth < env.options.maxDepth)
    (inner : Settles env rules faults own depth rule s.enter fun a t =>
      post a t.leave) :
    Settles env rules faults own depth (.nested otherwise rule) s post := by
  cases inner with
  | gives ran holds => exact .gives (.nested room ran) holds
  | halts ran cause => exact .halts (.nested room ran) (cause.lift (.nested room))
  | sticks cause => exact .sticks (cause.lift (.nested room))

theorem withNoLambda {noLambda : Bool}
    (inner : Settles env rules faults own depth rule (s.withNoLambda noLambda) fun a t =>
      post a (t.withNoLambda s.noLambda)) :
    Settles env rules faults own depth (.withNoLambda noLambda rule) s post := by
  cases inner with
  | gives ran holds => exact .gives (.withNoLambda ran) holds
  | halts ran cause => exact .halts (.withNoLambda ran) (cause.lift .withNoLambda)
  | sticks cause => exact .sticks (cause.lift .withNoLambda)

theorem speculate {rule : Program N (Option Completed)} {post : Option Completed → State → Prop}
    (inner : Settles env rules faults own depth rule s fun found t =>
      post (settle s found t).1 (settle s found t).2) :
    Settles env rules faults own depth (.speculate rule) s post := by
  cases inner with
  | gives ran holds => exact .gives (.speculate ran) holds
  | halts ran cause => exact .halts (.speculate ran) (cause.lift .speculate)
  | sticks cause => exact .sticks (cause.lift .speculate)

/-- A rule that is called by name may itself be what is to be blamed. -/
theorem call {name : N α} {mine : Own}
    (body : Settles env rules faults mine depth (rules α name) s post)
    (halting : mine.halts → faults.halts α name s)
    (sticking : mine.sticks → faults.sticks α name s) :
    Settles env rules faults own (depth + 1) (.call name) s post := by
  have blame {faulty : (α : Type) → N α → State → Prop} {fault other : Prop}
      (implies : fault → faulty α name s) (cause : Blamed env rules fault faulty (rules α name) s) :
      Blamed env rules other faulty (.call name) s := by
    rcases cause with mine | ⟨γ, site, t, reached, faulty⟩
    · exact .inr ⟨α, name, s, .here, implies mine⟩
    · exact .inr ⟨γ, site, t, .inside reached, faulty⟩
  cases body with
  | gives ran holds => exact .gives (.call ran) holds
  | halts ran cause => exact .halts (.call ran) (blame halting cause)
  | sticks cause => exact .sticks (blame sticking cause)

end Settles

end LosslessJava.Parser.Program
