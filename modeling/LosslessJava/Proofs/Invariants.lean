import LosslessJava.Proofs.ModeRefinement
import LosslessJava.Proofs.Steps

/-! What all states of a run have in common. An invariant that every step on the state keeps is kept by
every run, whatever rules it goes through. Of what was recorded, one is that tokens stay recorded, and
that they lead up to the position. -/

namespace LosslessJava

/-- The start of a node is no token, whatever its kind and whatever it points to. -/
theorem Event.map_token_set_start {events : Array Event} {index : Nat} {kind other : Kind} {old new : Option Nat}
    (found : events[index]? = some (.start kind old)) :
    (events.setIfInBounds index (.start other new)).map token? = events.map token? := by
  ext i inside before
  · simp
  · simp only [Array.size_map] at inside before
    simp only [Array.getElem_map, Array.getElem_setIfInBounds before]
    split
    · next same =>
      obtain ⟨_, here⟩ := Array.getElem?_eq_some_iff.mp (same ▸ found)
      rw [here]
      rfl
    · rfl

namespace Parser

/-- A property of states that is kept by every step of a sort on them, and does not depend on the
settings that hold for a part of a run. -/
structure Invariant (env : Env) (Steps : {α : Type} → Action α → Prop) (Holds : State → Prop) : Prop where
  act {α : Type} {action : Action α} {a : α} {s t : State} (given : Steps action) (before : Holds s)
    (run : action.run env s = .ok (a, t)) : Holds t
  tooDeep {s t : State} (before : Holds s) (run : s.abandonNested env = .ok t) : Holds t
  depth {s : State} (depth : Nat) (before : Holds s) : Holds { s with depth }
  noLambda {s : State} (noLambda : Bool) (before : Holds s) : Holds (s.withNoLambda noLambda)

variable {env : Env} {Steps : {α : Type} → Action α → Prop}

namespace Program

variable {N : Type → Type} {Names : {α : Type} → N α → Prop} {rules : (α : Type) → N α → Program N α}
  {α : Type} {s t : State}

def Uses (Steps : {α : Type} → Action α → Prop) (Names : {α : Type} → N α → Prop) :
    {α : Type} → Program N α → Prop
  | _, .pure _ => True
  | _, .bind first next => first.Uses Steps Names ∧ ∀ a, (next a).Uses Steps Names
  | _, .act action => Steps action
  | _, .loopFrom _ step => ∀ a, (step a).Uses Steps Names
  | _, .nested _ rule | _, .withNoLambda _ rule | _, .speculate rule => rule.Uses Steps Names
  | _, .call name => Names name

theorem uses_any (rule : Program N α) : rule.Uses (fun _ => True) fun _ => True := by
  induction rule with
  | pure | act | call => trivial
  | bind _ _ first next => exact ⟨first, next⟩
  | loopFrom _ _ step => exact step
  | nested _ _ inner | withNoLambda _ _ inner | speculate _ inner => exact inner

/-- What every step of a sort keeps, every run of rules that are put together of them keeps. -/
theorem Evaluates.keeps {Holds : State → Prop} (invariant : Invariant env Steps Holds)
    (known : ∀ {β : Type} (name : N β), Names name → (rules β name).Uses Steps Names) {rule : Program N α}
    {r : Result α} {a : α} (run : Evaluates env rules rule s r) (uses : rule.Uses Steps Names)
    (given : r = .ok (a, t)) (before : Holds s) : Holds t := by
  induction run generalizing t with
  | pure =>
    cases given
    exact before
  | act => exact invariant.act uses before given
  | bind _ _ first second => exact second (uses.2 _) given (first uses.1 rfl before)
  | bindHalt => cases given
  | loopEnd _ round =>
    cases given
    exact round (uses _) rfl before
  | loopNext _ _ round rest => exact rest uses given (round (uses _) rfl before)
  | loopHalt => cases given
  | tooDeep =>
    obtain ⟨u, abandoned, same⟩ := map_eq_ok.mp given
    cases same
    exact invariant.tooDeep before abandoned
  | nested _ _ inner =>
    obtain ⟨⟨b, u⟩, rfl, same⟩ := map_eq_ok.mp given
    cases same
    exact invariant.depth _ (inner uses rfl (invariant.depth _ before))
  | withNoLambda _ inner =>
    obtain ⟨⟨b, u⟩, rfl, same⟩ := map_eq_ok.mp given
    cases same
    exact invariant.noLambda _ (inner uses rfl (invariant.noLambda _ before))
  | @speculate rule s r _ inner =>
    obtain ⟨⟨b, u⟩, rfl, same⟩ := map_eq_ok.mp given
    have settled : settle s b u = (a, t) := same
    unfold settle at settled
    split at settled
    · cases settled
      exact inner uses rfl before
    · cases settled
      exact before
  | call _ body => exact body (known _ uses) given before

end Program

def Action.isSeparate : {α : Type} → Action α → Bool
  | _, .start | _, .join _ _ | _, .consumeAs _ | _, .complete _ _ | _, .release _ | _, .precede _ => false
  | _, _ => true

namespace State

section Recovery

variable {s t : State}

theorem complete_recovery {mark : Mark} {kind : Kind} (run : s.complete mark kind = .ok t) :
    t.recovery = s.recovery := by
  unfold complete at run
  split at run
  · cases run
    rfl
  · cases run

theorem release_recovery {mark : Mark} (run : s.release mark = .ok t) : t.recovery = s.recovery := by
  unfold release at run
  split at run
  · split at run
    · cases run
      rfl
    · cases run
  · cases run
    rfl

end Recovery

/-- What may hold between a state and a later one, if it does so whatever is done with the stream's tokens one by
one and with nodes for errors. -/
structure Growth (env : Env) (Grown : State → State → Prop) : Prop where
  trans {s t u : State} (first : Grown s t) (second : Grown t u) : Grown s u
  still {s t : State} (events : t.events = s.events) (position : t.position = s.position) (depth : t.depth = s.depth) :
    Grown s t
  push {s : State} : Grown s (s.pushToken env (s.current env) 1)
  error {s t u : State} (inner : Grown s.start t) (closed : t.complete s.mark .error = .ok u) : Grown s u

namespace Growth

variable {Grown : State → State → Prop} {s t : State}

theorem refl (growth : Growth env Grown) : Grown s s := growth.still rfl rfl rfl

theorem consumeAny (growth : Growth env Grown) : Grown s (s.consumeAny env) := by
  unfold State.consumeAny
  split
  · exact growth.refl
  · exact growth.push

theorem consumeRest (growth : Growth env Grown) : Grown s (s.consumeRest env) := by
  fun_induction State.consumeRest env s with
  | case1 => exact growth.refl
  | case2 s more ih => exact growth.trans growth.push ih

theorem skipToken (growth : Growth env Grown) : Grown s (s.skipToken env) :=
  growth.trans growth.push (growth.still rfl rfl rfl)

theorem skipBraces (growth : Growth env Grown) (depth : Nat) : Grown s (s.skipBraces env depth) := by
  fun_induction State.skipBraces env depth s with
  | case1 => exact growth.refl
  | case2 => exact growth.skipToken
  | case3 depth s more inner deeper ih => exact growth.trans growth.skipToken ih

theorem skipTo (growth : Growth env Grown) (recovery : KindSet) : Grown s (s.skipTo env recovery) := by
  fun_induction State.skipTo env recovery s with
  | case1 => exact growth.refl
  | case2 s away ih =>
    refine growth.trans ?_ ih
    unfold skipOne
    split
    · exact growth.skipBraces 0
    · exact growth.skipToken

theorem abandon (growth : Growth env Grown) (run : s.abandon env = .ok t) : Grown s t := by
  have given : Grown s (s.withRecovery .abandoned) := growth.still rfl rfl rfl
  unfold State.abandon at run
  split at run
  · cases run
    exact growth.refl
  · dsimp only at run
    split at run
    · cases run
      exact given
    · exact growth.trans given (growth.error growth.consumeRest run)

theorem report (growth : Growth env Grown) {issue : Issue} (run : s.report env issue = .ok t) : Grown s t := by
  unfold State.report at run
  dsimp only at run
  split at run
  · cases run
    exact growth.still rfl rfl rfl
  · have told : Grown s (s.count.tell env issue) := growth.still rfl rfl rfl
    split at run
    · exact growth.trans told (growth.abandon run)
    · cases run
      exact told

private theorem settleAt (growth : Growth env Grown) {recovery : KindSet} (run : s.settleAt env recovery = .ok t) : Grown s t := by
  rcases settleAt_from run with rfl | ⟨u, told, rfl⟩
  · exact growth.refl
  · exact growth.trans (growth.report told) (growth.still rfl rfl rfl)

theorem abandonNested (growth : Growth env Grown) (run : s.abandonNested env = .ok t) : Grown s t := by
  unfold State.abandonNested at run
  split at run
  · cases run
    exact growth.refl
  · obtain ⟨u, told, run⟩ := bind_eq_ok.mp run
    exact growth.trans (growth.report told) (growth.abandon run)

/-- Any step but those that start and finish nodes or give tokens another kind. -/
theorem act (growth : Growth env Grown) {α : Type} {action : Action α} {a : α} (separate : action.isSeparate = true)
    (run : action.run env s = .ok (a, t)) : Grown s t := by
  cases action with
  | cursor | noLambda | lookaheadLimit | allow =>
    cases run
    exact growth.still rfl rfl rfl
  | consumeAny =>
    cases run
    exact growth.consumeAny
  | consume kind =>
    have run := Result.of_done run
    unfold State.consume at run
    split at run
    · next here =>
      cases run
      exact here ▸ growth.push
    · cases run
  | report issue => exact growth.report (Result.of_done run)
  | reportAndSkip issue =>
    obtain ⟨u, told, run⟩ := bind_eq_ok.mp (Result.of_done run)
    refine growth.trans (growth.report told) ?_
    split at run
    · cases run
      exact growth.refl
    · exact growth.error growth.consumeAny run
  | recover recovery =>
    have run := Result.of_done run
    unfold State.recover at run
    split at run
    · cases run
      exact growth.refl
    · obtain ⟨skipped, closed, run⟩ := bind_eq_ok.mp run
      have lost : Grown s (s.withRecovery .recovering) := growth.still rfl rfl rfl
      have passed := growth.trans lost (growth.error (growth.skipTo recovery) closed)
      have settled : Grown skipped (skipped.withRecovery .normal) := growth.still rfl rfl rfl
      exact growth.trans passed (growth.trans settled (growth.settleAt run))
  | start | join | consumeAs | complete | release | precede => cases separate

end Growth

open Event (token?)

/-- The tokens recorded so far. -/
def tokens (s : State) : List (Kind × Nat) := s.events.toList.filterMap token?

def taken (s : State) : Nat := (s.tokens.map Prod.snd).sum

def Placed (env : Env) (s : State) : Prop := s.position = min s.taken (env.stream.size - 1)

/-- Between two states tokens were recorded and none was taken back: those of the stream one by one, or
such as may be joined. The position keeps up with them. -/
structure Records (env : Env) (Joined : Kind × Nat → Prop) (s t : State) : Prop where
  tokens : ∃ more, t.tokens = s.tokens ++ more ∧ ∀ token ∈ more, token.2 = 1 ∨ Joined token
  placed : Placed env s → Placed env t

variable {Joined : Kind × Nat → Prop} {s t u : State}

namespace Records

theorem refl : Records env Joined s s := ⟨⟨[], by simp, by simp⟩, id⟩

theorem trans (first : Records env Joined s t) (second : Records env Joined t u) : Records env Joined s u where
  tokens := by
    obtain ⟨more, recorded, sorted⟩ := first.tokens
    obtain ⟨more', recorded', sorted'⟩ := second.tokens
    refine ⟨more ++ more', by rw [recorded', recorded, List.append_assoc], fun token member => ?_⟩
    exact (List.mem_append.mp member).elim (sorted token) (sorted' token)
  placed := second.placed ∘ first.placed

theorem of_eq (tokens : t.tokens = s.tokens) (position : t.position = s.position) : Records env Joined s t where
  tokens := ⟨[], by simp [tokens], by simp⟩
  placed placed := by rw [Placed, position, placed, taken, taken, tokens]

theorem taken_le (records : Records env Joined s t) : s.taken ≤ t.taken := by
  obtain ⟨more, recorded, -⟩ := records.tokens
  rw [taken, taken, recorded, List.map_append, List.sum_append]
  exact Nat.le_add_right _ _

end Records

theorem tokens_pushToken (kind : Kind) (count : Nat) :
    (s.pushToken env kind count).tokens = s.tokens ++ [(kind, count)] := by
  simp [tokens, pushToken, token?]

theorem pushToken_placed {kind : Kind} {count : Nat} (placed : Placed env s) :
    Placed env (s.pushToken env kind count) := by
  have taken : (s.pushToken env kind count).taken = s.taken + count := by
    simp [State.taken, tokens_pushToken]
  rw [Placed] at placed ⊢
  rw [taken]
  simp only [pushToken, TokenCursor.advance, TokenCursor.index, cursor]
  omega

theorem pushToken_records {kind : Kind} {count : Nat} (sorted : count = 1 ∨ Joined (kind, count)) :
    Records env Joined s (s.pushToken env kind count) where
  tokens := ⟨[(kind, count)], tokens_pushToken kind count, by simpa using sorted⟩
  placed := pushToken_placed

private theorem filterMap_set_start {events : Array Event} {index : Nat} {kind other : Kind} {old new : Option Nat}
    (found : events[index]? = some (.start kind old)) :
    (events.setIfInBounds index (.start other new)).toList.filterMap token? = events.toList.filterMap token? := by
  have same := congrArg (fun tokens => tokens.toList.filterMap id) (@Event.map_token_set_start events index kind other old new found)
  simpa only [Array.toList_map, List.filterMap_map, Function.id_comp] using same

theorem complete_tokens {mark : Mark} {kind : Kind} (run : s.complete mark kind = .ok t) :
    t.tokens = s.tokens ∧ t.position = s.position := by
  unfold complete at run
  split at run
  · next found =>
    cases run
    refine ⟨?_, rfl⟩
    rw [tokens, Array.toList_push, List.filterMap_append, filterMap_set_start found]
    exact List.append_nil _
  · cases run

theorem complete_records {mark : Mark} {kind : Kind} (run : s.complete mark kind = .ok t) : Records env Joined s t :=
  .of_eq (complete_tokens run).1 (complete_tokens run).2

theorem release_tokens {mark : Mark} (run : s.release mark = .ok t) : t.tokens = s.tokens ∧ t.position = s.position := by
  unfold release at run
  split at run
  · split at run
    · next last =>
      cases run
      refine ⟨?_, rfl⟩
      have split : s.events.toList = s.events.pop.toList ++ [.tombstone] := by
        rw [Array.toList_pop]
        refine (List.dropLast_append_getLast? _ ?_).symm
        rw [Array.getLast?_toList, last]
        rfl
      rw [tokens, tokens, split, List.filterMap_append]
      exact (List.append_nil _).symm
    · cases run
  · cases run
    exact ⟨rfl, rfl⟩

theorem release_records {mark : Mark} (run : s.release mark = .ok t) : Records env Joined s t :=
  .of_eq (release_tokens run).1 (release_tokens run).2

theorem start_tokens (s : State) : s.start.tokens = s.tokens := by simp [tokens, start, Event.tombstone, token?]

theorem start_records : Records env Joined s s.start := .of_eq (start_tokens s) rfl

theorem precede_tokens {first : Completed} (run : s.precede first = .ok t) :
    t.tokens = s.tokens ∧ t.position = s.position := by
  simp only [precede] at run
  split at run
  · next found =>
    cases run
    exact ⟨(filterMap_set_start found).trans (start_tokens s), rfl⟩
  · cases run

theorem precede_records {first : Completed} (run : s.precede first = .ok t) : Records env Joined s t :=
  .of_eq (precede_tokens run).1 (precede_tokens run).2

theorem growth : Growth env (Records env Joined) where
  trans first second := first.trans second
  still events position _ := .of_eq (by rw [tokens, tokens, events]) position
  push := pushToken_records (.inl rfl)
  error inner closed := start_records.trans (inner.trans (complete_records closed))

end State

open State

def Action.Joins (Joined : Kind × Nat → Prop) : {α : Type} → Action α → Prop
  | _, .join kind count => Joined (kind, count)
  | _, _ => True

theorem Action.run_records {Joined : Kind × Nat → Prop} {α : Type} {action : Action α} {s t : State} {a : α}
    (run : action.run env s = .ok (a, t)) (joins : action.Joins Joined) : s.Records env Joined t := by
  cases action with
  | start =>
    cases run
    exact start_records
  | join kind count =>
    cases run
    exact pushToken_records (.inr joins)
  | consumeAs keyword =>
    have run := Result.of_done run
    unfold State.consumeAs at run
    split at run
    · cases run
      exact pushToken_records (.inl rfl)
    · cases run
  | release mark => exact release_records (Result.of_done run)
  | complete mark kind =>
    obtain ⟨u, closed, same⟩ := map_eq_ok.mp run
    cases same
    exact complete_records closed
  | precede first =>
    obtain ⟨u, preceded, same⟩ := map_eq_ok.mp run
    cases same
    exact precede_records preceded
  | _ => exact growth.act rfl run

end Parser

end LosslessJava
