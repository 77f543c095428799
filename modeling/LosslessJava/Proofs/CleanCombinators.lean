import LosslessJava.Proofs.Clean

/-! What a rule records if it reports nothing, put together the way the rule is. What is recorded may
be told since an earlier state than the one the rule starts in, for a rule that puts a node around
what was recorded before it. -/

namespace LosslessJava

open LosslessJava.Parser

namespace Grammar

/-- What a rule runs in, and how deep it may call other rules. -/
structure Bounds where
  env : Env
  depth : Nat

variable {bounds : Bounds} {α β : Type}

/-- A rule gives an answer in a state. -/
def Bounds.Gives (bounds : Bounds) (rule : Rule α) (s : State) (a : α) (t : State) : Prop :=
  ∃ steps, Program.Runs bounds.env Grammar.rule bounds.depth rule s (.ok (a, t)) steps

/-- If a rule that is run from `s` reports nothing, it records a row of shapes, and the post-condition
holds of all that was recorded since `base`. -/
def DrawsSince (bounds : Bounds) (base : State) (rule : Rule α) (s : State)
    (post : α → List Shape → State → Prop) : Prop :=
  ∀ a t, bounds.Gives rule s a t → s.Ready bounds.env → t.errorCount = s.errorCount →
    ∃ row, base.Adds bounds.env row t ∧ post a row t

/-- If a rule reports nothing, it records a row of shapes of which the post-condition holds. -/
abbrev Draws (bounds : Bounds) (rule : Rule α) (s : State) (post : α → List Shape → State → Prop) : Prop :=
  DrawsSince bounds s rule s post

/-- What one round of a loop on `a` has to establish: the invariant of the next value, or what the loop
is to establish if there is none. -/
def Round (invariant post : α → List Shape → State → Prop) (a : α) : Option α → List Shape → State → Prop
  | some b => invariant b
  | none => post a

variable {base s t u : State} {rule : Rule α} {post : α → List Shape → State → Prop}

namespace Bounds.Gives

theorem bind {first : Rule β} {next : β → Rule α} {a : α}
    (gives : bounds.Gives (first >>= next) s a t) :
    ∃ b u, bounds.Gives first s b u ∧ bounds.Gives (next b) u a t := by
  rcases bounds with ⟨env, depth⟩
  obtain ⟨_, run⟩ := gives
  cases run with
  | bind first second => exact ⟨_, _, ⟨_, first⟩, ⟨_, second⟩⟩

theorem pure {a b : α} (gives : bounds.Gives (Pure.pure b : Rule α) s a t) : a = b ∧ t = s := by
  rcases bounds with ⟨env, depth⟩
  obtain ⟨_, run⟩ := gives
  cases run
  exact ⟨rfl, rfl⟩

/-- A rule that never comes to an end gives nothing. -/
theorem endless [Inhabited α] {a : α} : ¬ bounds.Gives (Parser.endless : Rule α) s a t := by
  rcases bounds with ⟨env, depth⟩
  rintro ⟨_, run⟩
  cases run with
  | loopEnd round =>
    have stays : Bounds.Gives ⟨env, depth⟩ (Pure.pure (some default)) s none t := ⟨_, round⟩
    cases stays.pure.1
  | @loopNext _ _ _ b _ _ u _ _ _ round _ moved _ =>
    have stays : Bounds.Gives ⟨env, depth⟩ (Pure.pure (some default)) s (some b) u := ⟨_, round⟩
    obtain rfl := stays.pure.2
    exact absurd moved (Nat.lt_irrefl _)

theorem act {action : Action α} {a : α} (gives : bounds.Gives (.act action) s a t) :
    action.run bounds.env s = .ok (a, t) := by
  rcases bounds with ⟨env, depth⟩
  obtain ⟨_, run⟩ := gives
  generalize given : (Except.ok (a, t) : Result α) = r at run
  cases run
  rfl

theorem nested {otherwise a : α} (gives : bounds.Gives (Parser.nested otherwise rule) s a t) :
    (s.abandonNested bounds.env).map (fun u => (otherwise, u)) = .ok (a, t) ∨
      ∃ u, bounds.Gives rule s.enter a u ∧ t = u.leave := by
  rcases bounds with ⟨env, depth⟩
  obtain ⟨_, run⟩ := gives
  generalize given : (Except.ok (a, t) : Result α) = r at run
  cases run with
  | tooDeep => exact .inl rfl
  | nested _ inner =>
    obtain ⟨⟨b, u⟩, rfl, same⟩ := map_eq_ok.mp given.symm
    cases same
    exact .inr ⟨u, ⟨_, inner⟩, rfl⟩

theorem withNoLambda {noLambda : Bool} {a : α}
    (gives : bounds.Gives (Parser.withNoLambda noLambda rule) s a t) :
    ∃ u, bounds.Gives rule (s.withNoLambda noLambda) a u ∧ t = u.withNoLambda s.noLambda := by
  rcases bounds with ⟨env, depth⟩
  obtain ⟨_, run⟩ := gives
  generalize given : (Except.ok (a, t) : Result α) = r at run
  cases run with
  | withNoLambda inner =>
    obtain ⟨⟨b, u⟩, rfl, same⟩ := map_eq_ok.mp given.symm
    cases same
    exact ⟨u, ⟨_, inner⟩, rfl⟩

theorem speculate {rule : Rule (Option Completed)} {found : Option Completed}
    (gives : bounds.Gives (Parser.speculate rule) s found t) :
    ∃ given u, bounds.Gives rule s given u ∧ Program.settle s given u = (found, t) := by
  rcases bounds with ⟨env, depth⟩
  obtain ⟨_, run⟩ := gives
  generalize given : (Except.ok (found, t) : Result _) = r at run
  cases run with
  | speculate inner =>
    obtain ⟨⟨b, u⟩, rfl, same⟩ := map_eq_ok.mp given.symm
    exact ⟨b, u, ⟨_, inner⟩, same⟩

theorem call {name : Nonterminal α} {a : α} (gives : bounds.Gives (Parser.call name) s a t) :
    ∃ depth, bounds.depth = depth + 1 ∧ (Bounds.mk bounds.env depth).Gives (Grammar.rule α name) s a t := by
  obtain ⟨_, run⟩ := gives
  rcases bounds with ⟨env, depth⟩
  cases run with
  | call body => exact ⟨_, rfl, _, body⟩

theorem le_errorCount {a : α} (gives : bounds.Gives rule s a t) : s.errorCount ≤ t.errorCount := by
  obtain ⟨_, run⟩ := gives
  exact ((Program.evaluates_of_exec run.exec_eq).extends rfl).grows.errorCount

end Bounds.Gives

namespace DrawsSince

theorem weaken {other : α → List Shape → State → Prop} (draws : DrawsSince bounds base rule s post)
    (implies : ∀ a row t, base.Adds bounds.env row t → post a row t → other a row t) :
    DrawsSince bounds base rule s other := fun a t gives ready clean => by
  obtain ⟨row, adds, holds⟩ := draws a t gives ready clean
  exact ⟨row, adds, implies a row t adds holds⟩

theorem pure {a : α} {row : List Shape} (adds : base.Adds bounds.env row s) (holds : post a row s) :
    DrawsSince bounds base (Pure.pure a) s post := fun b t gives _ _ => by
  obtain ⟨rfl, rfl⟩ := gives.pure
  exact ⟨row, adds, holds⟩

theorem bind {first : Rule β} {next : β → Rule α} {middle : β → List Shape → State → Prop}
    (one : DrawsSince bounds base first s middle)
    (two : ∀ b row t, base.Adds bounds.env row t → middle b row t → DrawsSince bounds base (next b) t post) :
    DrawsSince bounds base (first >>= next) s post := fun a u gives ready clean => by
  obtain ⟨b, t, ran, rest⟩ := gives.bind
  have early := ran.le_errorCount
  have late := rest.le_errorCount
  obtain ⟨row, adds, holds⟩ := one b t ran ready (by omega)
  exact two b row t adds holds a u rest adds.toReady (by omega)

/-- What a rule records comes behind what was recorded before. -/
theorem behind {front : List Shape} {own : α → List Shape → State → Prop}
    (before : base.Adds bounds.env front s) (draws : Draws bounds rule s own)
    (implies : ∀ a row t, s.Adds bounds.env row t → own a row t → post a (front ++ row) t) :
    DrawsSince bounds base rule s post := fun a t gives ready clean => by
  obtain ⟨row, adds, holds⟩ := draws a t gives ready clean
  exact ⟨front ++ row, before.trans adds, implies a row t adds holds⟩

theorem loopFrom {step : α → Rule (Option α)} (invariant : α → List Shape → State → Prop) {a : α}
    {row : List Shape} (before : base.Adds bounds.env row s) (start : invariant a row s)
    (round : ∀ a row t, base.Adds bounds.env row t → invariant a row t →
      DrawsSince bounds base (step a) t (Round invariant post a)) :
    DrawsSince bounds base (Parser.loopFrom a step) s post := by
  rintro b u ⟨_, run⟩ _ clean
  suffices all : s.errorCount ≤ u.errorCount ∧ (u.errorCount = s.errorCount → ∀ row,
      base.Adds bounds.env row s → invariant a row s → ∃ row, base.Adds bounds.env row u ∧ post b row u) from
    all.2 clean row before start
  refine run.loop_induction
    (motive := fun a s r _ => r = .ok (b, u) → s.errorCount ≤ u.errorCount ∧
      (u.errorCount = s.errorCount → ∀ row, base.Adds bounds.env row s → invariant a row s →
        ∃ row, base.Adds bounds.env row u ∧ post b row u))
    (fun ran given => ?leaves) (fun _ given => nomatch given)
    (fun ran inside moved later given => ?goes) rfl
  case leaves =>
    cases given
    refine ⟨@Bounds.Gives.le_errorCount bounds _ _ _ _ _ ⟨_, ran⟩, fun clean row before start => ?_⟩
    exact round _ row _ before start none u ⟨_, ran⟩ before.toReady clean
  case goes =>
    have early := @Bounds.Gives.le_errorCount bounds _ _ _ _ _ ⟨_, ran⟩
    obtain ⟨late, rest⟩ := later given
    refine ⟨Nat.le_trans early late, fun clean row before start => ?_⟩
    obtain ⟨row, adds, holds⟩ := round _ row _ before start _ _ ⟨_, ran⟩ before.toReady (by omega)
    exact rest (by omega) row adds holds

end DrawsSince

theorem Draws.pure {a : α} (holds : post a [] s) : Draws bounds (Pure.pure a) s post :=
  fun b t gives ready _ => by
    obtain ⟨rfl, rfl⟩ := gives.pure
    exact ⟨[], .refl ready, holds⟩

theorem Draws.loopFrom {step : α → Rule (Option α)} (invariant : α → List Shape → State → Prop) {a : α}
    (start : invariant a [] s)
    (round : ∀ a row t, s.Adds bounds.env row t → invariant a row t → Draws bounds (step a) t fun next back u =>
      Round invariant post a next (row ++ back) u) : Draws bounds (Parser.loopFrom a step) s post :=
  fun b t gives ready clean => by
    have whole : DrawsSince bounds s (Parser.loopFrom a step) s post :=
      .loopFrom invariant (.refl ready) start fun a row u before holds =>
        .behind before (round a row u before holds) fun _ _ _ _ given => given
    exact whole b t gives ready clean

theorem Draws.bind {first : Rule β} {next : β → Rule α} {middle : β → List Shape → State → Prop}
    (one : Draws bounds first s middle)
    (two : ∀ b front t, s.Adds bounds.env front t → middle b front t →
      Draws bounds (next b) t fun a row u => post a (front ++ row) u) :
    Draws bounds (first >>= next) s post :=
  DrawsSince.bind one fun b front t adds holds =>
    .behind adds (two b front t adds holds) fun _ _ _ _ given => given

theorem Draws.discard {post : List Shape → State → Prop} (draws : Draws bounds rule s fun _ row t => post row t) :
    Draws bounds (Functor.discard rule) s fun _ row t => post row t :=
  Draws.bind draws fun _ _ _ _ holds => .pure (by simpa using holds)

end Grammar

end LosslessJava
