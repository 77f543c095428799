import LosslessJava.Proofs.Duration
import LosslessJava.Proofs.Invariants
import LosslessJava.Proofs.Nesting

/-! How many nodes that stand for brackets a rule can put around one another before it goes one level deeper.
Each level below may do so again, but there are no more levels than the options allow. -/

namespace LosslessJava

@[reducible] def Kind.isOuter : Kind → Bool
  | .tombstone => false
  | .parenExpr | .argList | .typeArgList | .annotationArgList => false
  | .elementValueArray | .arrayInitializer | .block | .classBody => false
  | _ => true

private theorem Kind.of_isOuter {kind : Kind} (outer : kind.isOuter = true) : kind ≠ .tombstone ∧ kind.isEnclosing = false := by
  cases kind <;> first | exact ⟨by decide, rfl⟩ | cases outer

@[reducible] def Kind.isNamed : Kind → Bool
  | .tombstone => false
  | _ => true

private theorem Kind.of_isNamed {kind : Kind} (named : kind.isNamed = true) : kind ≠ .tombstone := by
  rintro rfl
  cases named

namespace Event

def bare : Event → Event
  | .start kind _ => .start kind none
  | event => event

def bares (events : Array Event) : List Event := events.toList.map bare

def Targets (events : Array Event) (index : Nat) : Prop :=
  ∃ (place : Nat) (kind : Kind) (distance : Nat), events[place]? = some (.start kind (some distance)) ∧ place + distance = index

def Outer (events : Array Event) (index : Nat) : Prop :=
  ∃ kind, (bares events)[index]? = some (.start kind none) ∧ kind.isOuter = true

@[simp] theorem length_bares (events : Array Event) : (bares events).length = events.size := by simp [bares]

@[simp] theorem bares_push (events : Array Event) (event : Event) :
    bares (events.push event) = bares events ++ [event.bare] := by simp [bares]

@[simp] theorem bares_set (events : Array Event) (index : Nat) (event : Event) :
    bares (events.setIfInBounds index event) = (bares events).set index event.bare := by
  simp [bares, List.map_set]

theorem targets_push {events : Array Event} {event : Event} {index : Nat} (still : ∀ kind distance, event ≠ .start kind (some distance))
    (targets : Targets (events.push event) index) : Targets events index := by
  obtain ⟨place, kind, distance, found, same⟩ := targets
  rw [Array.getElem?_push] at found
  split at found
  · exact absurd (Option.some.inj found) (still kind distance)
  · exact ⟨place, kind, distance, found, same⟩

/-- Another kind of a start changes nothing of where it points to. -/
theorem targets_set {events : Array Event} {place index : Nat} {kind other : Kind} {parent : Option Nat}
    (there : events[place]? = some (.start kind parent)) (targets : Targets (events.setIfInBounds place (.start other parent)) index) :
    Targets events index := by
  obtain ⟨place', kind', distance, found, same⟩ := targets
  rw [Array.getElem?_setIfInBounds] at found
  split at found
  · next hit =>
    subst hit
    split at found
    · cases found
      exact ⟨place, kind, distance, there, same⟩
    · cases found
  · exact ⟨place', kind', distance, found, same⟩

/-- If all starts point to nodes that may stand outside, the events are aimed. -/
theorem aimed_of_targets {events : Array Event} (outer : ∀ index, Targets events index → Outer events index) :
    Aimed events.toList := by
  intro index kind distance found
  obtain ⟨kind', there, isOuter⟩ := outer (index + distance) ⟨index, kind, distance, by simpa using found, rfl⟩
  simp only [bares, List.getElem?_map, Option.map_eq_some_iff] at there
  obtain ⟨event, there, same⟩ := there
  cases event with
  | start kind'' parent =>
    cases same
    exact ⟨kind', parent, there, Kind.of_isOuter isOuter⟩
  | token => cases same
  | finish => cases same

theorem spendAll_bares (given : List Allowance) (events : Array Event) :
    spendAll given (bares events) = spendAll given events.toList := by
  rw [bares]
  induction events.toList generalizing given with
  | nil => rfl
  | cons event rest ih => cases event <;> simp [bare, spend, ih]

end Event

open Event (bares Targets Outer Fits)

namespace Parser

namespace State

/-- What was recorded between two states is allowed, and what points to a start in it points to one that may be
put around others. -/
structure Abides (top : Allowance) (s t : State) : Prop where
  depth : t.depth = s.depth
  events : ∃ more, bares t.events = bares s.events ++ more ∧ Fits top more
  aimed : ∀ index, Targets t.events index → Targets s.events index ∨ s.events.size ≤ index ∧ Outer t.events index

variable {env : Env} {top inner : Allowance} {s t u opened : State} {kind : Kind}

namespace Abides

private theorem of_events (events : t.events = s.events) (depth : t.depth = s.depth) : Abides top s t :=
  ⟨depth, ⟨[], by simp [events], .nil⟩, fun _ targets => .inl (events ▸ targets)⟩

theorem refl : Abides top s s := .of_events rfl rfl

theorem trans (first : Abides top s t) (second : Abides top t u) : Abides top s u := by
  obtain ⟨more, recorded, fits⟩ := first.events
  obtain ⟨more', recorded', fits'⟩ := second.events
  have longer : t.events.size = s.events.size + more.length := by simpa using congrArg List.length recorded
  refine ⟨second.depth.trans first.depth, ⟨more ++ more', by rw [recorded', recorded, List.append_assoc], fits.append fits'⟩,
    fun index targets => ?_⟩
  rcases second.aimed index targets with before | ⟨late, outer⟩
  · refine (first.aimed index before).imp_right fun ⟨late, kind, there, isOuter⟩ => ⟨late, kind, ?_, isOuter⟩
    rw [recorded', List.getElem?_append_left (List.getElem?_eq_some_iff.mp there).1, there]
  · exact .inr ⟨by omega, outer⟩

end Abides

private theorem start_abides : Abides top s s.start :=
  ⟨rfl, ⟨[.tombstone], by simp [start, Event.bare, Event.tombstone], .tombstone⟩,
    fun _ targets => .inl (Event.targets_push (by simp [Event.tombstone]) targets)⟩

theorem pushToken_abides {count : Nat} : Abides top s (s.pushToken env kind count) :=
  ⟨rfl, ⟨[.token kind count], by simp [pushToken, Event.bare], .token⟩,
    fun _ targets => .inl (Event.targets_push (by simp) targets)⟩

/-- A state with the start of a node recorded, to which nothing points, or another node's start if the node is of a
kind that may be put around others. -/
structure Opens (isOuter : Bool) (s opened : State) : Prop where
  depth : opened.depth = s.depth
  events : bares opened.events = bares s.events ++ [.tombstone]
  aimed : ∀ index, Targets opened.events index → Targets s.events index ∨ isOuter = true ∧ index = s.events.size

theorem start_opens {isOuter : Bool} : Opens isOuter s s.start :=
  ⟨rfl, by simp [start, Event.bare, Event.tombstone], fun _ targets =>
    .inl (Event.targets_push (by simp [Event.tombstone]) targets)⟩

private theorem precede_opens {first : Completed} (run : s.precede first = .ok opened) : Opens true s opened := by
  simp only [precede] at run
  split at run
  · next kind parent found =>
    cases run
    have inside : first.position < s.events.size + 1 := by
      simpa [start] using (Array.getElem?_eq_some_iff.mp found).1
    refine ⟨rfl, ?_, fun index targets => ?_⟩
    · have same : bares s.start.events = bares s.events ++ [.tombstone] := by simp [start, Event.bare, Event.tombstone]
      have there : (bares s.start.events)[first.position]? = some (.start kind none) := by
        rw [bares, List.getElem?_map, Array.getElem?_toList, found]
        rfl
      rw [Event.bares_set, ← same]
      refine List.ext_getElem? fun index => ?_
      rw [List.getElem?_set]
      split
      · next hit =>
        subst hit
        simpa [there, Event.bare] using (Array.getElem?_eq_some_iff.mp found).1
      · rfl
    · obtain ⟨place, kind', distance, there, rfl⟩ := targets
      dsimp only at there
      rw [Array.getElem?_setIfInBounds] at there
      split at there
      · next hit =>
        subst hit
        split at there
        · cases there
          refine .inr ⟨rfl, ?_⟩
          simp only [mark]
          omega
        · cases there
      · exact .inl (Event.targets_push (by simp [Event.tombstone]) ⟨place, kind', distance, there, rfl⟩)
  · cases run

private theorem complete_abides (opens : Opens kind.isOuter s opened) (abides : Abides inner opened t)
    (closed : t.complete s.mark kind = .ok u) (completed : kind ≠ .tombstone) (entered : top.enter kind = some inner) :
    Abides top s u := by
  obtain ⟨more, recorded, fits⟩ := abides.events
  rw [opens.events, List.append_assoc, List.singleton_append] at recorded
  have size : opened.events.size = s.events.size + 1 := by simpa using congrArg List.length opens.events
  unfold complete at closed
  split at closed
  · next kind' parent found =>
    cases closed
    have whole : bares ((t.events.setIfInBounds s.mark.position (.start kind parent)).push .finish) =
        bares s.events ++ .start kind none :: (more ++ [.finish]) := by
      have place : s.mark.position = (bares s.events).length := by simp [mark]
      rw [Event.bares_push, Event.bares_set, recorded, place, List.set_append_right _ _ (Nat.le_refl _), Nat.sub_self,
        List.set_cons_zero, List.append_assoc]
      rfl
    refine ⟨abides.depth.trans opens.depth, ⟨_, whole, .node completed entered fits⟩, fun index targets => ?_⟩
    have before := Event.targets_set found (Event.targets_push (by simp) targets)
    rcases abides.aimed index before with early | ⟨late, kind'', there, isOuter⟩
    · rcases opens.aimed index early with stays | ⟨isOuter, same⟩
      · exact .inl stays
      · refine .inr ⟨Nat.le_of_eq same.symm, kind, ?_, isOuter⟩
        rw [whole, same, ← Event.length_bares, List.getElem?_append_right (Nat.le_refl _), Nat.sub_self]
        rfl
    · refine .inr ⟨by omega, kind'', ?_, isOuter⟩
      obtain ⟨past, rfl⟩ : ∃ past, index = (bares s.events).length + (past + 1) :=
        ⟨index - s.events.size - 1, by rw [Event.length_bares]; omega⟩
      rw [recorded, List.getElem?_append_right (by omega), Nat.add_sub_cancel_left, List.getElem?_cons_succ] at there
      rw [whole, List.getElem?_append_right (by omega), Nat.add_sub_cancel_left, List.getElem?_cons_succ,
        List.getElem?_append_left (List.getElem?_eq_some_iff.mp there).1, there]
  · cases closed

private theorem release_abides (abides : Abides top s.start t) (released : t.release s.mark = .ok u) : Abides top s u := by
  unfold release at released
  split at released
  · next last =>
    split at released
    · cases released
      obtain ⟨more, recorded, -⟩ := abides.events
      have size : t.events.size = s.events.size + 1 + more.length := by
        simpa [start, Nat.add_assoc, Nat.add_comm 1] using congrArg List.length recorded
      obtain rfl : more = [] := List.eq_nil_of_length_eq_zero (by simp only [mark] at last; omega)
      refine ⟨abides.depth, ⟨[], ?_, .nil⟩, fun index targets => ?_⟩
      · have same : bares t.events.pop = (bares t.events).dropLast := by simp [bares]
        rw [same, recorded]
        simp [start]
      · obtain ⟨place, kind, distance, there, rfl⟩ := targets
        have inside : place < t.events.size - 1 := by simpa using (Array.getElem?_eq_some_iff.mp there).1
        have before : Targets t.events (place + distance) := by
          refine ⟨place, kind, distance, ?_, rfl⟩
          rw [← there, Array.getElem?_pop, if_pos inside]
        rcases abides.aimed _ before with early | ⟨late, kind', found, -⟩
        · exact .inl (Event.targets_push (by simp [Event.tombstone]) early)
        · have bound := (List.getElem?_eq_some_iff.mp found).1
          simp only [Event.length_bares, start, Array.size_push, List.length_nil] at bound late size
          omega
    · cases released
  · cases released
    exact start_abides.trans abides

theorem Abides.growth : Growth env (Abides top) where
  trans := .trans
  still events _ depth := .of_events events depth
  push := pushToken_abides
  error inner closed := complete_abides start_opens inner closed (by decide) (Allowance.enter_plain rfl _)

end State

/-- What a rule is run in, and how deep it may call others. -/
structure Setting (N : Type → Type) where
  env : Env
  rules : (α : Type) → N α → Program N α
  calls : Nat

variable {N : Type → Type} {setting : Setting N} {free : Bool} {weight : Nat} {α β : Type}

open Program (Runs)

/-- What is left below a node is enough for a rule of some weight, and for all levels below. Where annotations are
`free`, the first of their lists of arguments costs nothing if it is within those of another annotation. -/
def Setting.Affords (setting : Setting N) (free : Bool) (weight : Nat) (depth : Nat) (top : Allowance) : Prop :=
  weight + 2 * (setting.env.options.maxDepth - depth) ≤ top.left + if free && top.within then 1 else 0

class Weighs (setting : Setting N) (free : Bool) (weight : Nat) {α : Type} (rule : Program N α) : Prop where
  abides : ∀ {calls s a t r steps}, calls = setting.calls → Runs setting.env setting.rules calls rule s r steps →
    r = .ok (a, t) → ∀ {top}, setting.Affords free weight s.depth top → s.Abides top t

class Tells (test : α → Bool) (rule : Program N α) : Prop where
  passes : ∀ {setting : Setting N} {calls s a t r steps}, Runs setting.env setting.rules calls rule s r steps →
    r = .ok (a, t) → test a = true

namespace Tells

variable {test : α → Bool}

theorem of_pure {a : α} (passes : test a = true) : Tells test (Pure.pure a : Program N α) where
  passes run given := by
    cases run
    cases given
    exact passes

instance {a : α} [given : Evident (test a)] : Tells test (Pure.pure a : Program N α) := of_pure given.holds

theorem told {first : Program N β} {next : β → Program N α} {known : β → Bool} (tells : Tells known first)
    (later : ∀ b, known b = true → Tells test (next b)) : Tells test (first >>= next) where
  passes run given := by
    cases run with
    | bind ran ran' => exact (later _ (tells.passes ran rfl)).passes ran' given
    | bindHalt => cases given

theorem andThen {first : Program N β} {next : β → Program N α} (later : ∀ b, Tells test (next b)) :
    Tells test (first >>= next) := @told _ _ _ test first next (fun _ => true) ⟨fun _ _ => rfl⟩ fun b _ => later b

instance {first : Program N β} {next : β → Program N α} [later : ∀ b, Tells test (next b)] : Tells test (first >>= next) :=
  andThen later

instance {noLambda : Bool} {rule : Program N α} [inner : Tells test rule] : Tells test (withNoLambda noLambda rule) where
  passes run given := by
    cases run with
    | withNoLambda ran =>
      obtain ⟨⟨b, u⟩, rfl, same⟩ := map_eq_ok.mp given
      cases same
      exact inner.passes ran rfl

instance {c : Prop} [Decidable c] {yes no : Program N α} [one : Tells test yes] [other : Tells test no] :
    Tells test (if c then yes else no) := by
  split
  · exact one
  · exact other

instance {c : Prop} [Decidable c] {a b : α} [one : Tells test (Pure.pure a : Program N α)]
    [other : Tells test (Pure.pure b : Program N α)] : Tells test (Pure.pure (if c then a else b) : Program N α) := by
  split
  · exact one
  · exact other

end Tells

@[reducible] def outerIf : Option Kind → Bool
  | some kind => kind.isOuter
  | none => true

@[reducible] def outerWith : Kind × α → Bool
  | (kind, _) => kind.isOuter

instance {rule : Program N Kind} [told : Tells Kind.isOuter rule] :
    Tells outerIf (rule >>= fun kind => Pure.pure (some kind)) := .told told fun _ outer => .of_pure outer

namespace Weighs

theorem of_steps {rule : Program N α} (one : ∀ {calls s a t steps top}, calls = setting.calls →
    Runs setting.env setting.rules calls rule s (.ok (a, t)) steps → setting.Affords free weight s.depth top → s.Abides top t) :
    Weighs setting free weight rule where
  abides same run given _ afford := by
    subst given
    exact one same run afford

instance {a : α} : Weighs setting free weight (Pure.pure a : Program N α) where
  abides _ run given _ _ := by
    cases run
    cases given
    exact .refl

theorem of_act {action : Action α} (one : ∀ {s a t top}, action.run setting.env s = .ok (a, t) → State.Abides top s t) :
    Weighs setting free weight (.act action : Program N α) where
  abides _ run given _ _ := by
    cases run
    exact one given

theorem act {action : Action α} (separate : action.isSeparate = true) : Weighs setting free weight (.act action : Program N α) :=
  of_act fun run => State.Abides.growth.act separate run

theorem andThen {first : Program N β} {next : β → Program N α} [one : Weighs setting free weight first]
    (two : ∀ b, Weighs setting free weight (next b)) : Weighs setting free weight (first >>= next) where
  abides same run given _ afford := by
    cases run with
    | bind ran later =>
      have before := one.abides same ran rfl afford
      rw [← before.depth] at afford
      exact before.trans ((two _).abides same later given afford)
    | bindHalt => cases given

instance {first : Program N β} {next : β → Program N α} [Weighs setting free weight first]
    [two : ∀ b, Weighs setting free weight (next b)] : Weighs setting free weight (first >>= next) := andThen two

/-- What follows a rule matters only for the answers that the rule gives. -/
theorem told {first : Program N β} {next : β → Program N α} {test : β → Bool} (one : Weighs setting free weight first)
    (tells : Tells test first) (two : ∀ b, test b = true → Weighs setting free weight (next b)) :
    Weighs setting free weight (first >>= next) where
  abides same run given _ afford := by
    cases run with
    | bind ran later =>
      have before := one.abides same ran rfl afford
      rw [← before.depth] at afford
      exact before.trans ((two _ (tells.passes ran rfl)).abides same later given afford)
    | bindHalt => cases given

instance {c : Prop} [Decidable c] {yes no : Program N α} [one : Weighs setting free weight yes]
    [other : Weighs setting free weight no] : Weighs setting free weight (if c then yes else no) := by
  split
  · exact one
  · exact other

instance {a : α} {step : α → Program N (Option α)} [round : ∀ a, Weighs setting free weight (step a)] :
    Weighs setting free weight (loopFrom a step) where
  abides {calls s b t r steps} same run given top afford := by
    refine run.loop_induction
      (motive := fun _ s r _ => r = .ok (b, t) → setting.Affords free weight s.depth top → s.Abides top t)
      (fun ran given afford => ?leaves) (fun _ given => nomatch given) (fun ran _ _ later given afford => ?goes) given afford
    case leaves =>
      cases given
      exact (round _).abides same ran rfl afford
    case goes =>
      have before := (round _).abides same ran rfl afford
      rw [← before.depth] at afford
      exact before.trans (later given afford)

/-- What is put around one another one level deeper counts for that level. -/
theorem deeper {otherwise : α} {rule : Program N α} (inner : Weighs setting false 2 rule)
    (enough : ∀ {depth top}, setting.Affords free weight depth top → setting.Affords false 0 depth top) :
    Weighs setting free weight (nested otherwise rule) where
  abides same run given top afford := by
    cases run with
    | tooDeep =>
      obtain ⟨u, abandoned, same⟩ := map_eq_ok.mp given
      cases same
      exact State.Abides.growth.abandonNested abandoned
    | nested room ran =>
      obtain ⟨⟨b, u⟩, rfl, same'⟩ := map_eq_ok.mp given
      cases same'
      have afford' := enough afford
      have below := inner.abides same ran rfl (by
        simp only [Setting.Affords, State.enter, Bool.false_and, Bool.false_eq_true, if_false] at afford' ⊢
        omega : setting.Affords false 2 _ top)
      exact ⟨by simp [State.leave, below.depth, State.enter], below.events, below.aimed⟩

theorem below {otherwise : α} {rule : Program N α} (inner : Weighs setting false 2 rule) :
    Weighs setting false weight (nested otherwise rule) :=
  deeper inner fun afford => by
    simp only [Setting.Affords] at afford ⊢
    omega

instance {otherwise : α} {rule : Program N α} [inner : Weighs setting false 2 rule] :
    Weighs setting false weight (nested otherwise rule) := below inner

instance {otherwise : α} {rule : Program N α} [inner : Weighs setting false 2 rule] :
    Weighs setting true (weight + 1) (nested otherwise rule) :=
  deeper inner fun afford => by
    simp only [Setting.Affords, Bool.false_and, Bool.false_eq_true, if_false] at afford ⊢
    split at afford <;> omega

instance {noLambda : Bool} {rule : Program N α} [inner : Weighs setting free weight rule] :
    Weighs setting free weight (withNoLambda noLambda rule) where
  abides same run given _ afford := by
    cases run with
    | withNoLambda ran =>
      obtain ⟨⟨b, u⟩, rfl, same'⟩ := map_eq_ok.mp given
      cases same'
      have below := inner.abides same ran rfl afford
      exact ⟨below.depth, below.events, below.aimed⟩

instance {rule : Program N (Option Completed)} [inner : Weighs setting free weight rule] :
    Weighs setting free weight (speculate rule) where
  abides same run given _ afford := by
    cases run with
    | speculate ran =>
      obtain ⟨⟨b, u⟩, rfl, settled⟩ := map_eq_ok.mp given
      replace settled : Program.settle _ b u = (_, _) := settled
      unfold Program.settle at settled
      split at settled
      · cases settled
        exact inner.abides same ran rfl afford
      · cases settled
        exact .refl

theorem tried {rule : Program N (Option Completed)} (inner : Weighs setting free weight rule) :
    Weighs setting free weight (speculate rule) := inferInstance

/-- A rule that weighs so much where no annotation is free weighs one more where they are. -/
theorem freely {rule : Program N α} (weighs : Weighs setting false weight rule) : Weighs setting true (weight + 1) rule where
  abides same run given _ afford := by
    refine weighs.abides same run given ?_
    simp only [Setting.Affords, Bool.false_and, Bool.false_eq_true, if_false] at afford ⊢
    split at afford <;> omega

theorem strictly {rule : Program N α} (weighs : Weighs setting true weight rule) : Weighs setting false weight rule where
  abides same run given _ afford := by
    refine weighs.abides same run given ?_
    simp only [Setting.Affords, Bool.false_and, Bool.false_eq_true, if_false] at afford ⊢
    omega

end Weighs

section Nodes

open State (Abides Opens)

variable {calls : Nat} {s t u : State} {r : Result α}

theorem act_of_runs {action : Action α} {steps : Nat}
    (run : Runs setting.env setting.rules calls (.act action) s r steps) : r = action.run setting.env s := by
  cases run
  rfl

theorem bind_of_runs {first : Program N β} {next : β → Program N α} {a : α} {steps : Nat}
    (run : Runs setting.env setting.rules calls (first >>= next) s r steps) (given : r = .ok (a, t)) :
    ∃ b u m k, Runs setting.env setting.rules calls first s (.ok (b, u)) m ∧
      Runs setting.env setting.rules calls (next b) u (.ok (a, t)) k := by
  cases run with
  | bind ran later => exact ⟨_, _, _, _, ran, given ▸ later⟩
  | bindHalt => cases given

theorem complete_of_runs {mark : Mark} {kind : Kind} {done : Completed} {steps : Nat}
    (run : Runs setting.env setting.rules calls (mark.complete kind) s (.ok (done, t)) steps) :
    s.complete mark kind = .ok t := by
  obtain ⟨u, closed, same⟩ := map_eq_ok.mp (act_of_runs run).symm
  cases same
  exact closed

theorem pure_of_runs {a : α} {steps : Nat} (run : Runs setting.env setting.rules calls (Pure.pure a) s r steps) :
    r = .ok (a, s) := by
  cases run
  rfl

theorem start_of_runs {mark : Mark} {steps : Nat} (run : Runs setting.env setting.rules calls start s (.ok (mark, t)) steps) :
    mark = s.mark ∧ t = s.start := by
  cases act_of_runs run
  exact ⟨rfl, rfl⟩

theorem precede_of_runs {first : Completed} {mark : Mark} {steps : Nat}
    (run : Runs setting.env setting.rules calls first.precede s (.ok (mark, t)) steps) : mark = s.mark ∧ Opens true s t := by
  obtain ⟨u, preceded, same⟩ := map_eq_ok.mp (act_of_runs run).symm
  cases same
  exact ⟨rfl, State.precede_opens preceded⟩

/-- To finish a node that may be put around others keeps to what is left around it. -/
theorem complete_outer {top : Allowance} {opened : State} {kind : Kind} {done : Completed} {steps : Nat}
    (outer : kind.isOuter = true) (opens : Opens true s opened) (abides : Abides top opened t)
    (run : Runs setting.env setting.rules calls (s.mark.complete kind) t (.ok (done, u)) steps) : Abides top s u := by
  have plain := Kind.of_isOuter outer
  exact State.complete_abides (outer ▸ opens) abides (complete_of_runs run) plain.1 (Allowance.enter_plain plain.2 top)

namespace Weighs

theorem opened {opener : Program N Mark} {rule : Program N β} {finish : Mark → β → Program N α} (test : β → Bool)
    (Opened : State → State → Prop) (deep : ∀ {s t}, Opened s t → t.depth = s.depth)
    (opens : ∀ {calls s mark t steps}, Runs setting.env setting.rules calls opener s (.ok (mark, t)) steps →
      mark = s.mark ∧ Opened s t)
    [inner : Weighs setting free weight rule] [tells : Tells test rule]
    (closes : ∀ {calls b s opened t a u steps top}, test b = true → Opened s opened → Abides top opened t →
      Runs setting.env setting.rules calls (finish s.mark b) t (.ok (a, u)) steps → Abides top s u) :
    Weighs setting free weight (opener >>= fun mark => rule >>= finish mark) :=
  of_steps fun same run afford => by
    obtain ⟨mark, s', _, _, started, run⟩ := bind_of_runs run rfl
    obtain ⟨b, t', _, _, ran, closed⟩ := bind_of_runs run rfl
    obtain ⟨rfl, opened⟩ := opens started
    rw [← deep opened] at afford
    exact closes (tells.passes ran rfl) opened (inner.abides same ran rfl afford) closed

theorem started {rule : Program N β} {finish : Mark → β → Program N α} (test : β → Bool)
    [Weighs setting free weight rule] [Tells test rule]
    (closes : ∀ {calls b s t a u steps top}, test b = true → Abides top s.start t →
      Runs setting.env setting.rules calls (finish s.mark b) t (.ok (a, u)) steps → Abides top s u) :
    Weighs setting free weight (start >>= fun mark => rule >>= finish mark) :=
  opened test (fun s t => t = s.start) (fun same => by rw [same]; rfl) start_of_runs
    fun outer same abides run => closes outer (same ▸ abides) run

instance {first : Completed} {rule : Program N Kind} [Weighs setting free weight rule] [Tells Kind.isOuter rule] :
    Weighs setting free weight (around first rule) :=
  opened Kind.isOuter (Opens true) Opens.depth precede_of_runs complete_outer

instance {rule : Program N Kind} [Weighs setting free weight rule] [Tells Kind.isOuter rule] :
    Weighs setting free weight (nodeOf rule) :=
  started Kind.isOuter fun outer abides run => complete_outer outer State.start_opens abides run

instance {rule : Program N (Kind × α)} [Weighs setting free weight rule] [Tells outerWith rule] :
    Weighs setting free weight (nodeWith rule) :=
  started outerWith fun {_ answer} _ _ _ _ _ _ outer abides run => by
    obtain ⟨kind, a⟩ := answer
    obtain ⟨_, u, _, _, discarded, last⟩ := bind_of_runs run rfl
    obtain ⟨_, v, _, _, closed, still⟩ := bind_of_runs discarded rfl
    cases pure_of_runs still
    cases pure_of_runs last
    exact complete_outer outer State.start_opens abides closed

instance {rule : Program N (Option Kind)} [Weighs setting free weight rule] [Tells outerIf rule] :
    Weighs setting free weight (nodeIf rule) :=
  started outerIf fun {_ answer} _ _ _ _ _ _ outer abides run => by
    cases answer with
    | some kind =>
      obtain ⟨_, u, _, _, closed, last⟩ := bind_of_runs run rfl
      cases pure_of_runs last
      exact complete_outer outer State.start_opens abides closed
    | none =>
      obtain ⟨_, u, _, _, released, last⟩ := bind_of_runs run rfl
      cases pure_of_runs last
      exact State.release_abides abides (Result.of_done (act_of_runs released).symm)

theorem enclosed {kind : Kind} {rule : Program N Unit} (named : kind ≠ .tombstone) (inner : Nat)
    [weighs : Weighs setting free inner rule]
    (enters : ∀ {depth top}, setting.Affords free weight depth top →
      ∃ below, top.enter kind = some below ∧ setting.Affords free inner depth below) :
    Weighs setting free weight (node kind rule) :=
  of_steps fun same run afford => by
    obtain ⟨mark, s', _, _, begun, run⟩ := bind_of_runs run rfl
    obtain ⟨kind', u, _, _, told, closed⟩ := bind_of_runs run rfl
    obtain ⟨_, u', _, _, ran, last⟩ := bind_of_runs told rfl
    cases pure_of_runs last
    obtain ⟨rfl, rfl⟩ := start_of_runs begun
    obtain ⟨below, entered, afford⟩ := enters afford
    exact State.complete_abides State.start_opens (weighs.abides same ran rfl afford) (complete_of_runs closed) named entered

instance {kind : Kind} {rule : Program N Unit} [named : Evident kind.isNamed] [Weighs setting false weight rule] :
    Weighs setting false (weight + 1) (node kind rule) :=
  enclosed (Kind.of_isNamed named.holds) weight fun {depth top} afford => by
    simp only [Setting.Affords, Bool.false_and, Bool.false_eq_true, if_false] at afford ⊢
    have left : top.left ≠ 0 := by omega
    unfold Allowance.enter
    simp only [if_neg left]
    split
    · split
      · exact ⟨top, rfl, by omega⟩
      · exact ⟨⟨true, top.left - 1⟩, rfl, Nat.le_sub_one_of_lt (by omega)⟩
    · split
      · exact ⟨⟨false, top.left - 1⟩, rfl, Nat.le_sub_one_of_lt (by omega)⟩
      · exact ⟨top, rfl, by omega⟩

/-- The arguments of an annotation take nothing within those of another one. -/
instance {rule : Program N Unit} [Weighs setting true (weight + 1) rule] :
    Weighs setting true (weight + 1) (node .annotationArgList rule) :=
  enclosed (by decide) (weight + 1) fun {depth top} afford => by
    simp only [Setting.Affords, Bool.true_and] at afford ⊢
    unfold Allowance.enter
    rw [if_pos rfl]
    split at afford
    · next within => exact ⟨top, if_pos within, by rw [if_pos within]; omega⟩
    · next without =>
      have left : top.left ≠ 0 := by omega
      exact ⟨⟨true, top.left - 1⟩, by rw [if_neg without, if_neg left], by simp only [if_true]; omega⟩

end Weighs

end Nodes

end Parser

end LosslessJava
