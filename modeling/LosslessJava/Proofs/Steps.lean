import Mathlib
import LosslessJava.Proofs.Shape

/-! From events to building steps. Wherever starts point forward to starts, there are steps; each
node is started once, at its own start or before it, so starts and finishes that match still do. -/

namespace LosslessJava.Event

def named (kind : Kind) (kinds : List Kind) : List Kind :=
  if kind = .tombstone then kinds else kind :: kinds

/-- From a start on, along the pointers of starts, these kinds are taken and their starts struck
out. -/
inductive Takes : List Event → Nat → List Kind → List Event → Prop where
  | last {events index kind} (found : events[index]? = some (.start kind none)) :
      Takes events index (named kind []) (events.set index tombstone)
  | next {events index kind distance kinds after}
      (found : events[index]? = some (.start kind (some distance))) (forward : 0 < distance)
      (rest : Takes (events.set index tombstone) (index + distance) kinds after) :
      Takes events index (named kind kinds) after

/-- The steps of a stretch of events. -/
inductive Emits : List Event → List BuildStep → Prop where
  | nil : Emits [] []
  | given {parent rest steps} (later : Emits rest steps) : Emits (.start .tombstone parent :: rest) steps
  | start {kind parent rest kinds after steps} (completed : kind ≠ .tombstone)
      (taken : Takes (.start kind parent :: rest) 0 kinds (tombstone :: after))
      (later : Emits after steps) :
      Emits (.start kind parent :: rest) (kinds.reverse.map .start ++ steps)
  | token {kind rawCount rest steps} (later : Emits rest steps) :
      Emits (.token kind rawCount :: rest) (.token kind rawCount :: steps)
  | finish {rest steps} (later : Emits rest steps) : Emits (.finish :: rest) (.finish :: steps)

/-- The token that an event makes. -/
def token? : Event → Option (Kind × Nat)
  | .token kind rawCount => some (kind, rawCount)
  | _ => none

variable {events after front back : List Event} {index : Nat} {kinds : List Kind}
  {steps steps' : List BuildStep}

theorem Linked.tail {event : Event} (linked : Linked (event :: events)) : Linked events :=
  fun index kind distance found => by
    have := linked (index + 1) kind distance (by simpa using found)
    rwa [Nat.add_right_comm, List.getElem?_cons_succ] at this

private theorem isStart_set {other : Nat} (start : IsStart events[other]?) :
    IsStart (events.set index tombstone)[other]? := by
  obtain ⟨kind, parent, found⟩ := start
  by_cases same : index = other
  · subst same
    have bound := (List.getElem?_eq_some_iff.mp found).1
    exact ⟨.tombstone, none, by rw [List.getElem?_set_self bound]; rfl⟩
  · exact ⟨kind, parent, by rw [List.getElem?_set_ne same, found]⟩

theorem Linked.strike (linked : Linked events) : Linked (events.set index tombstone) := by
  intro other kind distance found
  by_cases same : index = other
  · subst same
    by_cases bound : index < events.length
    · rw [List.getElem?_set_self bound] at found
      cases found
    · simp [bound] at found
  · rw [List.getElem?_set_ne same] at found
    obtain ⟨forward, start⟩ := linked other kind distance found
    exact ⟨forward, isStart_set start⟩

namespace Takes

theorem exists_of_linked (linked : Linked events) (start : IsStart events[index]?) :
    ∃ kinds after, Takes events index kinds after := by
  induction left : events.length - index using Nat.strongRecOn generalizing events index with
  | ind _ ih =>
    obtain ⟨kind, parent, found⟩ := start
    cases parent with
    | none => exact ⟨_, _, .last found⟩
    | some distance =>
      obtain ⟨forward, next⟩ := linked index kind distance found
      have bound := (List.getElem?_eq_some_iff.mp found).1
      obtain ⟨kinds, after, rest⟩ := ih _ (by simp only [List.length_set]; omega) linked.strike
        (isStart_set next) rfl
      exact ⟨_, _, .next found forward rest⟩

theorem length_eq (taken : Takes events index kinds after) : after.length = events.length := by
  induction taken with
  | last => exact List.length_set
  | next _ _ _ ih => exact ih.trans List.length_set

theorem linked (taken : Takes events index kinds after) (linked : Linked events) : Linked after := by
  induction taken with
  | last => exact linked.strike
  | next _ _ _ ih => exact ih linked.strike

theorem append (taken : Takes events index kinds after) (more : List Event) :
    Takes (events ++ more) index kinds (after ++ more) := by
  induction taken with
  | last found =>
    have bound := (List.getElem?_eq_some_iff.mp found).1
    rw [← List.set_append_left _ _ bound]
    exact .last (by rw [List.getElem?_append_left bound, found])
  | next found forward _ ih =>
    have bound := (List.getElem?_eq_some_iff.mp found).1
    rw [← List.set_append_left _ _ bound] at ih
    exact .next (by rw [List.getElem?_append_left bound, found]) forward ih

/-- What holds of all events but depends on starts in no way but that they are starts. -/
theorem filterMap_eq {β : Type} {f : Event → Option β} (blind : ∀ kind parent, f (.start kind parent) = none)
    (taken : Takes events index kinds after) : after.filterMap f = events.filterMap f := by
  have strike {events : List Event} {index : Nat} {kind parent}
      (found : events[index]? = some (.start kind parent)) :
      (events.set index tombstone).filterMap f = events.filterMap f := by
    induction events generalizing index with
    | nil => rfl
    | cons event rest ih =>
      cases index with
      | zero =>
        obtain rfl : event = .start kind parent := by simpa using found
        simp [tombstone, blind]
      | succ index =>
        simp only [List.getElem?_cons_succ] at found
        simp [List.filterMap_cons, ih found]
  induction taken with
  | last found => exact strike found
  | next found _ _ ih => exact ih.trans (strike found)

/-- Along the way no event is left that was not there before, but for starts that were struck out. -/
theorem mem (taken : Takes events index kinds after) {event : Event} (member : event ∈ after) :
    event ∈ events ∨ event = .tombstone := by
  induction taken with
  | last => exact List.mem_or_eq_of_mem_set member
  | next _ _ _ ih =>
    rcases ih member with before | struck
    · exact List.mem_or_eq_of_mem_set before
    · exact .inr struck

private theorem mem_kinds (taken : Takes events index kinds after) {kind : Kind} (member : kind ∈ kinds) :
    kind ≠ .tombstone ∧ ∃ parent, .start kind parent ∈ events := by
  induction taken with
  | @last events index kind' found =>
    simp only [named] at member
    split at member
    · cases member
    · next completed =>
      obtain rfl := List.mem_singleton.mp member
      exact ⟨completed, none, List.mem_of_getElem? found⟩
  | @next events index kind' distance kinds after found _ _ ih =>
    have later (member : kind ∈ kinds) : kind ≠ .tombstone ∧ ∃ parent, .start kind parent ∈ events := by
      obtain ⟨completed, parent, there⟩ := ih member
      refine ⟨completed, parent, (List.mem_or_eq_of_mem_set there).resolve_right fun same => ?_⟩
      cases same
      exact completed rfl
    simp only [named] at member
    split at member
    · exact later member
    · next completed =>
      rcases List.mem_cons.mp member with rfl | member
      · exact ⟨completed, _, List.mem_of_getElem? found⟩
      · exact later member

end Takes

/-- A start that is struck out has to be made up for by a node opened before. -/
theorem climbAll_strike {depth inner : Nat} {kind : Kind} {parent : Option Nat}
    (found : events[index]? = some (.start kind parent))
    (climbs : climbAll depth events = some inner) :
    climbAll (depth + (named kind []).length) (events.set index tombstone) = some inner := by
  induction events generalizing index depth with
  | nil => simp at found
  | cons event rest ih =>
    rw [climbAll_cons, Option.bind_eq_some_iff] at climbs
    obtain ⟨middle, first, later⟩ := climbs
    cases index with
    | zero =>
      obtain rfl : event = .start kind parent := by simpa using found
      simp only [climb, Option.some.injEq] at first
      simp only [List.set_cons_zero, climbAll_cons, climb, tombstone, named, if_true, Option.bind_some]
      split at first
      · next given =>
        subst first
        simpa [given] using later
      · next completed =>
        subst first
        simpa [completed] using later
    | succ index =>
      rw [List.set_cons_succ, climbAll_cons, climb_add first, Option.bind_some]
      exact ih (by simpa using found) later

private theorem length_named (kind : Kind) (kinds : List Kind) :
    (named kind kinds).length = (named kind []).length + kinds.length := by
  simp only [named]
  split
  · simp
  · simp [Nat.add_comm]

theorem Takes.climbAll {depth inner : Nat} (taken : Takes events index kinds after)
    (climbs : climbAll depth events = some inner) :
    climbAll (depth + kinds.length) after = some inner := by
  induction taken generalizing depth with
  | last found => exact climbAll_strike found climbs
  | next found _ _ ih =>
    have later := ih (climbAll_strike found climbs)
    rwa [Nat.add_assoc, ← length_named] at later

/-- What leads from one start to another does not depend on starts before. -/
theorem Leads.strike {first last : Nat} (leads : Leads events first last) (before : index < first) :
    Leads (events.set index tombstone) first last := by
  induction leads with
  | refl => exact .refl
  | step found named _ ih =>
    exact .step (by rw [List.getElem?_set_ne (by omega), found]) named (ih (by omega))

/-- If one of the starts is left out of account, there is one node less to open before. -/
theorem Takes.climbAll_head {depth inner head : Nat} {kind : Kind} {parent : Option Nat}
    (taken : Takes events index kinds after) (leads : Leads events index head)
    (there : events[head]? = some (.start kind parent)) (completed : kind ≠ .tombstone)
    (climbs : Event.climbAll depth (events.set head tombstone) = some inner) :
    ∃ count, kinds.length = count + 1 ∧ Event.climbAll (depth + count) after = some inner := by
  have one {other : Kind} (completed : other ≠ .tombstone) : (named other []).length = 1 := by
    simp [named, completed]
  induction taken generalizing depth with
  | @last events index other found =>
    cases leads with
    | refl =>
      obtain ⟨rfl, -⟩ : other = kind ∧ _ := by simpa [found] using there
      exact ⟨0, one completed, climbs⟩
    | step found' => simp [found] at found'
  | @next events index other distance kinds after found forward rest ih =>
    cases leads with
    | refl =>
      obtain ⟨rfl, -⟩ : other = kind ∧ _ := by simpa [found] using there
      exact ⟨kinds.length, by rw [length_named, one completed, Nat.add_comm], rest.climbAll climbs⟩
    | @step index last other' distance' found' proper leads =>
      obtain ⟨rfl, rfl⟩ : other = other' ∧ distance = distance' := by simpa [found] using found'
      have away : index ≠ head := by
        have := leads.le
        omega
      have unstruck : (events.set head tombstone)[index]? = some (.start other (some distance)) := by
        rw [List.getElem?_set_ne (Ne.symm away), found]
      have struck := climbAll_strike unstruck climbs
      rw [List.set_comm _ _ (Ne.symm away), one proper] at struck
      obtain ⟨count, counted, climbs⟩ := ih (leads.strike (by omega))
        (by rw [List.getElem?_set_ne away, there]) struck
      refine ⟨count + 1, by rw [length_named, one proper, counted, Nat.add_comm], ?_⟩
      rwa [Nat.add_assoc, Nat.add_comm 1 count] at climbs

private theorem Takes.before {other : Nat} (taken : Takes events index kinds after) (before : other < index) :
    after[other]? = events[other]? := by
  induction taken with
  | last => exact List.getElem?_set_ne (by omega)
  | next _ _ _ ih => rw [ih (by omega), List.getElem?_set_ne (by omega)]

/-- The start where the way begins is struck out. -/
theorem Takes.first (taken : Takes events 0 kinds after) : ∃ rest, after = tombstone :: rest := by
  have struck : after[0]? = some tombstone := by
    cases taken with
    | last found =>
      exact List.getElem?_set_self (List.getElem?_eq_some_iff.mp found).1
    | next found forward rest =>
      rw [rest.before (by omega), List.getElem?_set_self (List.getElem?_eq_some_iff.mp found).1]
  cases after with
  | nil => simp at struck
  | cons first rest => exact ⟨rest, by simpa using struck⟩

private theorem emits_of_linked (linked : Linked events) : ∃ steps, Emits events steps := by
  induction length : events.length generalizing events with
  | zero => exact ⟨[], List.eq_nil_of_length_eq_zero length ▸ .nil⟩
  | succ n ih =>
    cases events with
    | nil => simp at length
    | cons event rest =>
      have shorter : rest.length = n := by simpa using length
      have later := ih linked.tail shorter
      cases event with
      | start kind parent =>
        by_cases given : kind = .tombstone
        · subst given
          exact later.imp fun _ emits => .given emits
        · have start : IsStart (Event.start kind parent :: rest)[0]? := ⟨kind, parent, rfl⟩
          obtain ⟨kinds, after, taken⟩ := Takes.exists_of_linked linked start
          obtain ⟨after, rfl⟩ := taken.first
          have same : after.length = rest.length := by simpa using taken.length_eq
          obtain ⟨steps, emits⟩ := ih (taken.linked linked).tail (same.trans shorter)
          exact ⟨_, .start given taken emits⟩
      | token kind rawCount => exact later.imp' (.token kind rawCount :: ·) fun _ emits => .token emits
      | finish => exact later.imp' (.finish :: ·) fun _ emits => .finish emits

private theorem climbAll_starts {depth : Nat} (completed : ∀ kind ∈ kinds, kind ≠ .tombstone) :
    climbAll depth ((kinds.map BuildStep.start).map BuildStep.event) = some (depth + kinds.length) := by
  induction kinds generalizing depth with
  | nil => rfl
  | cons kind kinds ih =>
    have first : kind ≠ .tombstone := completed kind (.head _)
    simp only [List.map_cons, BuildStep.event, climbAll_cons, climb, if_neg first, Option.bind_some,
      List.length_cons]
    rw [ih fun kind member => completed kind (.tail _ member), Nat.add_assoc, Nat.add_comm 1]

namespace Emits

theorem append (emits : Emits front steps) (emits' : Emits back steps') :
    Emits (front ++ back) (steps ++ steps') := by
  induction emits with
  | nil => exact emits'
  | given _ ih => exact .given ih
  | start completed taken _ ih =>
    rw [List.append_assoc]
    exact .start completed (taken.append back) ih
  | token _ ih => exact .token ih
  | finish _ ih => exact .finish ih

private theorem climbAll {depth inner : Nat} (emits : Emits events steps)
    (climbs : climbAll depth events = some inner) :
    climbAll depth (steps.map BuildStep.event) = some inner := by
  induction emits generalizing depth with
  | nil => exact climbs
  | given _ ih => exact ih (by simpa [climb] using climbs)
  | @start kind parent rest kinds after steps completed taken _ ih =>
    have completed : ∀ kind ∈ kinds.reverse, kind ≠ .tombstone := fun kind member =>
      (taken.mem_kinds (List.mem_reverse.mp member)).1
    rw [List.map_append, climbAll_append, climbAll_starts completed, Option.bind_some, List.length_reverse]
    exact ih (by simpa [climb, tombstone] using taken.climbAll climbs)
  | token _ ih => exact ih (by simpa [climb] using climbs)
  | finish _ ih =>
    rw [climbAll_cons, Option.bind_eq_some_iff] at climbs
    obtain ⟨middle, first, later⟩ := climbs
    simp only [List.map_cons, BuildStep.event, climbAll_cons, first, Option.bind_some]
    exact ih later

private theorem tokens_eq (emits : Emits events steps) :
    steps.filterMap BuildStep.token? = events.filterMap Event.token? := by
  induction emits with
  | nil => rfl
  | given _ ih => exact ih
  | @start kind parent rest kinds after steps completed taken _ ih =>
    have struck := taken.filterMap_eq (f := Event.token?) fun _ _ => rfl
    have none (kinds : List Kind) : (kinds.map BuildStep.start).filterMap BuildStep.token? = [] := by
      simp [List.filterMap_map, Function.comp_def, BuildStep.token?]
    rw [List.filterMap_append, none, List.nil_append, ih]
    simpa [List.filterMap_cons, Event.token?, tombstone] using struck
  | token _ ih => simpa [List.filterMap_cons, BuildStep.token?, Event.token?] using ih
  | finish _ ih => simpa [List.filterMap_cons, BuildStep.token?, Event.token?] using ih

private theorem proper (emits : Emits events steps) (all : ∀ event ∈ events, event.Proper) :
    ∀ step ∈ steps, step.Proper := by
  induction emits with
  | nil => simp
  | given _ ih => exact ih fun event member => all event (.tail _ member)
  | @start kind parent rest kinds after steps completed taken _ ih =>
    intro step member
    rcases List.mem_append.mp member with started | later
    · obtain ⟨kind, among, rfl⟩ := List.mem_map.mp started
      obtain ⟨completed, parent, there⟩ := taken.mem_kinds (List.mem_reverse.mp among)
      exact (all _ there).resolve_left completed
    · refine ih (fun event member => ?_) step later
      rcases taken.mem (.tail _ member) with before | rfl
      · exact all event before
      · exact .inl rfl
  | token _ ih =>
    intro step member
    rcases List.mem_cons.mp member with rfl | later
    · exact (all _ (.head _)).1
    · exact ih (fun event member => all event (.tail _ member)) step later
  | finish _ ih =>
    intro step member
    rcases List.mem_cons.mp member with rfl | later
    · trivial
    · exact ih (fun event member => all event (.tail _ member)) step later

end Emits

private theorem takeStarts_of_takes (taken : Takes events index kinds after) (before : List Event) {limit : Nat}
    (enough : events.length ≤ index + limit) :
    takeStarts limit (before.length + index) (before ++ events).toArray =
      some (kinds, (before ++ after).toArray) := by
  have set (events : List Event) (index : Nat) :
      ((before ++ events).toArray).setIfInBounds (before.length + index) tombstone =
        (before ++ events.set index tombstone).toArray := by
    simp [List.set_append_right _ _ (Nat.le_add_right ..)]
  have get (events : List Event) (index : Nat) :
      (before ++ events).toArray[before.length + index]? = events[index]? := by
    rw [List.getElem?_toArray, List.getElem?_append_right (Nat.le_add_right ..), Nat.add_sub_cancel_left]
  induction taken generalizing limit with
  | @last events index kind found =>
    have bound := (List.getElem?_eq_some_iff.mp found).1
    obtain ⟨limit, rfl⟩ : ∃ more, limit = more + 1 := ⟨limit - 1, by omega⟩
    simp only [takeStarts, get, found, set]
    rfl
  | @next events index kind distance kinds after found forward rest ih =>
    have bound := (List.getElem?_eq_some_iff.mp found).1
    obtain ⟨limit, rfl⟩ : ∃ more, limit = more + 1 := ⟨limit - 1, by omega⟩
    have later := @ih limit (by rw [List.length_set]; omega)
    rw [← Nat.add_assoc] at later
    simp only [takeStarts, get, found, set, later]
    rfl

private theorem stepsOfLast_of_emits (emits : Emits events steps) (before : List Event) :
    stepsOfLast events.length (before ++ events).toArray = some steps := by
  have index (before : List Event) (event : Event) (rest : List Event) :
      (before ++ event :: rest).toArray.size - (rest.length + 1) = before.length := by simp
  have get (before : List Event) (event : Event) (rest : List Event) :
      (before ++ event :: rest).toArray[before.length]? = some event := by simp
  -- Events that are done with join those before.
  have shift (before : List Event) (event : Event) (rest : List Event) :
      before ++ event :: rest = before ++ [event] ++ rest := by simp
  induction emits generalizing before with
  | nil => rfl
  | given _ ih =>
    simp only [List.length_cons, stepsOfLast, index, get, if_true]
    rw [shift]
    exact ih _
  | @start kind parent rest kinds after steps completed taken _ ih =>
    have same : after.length = rest.length := by simpa using taken.length_eq
    have found := @takeStarts_of_takes _ _ _ _ taken before
      (before ++ Event.start kind parent :: rest).toArray.size (by simp)
    have later := ih (before ++ [tombstone])
    rw [← shift, same] at later
    rw [Nat.add_zero] at found
    simp only [List.length_cons, stepsOfLast, index, get, if_neg completed, found, Option.bind_eq_bind,
      Option.bind_some, later]
    rfl
  | @token kind rawCount _ _ _ ih =>
    have later := ih (before ++ [.token kind rawCount])
    rw [← shift] at later
    simp only [List.length_cons, stepsOfLast, index, get, later]
    rfl
  | finish _ ih =>
    have later := ih (before ++ [.finish])
    rw [← shift] at later
    simp only [List.length_cons, stepsOfLast, index, get, later]
    rfl

theorem buildSteps_of_emits {events : Array Event} (emits : Emits events.toList steps) :
    buildSteps events = some steps := by
  simpa [buildSteps] using stepsOfLast_of_emits emits []

/-- The tokens of a stretch take up what it counts. -/
theorem sum_tokens (events : List Event) :
    ((events.filterMap Event.token?).map Prod.snd).sum = rawCount events := by
  induction events with
  | nil => rfl
  | cons event rest ih => cases event <;> simp [List.filterMap_cons, Event.token?, rawCount, ih]

theorem Leads.of_append {first last : Nat} (leads : Leads (front ++ back) first last)
    (inside : last < front.length) : Leads front first last := by
  induction leads with
  | refl => exact .refl
  | step found named rest ih =>
    have before := rest.le
    exact .step (by rwa [List.getElem?_append_left (by omega)] at found) named (ih inside)

private theorem Linked.of_append_finish (linked : Linked (events ++ [.finish])) : Linked events := by
  intro index kind distance found
  have bound := (List.getElem?_eq_some_iff.mp found).1
  obtain ⟨forward, kind', parent, there⟩ := linked index kind distance
    (by rw [List.getElem?_append_left bound, found])
  refine ⟨forward, kind', parent, ?_⟩
  by_cases inside : index + distance < events.length
  · rwa [List.getElem?_append_left inside] at there
  · rw [List.getElem?_append_right (by omega), List.getElem?_singleton] at there
    split at there <;> cases there

/-- A way that leads to a completed start begins at one. -/
theorem Leads.begins {head : Nat} {kind : Kind} {parent : Option Nat} (leads : Leads events 0 head)
    (there : events[head]? = some (.start kind parent)) (completed : kind ≠ .tombstone) :
    ∃ kind parent rest, kind ≠ .tombstone ∧ events = .start kind parent :: rest := by
  have first : ∃ kind parent, kind ≠ .tombstone ∧ events[0]? = some (.start kind parent) := by
    cases leads with
    | refl => exact ⟨kind, parent, completed, there⟩
    | step found named => exact ⟨_, _, named, found⟩
  obtain ⟨kind, parent, completed, found⟩ := first
  cases events with
  | nil => simp at found
  | cons event rest => exact ⟨kind, parent, rest, completed, by simpa using found⟩

/-- A stretch of which one node holds all but the last finish is built as a node that is still open. -/
theorem emits_open {head : Nat} {kind : Kind} {parent : Option Nat} (linked : Linked events)
    (proper : ∀ event ∈ events, event.Proper) (leads : Leads events 0 head)
    (there : events[head]? = some (.start kind parent)) (completed : kind ≠ .tombstone)
    (struck : climbAll 0 (events.set head tombstone) = some 0) :
    ∃ kind children, kind.isNode ∧ Shape.ProperAll children ∧
      Emits events (.start kind :: Shape.stepsAll children) := by
  obtain ⟨first, parent', rest, completed', rfl⟩ := leads.begins there completed
  have start : IsStart (Event.start first parent' :: rest)[0]? := ⟨first, parent', rfl⟩
  obtain ⟨kinds, after, taken⟩ := Takes.exists_of_linked linked start
  obtain ⟨count, counted, climbs⟩ := taken.climbAll_head leads there completed struck
  obtain ⟨after, rfl⟩ := taken.first
  obtain ⟨steps, later⟩ := emits_of_linked (taken.linked linked).tail
  have emits := Emits.start completed' taken later
  -- The node that is opened first is the one around all others.
  obtain ⟨outer, others, reversed⟩ : ∃ outer others, kinds.reverse = outer :: others := by
    cases found : kinds.reverse with
    | nil => simp_all
    | cons outer others => exact ⟨outer, others, rfl⟩
  rw [reversed, List.map_cons, List.cons_append] at emits
  have all := emits.proper proper
  have length : others.length = count := by
    have := congrArg List.length reversed
    simp only [List.length_reverse, counted, List.length_cons] at this
    omega
  have completed (kind : Kind) (member : kind ∈ others) : kind ≠ .tombstone :=
    (taken.mem_kinds (List.mem_reverse.mp (reversed ▸ .tail _ member))).1
  have balanced : climbAll 0 ((others.map BuildStep.start ++ steps).map BuildStep.event) = some 0 := by
    rw [List.map_append, climbAll_append, climbAll_starts completed, Option.bind_some, length]
    exact later.climbAll (by simpa [climb, tombstone] using climbs)
  obtain ⟨children, made⟩ := Shape.row_of_balanced (fun step member => all step (.tail _ member)) balanced
  rw [made] at emits all
  exact ⟨outer, children, all _ (.head _), (Shape.properAll_iff _).mpr fun step member => all step (.tail _ member),
    emits⟩

/-- A stretch of which one node holds all is built as one tree. -/
theorem Headed.emits {head : Nat} (headed : Headed events head) (whole : Segment events) :
    ∃ kind children, Emits events (Shape.node kind children).steps ∧ (Shape.node kind children).Proper := by
  obtain ⟨front, kind, parent, body, rfl, rfl, completed, closed, inner, leads⟩ := headed
  have split : front ++ .start kind parent :: (body ++ [.finish]) =
      (front ++ .start kind parent :: body) ++ [.finish] := by simp
  rw [split] at whole leads ⊢
  have there : (front ++ Event.start kind parent :: body)[front.length]? = some (.start kind parent) := by simp
  have struck : climbAll 0 ((front ++ Event.start kind parent :: body).set front.length tombstone) = some 0 := by
    rw [List.set_append_right _ _ (Nat.le_refl _), climbAll_append, closed]
    simpa [climb, tombstone] using inner
  obtain ⟨outer, children, node, proper, emits⟩ := emits_open whole.linked.of_append_finish
    (fun event member => whole.proper event (List.mem_append_left _ member)) (leads.of_append (by simp))
    there completed struck
  exact ⟨outer, children, emits.append (.finish .nil), node, proper⟩

theorem Emits.givens {given : List Event} (tombstones : ∀ event ∈ given, event = .tombstone)
    (emits : Emits events steps) : Emits (given ++ events) steps := by
  induction given with
  | nil => exact emits
  | cons event rest ih =>
    obtain rfl := tombstones event (.head _)
    exact .given (ih fun event member => tombstones event (.tail _ member))

theorem filterMap_givens {given : List Event} (tombstones : ∀ event ∈ given, event = .tombstone) :
    given.filterMap Event.token? = [] := by
  refine List.filterMap_eq_nil_iff.mpr fun event member => ?_
  rw [tombstones event member]
  rfl

/-- Events that record one tree are built as one, of the same tokens. -/
theorem OneTree.emits {count : Nat} (one : OneTree events count) :
    ∃ kind children, Emits events (Shape.node kind children).steps ∧
      (Shape.node kind children).Proper ∧
      Shape.tokensAll children = events.filterMap Event.token? ∧
      ((Shape.tokensAll children).map Prod.snd).sum = count := by
  obtain ⟨given, tree, head, rfl, tombstones, whole, headed, counted⟩ := one
  obtain ⟨kind, children, emits, proper⟩ := headed.emits whole
  have tokens : Shape.tokensAll children = tree.filterMap Event.token? := by
    rw [← emits.tokens_eq, Shape.tokensAll_eq]
    simp [Shape.steps, BuildStep.token?, List.filterMap_cons]
  refine ⟨kind, children, emits.givens tombstones, proper, ?_, ?_⟩
  · rw [List.filterMap_append, filterMap_givens tombstones, tokens, List.nil_append]
  · rw [tokens, sum_tokens, counted]

end LosslessJava.Event
