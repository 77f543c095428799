import LosslessJava.Proofs.Precede

/-! Which event makes which building steps. The starts of nodes that begin together are all made at the first event
from which the pointers of starts lead to them, the outermost of them first. So what is recorded later changes the
steps of earlier events in one way only: where a node is completed whose start others point to, its start comes
before those. -/

namespace LosslessJava.Event

/-- The steps of a stretch of events, for each event those that are made there. -/
inductive EmitsEach : List Event → List (List BuildStep) → Prop where
  | nil : EmitsEach [] []
  | given {parent rest rows} (later : EmitsEach rest rows) : EmitsEach (.start .tombstone parent :: rest) ([] :: rows)
  | start {kind parent rest kinds after rows} (completed : kind ≠ .tombstone)
      (taken : Takes (.start kind parent :: rest) 0 kinds (tombstone :: after)) (later : EmitsEach after rows) :
      EmitsEach (.start kind parent :: rest) (kinds.reverse.map BuildStep.start :: rows)
  | token {kind rawCount rest rows} (later : EmitsEach rest rows) :
      EmitsEach (.token kind rawCount :: rest) ([.token kind rawCount] :: rows)
  | finish {rest rows} (later : EmitsEach rest rows) : EmitsEach (.finish :: rest) ([.finish] :: rows)

structure Threaded (events : List Event) : Prop where
  linked : Linked events
  named : ∀ (index : Nat) (kind : Kind) (distance : Nat),
    events[index]? = some (.start kind (some distance)) → kind ≠ .tombstone

structure Foremost (events : List Event) (head place : Nat) : Prop where
  leads : Leads events head place
  least : ∀ index, Leads events index place → head ≤ index

def redirect (events : List Event) (place : Nat) (kind : Kind) : List Event :=
  events.set place (.start kind (some (events.length - place))) ++ [tombstone]

variable {events after front back : List Event} {index place head : Nat} {kind outer : Kind} {kinds : List Kind}
  {rows rows' : List (List BuildStep)}

namespace Leads

variable {first last : Nat}

private theorem of_strike (leads : Leads (events.set index tombstone) first last) : Leads events first last := by
  induction leads with
  | refl => exact .refl
  | @step here _ _ _ found named _ ih =>
    by_cases same : index = here
    · subst same
      have bound : index < events.length := by simpa using (List.getElem?_eq_some_iff.mp found).1
      rw [List.getElem?_set_self bound] at found
      cases found
    · rw [List.getElem?_set_ne same] at found
      exact .step found named ih

private theorem strike_away (leads : Leads events first last) (away : ¬ Leads events index last) :
    Leads (events.set index tombstone) first last := by
  induction leads with
  | refl => exact .refl
  | @step here _ _ _ found named rest ih =>
    have other : index ≠ here := by
      rintro rfl
      exact away (.step found named rest)
    exact .step (by rw [List.getElem?_set_ne other, found]) named (ih away)

private theorem of_cons {event : Event} (leads : Leads (event :: events) (first + 1) (last + 1)) : Leads events first last := by
  generalize one : first + 1 = from' at leads
  generalize two : last + 1 = to' at leads
  induction leads generalizing first with
  | refl =>
    obtain rfl : first = last := by omega
    exact .refl
  | step found named _ ih =>
    subst one
    rw [List.getElem?_cons_succ] at found
    exact .step found named (ih (Nat.add_right_comm _ _ _) two)

private theorem cons (leads : Leads events first last) (event : Event) : Leads (event :: events) (first + 1) (last + 1) := by
  induction leads with
  | refl => exact .refl
  | step found named _ ih =>
    rw [Nat.add_right_comm] at ih
    exact .step (by rw [List.getElem?_cons_succ, found]) named ih

theorem starts (leads : Leads events first last) (away : first ≠ last) :
    ∃ kind distance, events[first]? = some (.start kind (some distance)) ∧ kind ≠ .tombstone := by
  cases leads with
  | refl => exact absurd rfl away
  | step found named => exact ⟨_, _, found, named⟩

private theorem set_kind (leads : Leads events first last) (found : events[place]? = some (.start kind none)) (other : Kind) :
    Leads (events.set place (.start other none)) first last := by
  induction leads with
  | refl => exact .refl
  | @step here _ _ _ there named _ ih =>
    have elsewhere : place ≠ here := by
      rintro rfl
      cases found.symm.trans there
    exact .step (by rw [List.getElem?_set_ne elsewhere, there]) named ih

private theorem of_set_kind {other : Kind} (leads : Leads (events.set place (.start other none)) first last)
    (found : events[place]? = some (.start kind none)) : Leads events first last := by
  obtain ⟨bound, same⟩ := List.getElem?_eq_some_iff.mp found
  have back := leads.set_kind (List.getElem?_set_self bound) kind
  rwa [List.set_set, ← same, List.set_getElem_self] at back

end Leads

theorem Threaded.strike (threaded : Threaded events) : Threaded (events.set index tombstone) where
  linked := threaded.linked.strike
  named place kind distance found := by
    rcases List.mem_or_eq_of_mem_set (List.mem_of_getElem? found) with before | struck
    · obtain ⟨other, there⟩ := List.getElem?_of_mem before
      exact threaded.named other kind distance there
    · cases struck

theorem Threaded.tail {event : Event} (threaded : Threaded (event :: events)) : Threaded events where
  linked := threaded.linked.tail
  named place kind distance found := threaded.named (place + 1) kind distance (by rw [List.getElem?_cons_succ, found])

namespace Takes

private theorem unique {kinds' : List Kind} {after' : List Event} (taken : Takes events index kinds after)
    (taken' : Takes events index kinds' after') : kinds = kinds' ∧ after = after' := by
  induction taken generalizing kinds' with
  | last found =>
    cases taken' with
    | last found' =>
      cases found.symm.trans found'
      exact ⟨rfl, rfl⟩
    | next found' => cases found.symm.trans found'
  | next found _ _ ih =>
    cases taken' with
    | last found' => cases found.symm.trans found'
    | next found' _ rest' =>
      cases found.symm.trans found'
      obtain ⟨rfl, rfl⟩ := ih rest'
      exact ⟨rfl, rfl⟩

theorem threaded (taken : Takes events index kinds after) (threaded : Threaded events) : Threaded after := by
  induction taken with
  | last => exact threaded.strike
  | next _ _ _ ih => exact ih threaded.strike

private theorem of_leads (taken : Takes events index kinds after) {first last : Nat} (leads : Leads after first last) :
    Leads events first last := by
  induction taken with
  | last => exact leads.of_strike
  | next _ _ _ ih => exact (ih leads).of_strike

/-- The way to a start that has no kind yet takes its kind once it has one. -/
theorem name (taken : Takes events index kinds after) (leads : Leads events index place)
    (found : events[place]? = some tombstone) :
    Takes (events.set place (.start outer none)) index (kinds ++ named outer []) after := by
  induction taken with
  | @last events index _ found' =>
    obtain rfl : index = place := Classical.byContradiction fun away => by
      obtain ⟨_, _, onward, -⟩ := leads.starts away
      cases found'.symm.trans onward
    cases found'.symm.trans found
    have bound := (List.getElem?_eq_some_iff.mp found).1
    have taken : Takes (events.set index (.start outer none)) index (named outer []) _ :=
      .last (List.getElem?_set_self bound)
    rwa [List.set_set] at taken
  | @next events index _ distance kinds after found' forward _ ih =>
    cases leads with
    | refl => cases found.symm.trans found'
    | step onward _ leads =>
      cases found'.symm.trans onward
      have ahead := leads.le
      have later := ih (leads.strike (by omega)) (by rw [List.getElem?_set_ne (by omega), found])
      rw [List.set_comm _ _ (by omega)] at later
      rw [named_append, List.append_assoc, ← named_append]
      exact .next (by rw [List.getElem?_set_ne (by omega), found']) forward later

/-- Whatever stands off the way may be replaced; and what leads there is left alone. -/
theorem set_away (taken : Takes events index kinds after) (threaded : Threaded events)
    (away : ¬ Leads events index place) (event : Event) :
    Takes (events.set place event) index kinds (after.set place event) ∧ after[place]? = events[place]? ∧
      ∀ first, Leads events first place → Leads after first place := by
  induction taken with
  | @last events index _ found =>
    have other : index ≠ place := by
      rintro rfl
      exact away .refl
    rw [List.set_comm _ _ other]
    exact ⟨.last (by rw [List.getElem?_set_ne (Ne.symm other), found]), List.getElem?_set_ne other,
      fun _ leads => leads.strike_away away⟩
  | @next events index kind distance _ _ found forward _ ih =>
    have other : index ≠ place := by
      rintro rfl
      exact away .refl
    obtain ⟨taken', same, kept⟩ := ih threaded.strike fun later =>
      away (.step found (threaded.named _ _ _ found) later.of_strike)
    rw [List.set_comm _ _ other] at taken'
    exact ⟨.next (by rw [List.getElem?_set_ne (Ne.symm other), found]) forward taken',
      same.trans (List.getElem?_set_ne other), fun first leads => kept first (leads.strike_away away)⟩

end Takes

namespace Foremost

private theorem tail {event : Event} (foremost : Foremost (event :: events) (head + 1) (place + 1)) :
    Foremost events head place where
  leads := foremost.leads.of_cons
  least index leads := Nat.le_of_succ_le_succ (foremost.least (index + 1) (leads.cons event))

/-- Where nothing that may stand first leads on, the first start to do so is a later one. -/
theorem later {event : Event} (foremost : Foremost (event :: events) head (place + 1))
    (stays : ∀ kind distance, event = .start kind (some distance) → kind = .tombstone) : ∃ next, head = next + 1 := by
  cases head with
  | zero =>
    obtain ⟨kind, distance, found, named⟩ := foremost.leads.starts (by omega)
    exact absurd (stays kind distance (by simpa using found)) named
  | succ next => exact ⟨next, rfl⟩

end Foremost

section Growth

variable {event : Event}

theorem Leads.inside {first last : Nat} (leads : Leads (front ++ back) first last) (linked : Linked front)
    (begins : first < front.length) : last < front.length := by
  induction leads with
  | refl => exact begins
  | step found _ _ ih =>
    rw [List.getElem?_append_left begins] at found
    obtain ⟨-, _, _, there⟩ := linked _ _ _ found
    exact ih (List.getElem?_eq_some_iff.mp there).1

theorem Threaded.append (threaded : Threaded events) (still : ∀ kind distance, event ≠ .start kind (some distance)) :
    Threaded (events ++ [event]) where
  linked := threaded.linked.append (linked_of_no_pointer (by simpa using still))
  named index kind distance found := by
    by_cases inside : index < events.length
    · rw [List.getElem?_append_left inside] at found
      exact threaded.named index kind distance found
    · rw [List.getElem?_append_right (by omega), List.getElem?_singleton] at found
      split at found
      · cases found
        exact absurd rfl (still _ _)
      · cases found

theorem Threaded.of_append_tombstone (threaded : Threaded (events ++ [tombstone]))
    (foremost : Foremost (events ++ [tombstone]) events.length events.length) : Threaded events where
  linked index kind distance found := by
    have inside := (List.getElem?_eq_some_iff.mp found).1
    have found' : (events ++ [tombstone])[index]? = some (.start kind (some distance)) := by
      rw [List.getElem?_append_left inside, found]
    obtain ⟨forward, kind', parent, there⟩ := threaded.linked index kind distance found'
    have within : index + distance < events.length := by
      have bound := (List.getElem?_eq_some_iff.mp there).1
      rw [List.length_append, List.length_singleton] at bound
      by_contra beyond
      obtain same : index + distance = events.length := by omega
      have reaches : Leads (events ++ [tombstone]) index events.length :=
        .step found' (threaded.named _ _ _ found') (same ▸ .refl)
      exact absurd (foremost.least index reaches) (by omega)
    rw [List.getElem?_append_left within] at there
    exact ⟨forward, kind', parent, there⟩
  named index kind distance found :=
    threaded.named index kind distance (by rw [List.getElem?_append_left (List.getElem?_eq_some_iff.mp found).1, found])

theorem Threaded.name (threaded : Threaded events) (found : events[place]? = some (.start kind none)) :
    Threaded (events.set place (.start outer none)) where
  linked index other distance there := by
    have bound := (List.getElem?_eq_some_iff.mp found).1
    by_cases same : place = index
    · subst same
      rw [List.getElem?_set_self bound] at there
      cases there
    · rw [List.getElem?_set_ne same] at there
      obtain ⟨forward, kind', parent, target⟩ := threaded.linked index other distance there
      refine ⟨forward, ?_⟩
      by_cases hit : place = index + distance
      · rw [← hit, List.getElem?_set_self bound]
        exact ⟨_, _, rfl⟩
      · rw [List.getElem?_set_ne hit]
        exact ⟨kind', parent, target⟩
  named index other distance there := by
    by_cases same : place = index
    · subst same
      rw [List.getElem?_set_self (List.getElem?_eq_some_iff.mp found).1] at there
      cases there
    · rw [List.getElem?_set_ne same] at there
      exact threaded.named index other distance there

namespace Foremost

theorem append (foremost : Foremost events head place) (inside : place < events.length) (back : List Event) :
    Foremost (events ++ back) head place :=
  ⟨foremost.leads.append back, fun index leads => foremost.least index (leads.of_append inside)⟩

theorem of_append (foremost : Foremost (events ++ back) head place) (inside : place < events.length) :
    Foremost events head place :=
  ⟨foremost.leads.of_append inside, fun index leads => foremost.least index (leads.append back)⟩

/-- Nothing leads to a start that was just recorded. -/
theorem last (threaded : Threaded events) : Foremost (events ++ [event]) events.length events.length where
  leads := .refl
  least index leads := by
    by_contra before
    exact absurd (leads.inside threaded.linked (by omega)) (Nat.lt_irrefl _)

theorem set_kind (foremost : Foremost events head place) {other : Nat}
    (found : events[other]? = some (.start kind none)) : Foremost (events.set other (.start outer none)) head place :=
  ⟨foremost.leads.set_kind found outer, fun index leads => foremost.least index (leads.of_set_kind found)⟩

end Foremost

end Growth

section Point

theorem length_redirect (events : List Event) (place : Nat) (kind : Kind) :
    (redirect events place kind).length = events.length + 1 := by
  simp [redirect]

theorem getElem?_redirect_length (events : List Event) (place : Nat) (kind : Kind) :
    (redirect events place kind)[events.length]? = some tombstone := by
  rw [redirect, List.getElem?_append_right (by simp)]
  simp

theorem getElem?_redirect_ne {other : Nat} (away : other ≠ place) (inside : other < events.length) (kind : Kind) :
    (redirect events place kind)[other]? = events[other]? := by
  rw [redirect, List.getElem?_append_left (by simpa using inside), List.getElem?_set_ne (Ne.symm away)]

private theorem getElem?_redirect_self (inside : place < events.length) (kind : Kind) :
    (redirect events place kind)[place]? = some (.start kind (some (events.length - place))) := by
  rw [redirect, List.getElem?_append_left (by simpa using inside), List.getElem?_set_self inside]

private theorem of_point {first distance : Nat} (found : events[place]? = some (.start kind none))
    (there : (redirect events place kind)[first]? = some (.start outer (some distance))) :
    first = place ∧ outer = kind ∧ first + distance = events.length ∨
      events[first]? = some (.start outer (some distance)) := by
  have bound := (List.getElem?_eq_some_iff.mp found).1
  have within := (List.getElem?_eq_some_iff.mp there).1
  rw [length_redirect] at within
  by_cases same : first = place
  · subst same
    rw [getElem?_redirect_self bound] at there
    cases there
    exact .inl ⟨rfl, rfl, by omega⟩
  · by_cases last : first = events.length
    · subst last
      rw [getElem?_redirect_length] at there
      cases there
    · rw [getElem?_redirect_ne same (by omega)] at there
      exact .inr there

namespace Leads

variable {first last : Nat}

theorem point (leads : Leads events first last) (found : events[place]? = some (.start kind none)) :
    Leads (redirect events place kind) first last := by
  induction leads with
  | refl => exact .refl
  | @step here _ _ _ there named _ ih =>
    have away : here ≠ place := by
      rintro rfl
      cases found.symm.trans there
    exact .step (by rw [getElem?_redirect_ne away (List.getElem?_eq_some_iff.mp there).1, there]) named ih

private theorem of_point (leads : Leads (redirect events place kind) first last) (found : events[place]? = some (.start kind none)) :
    Leads events first last ∨ last = events.length ∧ Leads events first place := by
  induction leads with
  | refl => exact .inl .refl
  | step there named rest ih =>
    rcases Event.of_point found there with ⟨rfl, -, far⟩ | before
    · refine .inr ⟨Classical.byContradiction fun onward => ?_, .refl⟩
      obtain ⟨_, _, struck, -⟩ := rest.starts (by rw [far]; exact Ne.symm onward)
      rw [far, getElem?_redirect_length] at struck
      cases struck
    · rcases ih with leads | ⟨same, leads⟩
      · exact .inl (.step before named leads)
      · exact .inr ⟨same, .step before named leads⟩

end Leads

theorem Threaded.point (threaded : Threaded events) (found : events[place]? = some (.start kind none))
    (completed : kind ≠ .tombstone) : Threaded (redirect events place kind) where
  linked index other distance there := by
    have bound := (List.getElem?_eq_some_iff.mp found).1
    rcases of_point found there with ⟨rfl, -, far⟩ | before
    · refine ⟨by omega, .tombstone, none, ?_⟩
      rw [far, getElem?_redirect_length]
      rfl
    · obtain ⟨forward, kind', parent, target⟩ := threaded.linked index other distance before
      refine ⟨forward, ?_⟩
      by_cases hit : index + distance = place
      · rw [hit, getElem?_redirect_self bound]
        exact ⟨_, _, rfl⟩
      · rw [getElem?_redirect_ne hit (List.getElem?_eq_some_iff.mp target).1]
        exact ⟨kind', parent, target⟩
  named index other distance there := by
    rcases of_point found there with ⟨-, rfl, -⟩ | before
    · exact completed
    · exact threaded.named index other distance before

namespace Foremost

theorem point_other {other : Nat} (foremost : Foremost events head other) (inside : other < events.length)
    (found : events[place]? = some (.start kind none)) : Foremost (redirect events place kind) head other where
  leads := foremost.leads.point found
  least index leads := by
    rcases leads.of_point found with before | ⟨same, -⟩
    · exact foremost.least index before
    · omega

/-- What leads to a start leads on to the one it points to. -/
theorem point (foremost : Foremost events head place) (threaded : Threaded events)
    (found : events[place]? = some (.start kind none)) (completed : kind ≠ .tombstone) :
    Foremost (redirect events place kind) head events.length where
  leads := by
    have bound := (List.getElem?_eq_some_iff.mp found).1
    have onward : Leads (redirect events place kind) (place + (events.length - place)) events.length := by
      rw [Nat.add_sub_cancel' (Nat.le_of_lt bound)]
      exact .refl
    exact (foremost.leads.point found).trans (.step (getElem?_redirect_self bound kind) completed onward)
  least index leads := by
    have bound := (List.getElem?_eq_some_iff.mp found).1
    have ahead := foremost.leads.le
    rcases leads.of_point found with out | ⟨-, before⟩
    · by_contra early
      have inside := (out.append []).inside threaded.linked (by omega)
      omega
    · exact foremost.least index before

end Foremost

end Point

namespace EmitsEach

theorem emits (each : EmitsEach events rows) : Emits events rows.flatten := by
  induction each with
  | nil => exact .nil
  | given _ ih => exact .given ih
  | start completed taken _ ih => exact .start completed taken ih
  | token _ ih => exact .token ih
  | finish _ ih => exact .finish ih

theorem length_eq (each : EmitsEach events rows) : rows.length = events.length := by
  induction each with
  | nil => rfl
  | given _ ih | token _ ih | finish _ ih => simp [ih]
  | start _ taken _ ih =>
    have same := taken.length_eq
    simp only [List.length_cons] at same ⊢
    omega

theorem append (each : EmitsEach front rows) (each' : EmitsEach back rows') : EmitsEach (front ++ back) (rows ++ rows') := by
  induction each with
  | nil => exact each'
  | given _ ih => exact .given ih
  | start completed taken _ ih => exact .start completed (taken.append back) ih
  | token _ ih => exact .token ih
  | finish _ ih => exact .finish ih

/-- A start that is taken back has made nothing. -/
theorem of_append_tombstone (each : EmitsEach (events ++ [tombstone]) rows) (linked : Linked events) :
    ∃ rows', rows = rows' ++ [[]] ∧ EmitsEach events rows' := by
  generalize whole : events ++ [tombstone] = all at each
  induction each generalizing events with
  | nil => simp at whole
  | @given parent rest rows later ih =>
    cases events with
    | nil =>
      cases whole
      cases later
      exact ⟨[], rfl, .nil⟩
    | cons event events =>
      cases whole
      obtain ⟨rows', rfl, each⟩ := ih linked.tail rfl
      exact ⟨[] :: rows', rfl, .given each⟩
  | @start kind parent rest kinds after rows completed taken _ ih =>
    cases events with
    | nil =>
      cases whole
      exact absurd rfl completed
    | cons event events =>
      cases whole
      have start : IsStart (Event.start kind parent :: events)[0]? := ⟨kind, parent, rfl⟩
      obtain ⟨kinds', after', taken'⟩ := Takes.exists_of_linked linked start
      obtain ⟨after', rfl⟩ := taken'.first
      obtain ⟨rfl, same⟩ := taken.unique (taken'.append [tombstone])
      cases same
      obtain ⟨rows', rfl, each⟩ := ih (taken'.linked linked).tail rfl
      exact ⟨_ :: rows', rfl, .start completed taken' each⟩
  | token _ ih | finish _ ih =>
    cases events with
    | nil => cases whole
    | cons event events =>
      cases whole
      obtain ⟨rows', rfl, each⟩ := ih linked.tail rfl
      first
        | exact ⟨_ :: rows', rfl, .token each⟩
        | exact ⟨_ :: rows', rfl, .finish each⟩

/-- To let the start of a completed node point to a new start makes no steps as yet. -/
theorem point (each : EmitsEach events rows) (threaded : Threaded events)
    (found : events[place]? = some (.start kind none)) (completed : kind ≠ .tombstone) :
    EmitsEach (redirect events place kind) (rows ++ [[]]) := by
  unfold redirect
  have last : EmitsEach [tombstone] [[]] := .given .nil
  induction each generalizing place with
  | nil => simp at found
  | given _ ih =>
    cases place with
    | zero =>
      cases found
      exact absurd rfl completed
    | succ place =>
      rw [List.length_cons, Nat.add_sub_add_right]
      exact .given (ih threaded.tail found)
  | @start first parent rest kinds after rows completed' taken later ih =>
    by_cases leads : Leads (.start first parent :: rest) 0 place
    · have extended := taken.extend .tombstone leads found []
      rw [show named .tombstone [] = [] from rfl, List.append_nil] at extended
      cases place with
      | zero =>
        cases found
        exact .start completed extended (later.append last)
      | succ place => exact .start completed' extended (later.append last)
    · obtain ⟨taken', same, -⟩ := taken.set_away threaded leads
        (.start kind (some ((Event.start first parent :: rest).length - place)))
      cases place with
      | zero => exact absurd .refl leads
      | succ place =>
        have length : after.length = rest.length := by simpa using taken.length_eq
        have pointed := ih (taken.threaded threaded).tail (same.trans found)
        rw [length] at pointed
        rw [List.length_cons, Nat.add_sub_add_right] at taken' ⊢
        exact .start completed' (taken'.append [tombstone]) pointed
  | token _ ih | finish _ ih =>
    cases place with
    | zero => cases found
    | succ place =>
      rw [List.length_cons, Nat.add_sub_add_right]
      first
        | exact .token (ih threaded.tail found)
        | exact .finish (ih threaded.tail found)

/-- Once a node is completed, its start is made before those that lead to it. -/
theorem name (each : EmitsEach events rows) (threaded : Threaded events) (found : events[place]? = some tombstone)
    (foremost : Foremost events head place) (completed : outer ≠ .tombstone) :
    EmitsEach (events.set place (.start outer none)) (rows.modify head (.start outer :: ·)) := by
  have one : named outer [] = [outer] := by simp [named, completed]
  induction each generalizing head place with
  | nil => simp at found
  | @given _ rest _ later ih =>
    cases place with
    | zero =>
      obtain rfl : head = 0 := Nat.le_zero.mp foremost.leads.le
      have taken : Takes (.start outer none :: rest) 0 (named outer []) (tombstone :: rest) := .last rfl
      rw [one] at taken
      exact .start completed taken later
    | succ place =>
      obtain ⟨next, rfl⟩ := foremost.later fun _ _ same => by cases same; rfl
      exact .given (ih threaded.tail found foremost.tail)
  | @start first parent rest kinds after rows completed' taken later ih =>
    cases place with
    | zero =>
      cases found
      exact absurd rfl completed'
    | succ place =>
      cases head with
      | zero =>
        have taken' : Takes _ 0 (kinds ++ named outer []) _ := taken.name foremost.leads found
        rw [one] at taken'
        have whole := EmitsEach.start completed' taken' later
        rwa [List.reverse_append] at whole
      | succ head =>
        have away : ¬ Leads (.start first parent :: rest) 0 (place + 1) := fun leads =>
          absurd (foremost.least 0 leads) (Nat.not_succ_le_zero _)
        obtain ⟨taken', same, kept⟩ := taken.set_away threaded away (.start outer none)
        have foremost' : Foremost (tombstone :: after) (head + 1) (place + 1) :=
          ⟨kept _ foremost.leads, fun index leads => foremost.least index (taken.of_leads leads)⟩
        exact .start completed' taken' (ih (taken.threaded threaded).tail (same.trans found) foremost'.tail)
  | token _ ih | finish _ ih =>
    cases place with
    | zero => cases found
    | succ place =>
      obtain ⟨next, rfl⟩ := foremost.later (by simp)
      first
        | exact .token (ih threaded.tail found foremost.tail)
        | exact .finish (ih threaded.tail found foremost.tail)

end EmitsEach

end LosslessJava.Event
