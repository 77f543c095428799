import LosslessJava.Parser.Event

/-! Stretches of events. Starts that were completed and finishes are brackets, and a stretch is whole
if its brackets match and its starts point forward to starts of its own. -/

namespace LosslessJava.Event

def climb (depth : Nat) : Event → Option Nat
  | .start kind _ => some (if kind = .tombstone then depth else depth + 1)
  | .token _ _ => some depth
  | .finish => if depth = 0 then none else some (depth - 1)

/-- The number of open nodes after a stretch of events, unless one is finished that is not open. -/
def climbAll (depth : Nat) (events : List Event) : Option Nat := events.foldlM climb depth

/-- How many tokens of the stream a stretch of events takes up. -/
def rawCount : List Event → Nat
  | [] => 0
  | .token _ count :: rest => count + rawCount rest
  | _ :: rest => rawCount rest

/-- The kinds of a tree's tokens that are made of several tokens of the stream. -/
def joinedKinds : List Kind := [.gtEq, .shr, .ushr, .shrEq, .ushrEq, .nonSealedKw]

/-- What holds of every event by itself. -/
def Proper : Event → Prop
  | .start kind _ => kind = .tombstone ∨ kind.isNode
  | .token kind count => kind.isToken ∧ (count = 1 ∨ 1 < count ∧ kind ∈ joinedKinds)
  | .finish => True

def IsStart (event : Option Event) : Prop := ∃ kind parent, event = some (.start kind parent)

def Linked (events : List Event) : Prop :=
  ∀ index kind distance, events[index]? = some (.start kind (some distance)) →
    0 < distance ∧ IsStart events[index + distance]?

def Fitting (events : List Event) : Prop :=
  ∀ index kind distance, events[index]? = some (.start kind (some distance)) → kind ≠ .tombstone ∧
    ∃ body after, events.drop index = .start kind (some distance) :: (body ++ .finish :: after) ∧
      climbAll 0 body = some 0 ∧ distance = body.length + 2

structure Segment (events : List Event) : Prop where
  balanced : climbAll 0 events = some 0
  linked : Linked events
  fitting : Fitting events
  proper : ∀ event ∈ events, event.Proper

/-- One comes from a start to another by following the pointers of starts. -/
inductive Leads (events : List Event) : Nat → Nat → Prop where
  | refl {index} : Leads events index index
  | step {index last kind distance} (found : events[index]? = some (.start kind (some distance)))
      (named : kind ≠ .tombstone) (rest : Leads events (index + distance) last) :
      Leads events index last

/-- The events record one node, whose own start is at `head`: all of them lie within it, if its start
is taken to where the first of the nodes that begin with it was started. -/
def Headed (events : List Event) (head : Nat) : Prop :=
  ∃ front kind parent body, events = front ++ .start kind parent :: (body ++ [.finish]) ∧
    head = front.length ∧ kind ≠ .tombstone ∧ climbAll 0 front = some 0 ∧
    climbAll 0 body = some 0 ∧ Leads events 0 head

/-- The events record one tree made of so many tokens of the stream, behind starts that were given
up. -/
def OneTree (events : List Event) (count : Nat) : Prop :=
  ∃ given tree head, events = given ++ tree ∧ (∀ event ∈ given, event = .tombstone) ∧
    Segment tree ∧ Headed tree head ∧ rawCount tree = count

/-- The events record two trees, the first of them with tokens, behind starts that were given up. -/
def TwoTrees (events : List Event) : Prop :=
  ∃ given front back first second, events = given ++ (front ++ back) ∧
    (∀ event ∈ given, event = .tombstone) ∧ Segment front ∧ Headed front first ∧
    0 < rawCount front ∧ Segment back ∧ Headed back second

theorem climbAll_append (depth : Nat) (front back : List Event) :
    climbAll depth (front ++ back) = (climbAll depth front).bind fun inner => climbAll inner back :=
  List.foldlM_append ..

@[simp] theorem climbAll_nil (depth : Nat) : climbAll depth [] = some depth := rfl

@[simp] theorem climbAll_cons (depth : Nat) (event : Event) (rest : List Event) :
    climbAll depth (event :: rest) = (event.climb depth).bind fun inner => climbAll inner rest :=
  List.foldlM_cons ..

theorem climb_add {depth inner : Nat} {event : Event} (climbs : event.climb depth = some inner)
    (more : Nat) : event.climb (depth + more) = some (inner + more) := by
  cases event with
  | start kind parent =>
    simp only [climb, Option.some.injEq] at climbs ⊢
    split at climbs <;> simp_all
    omega
  | token kind count => simp_all [climb]
  | finish =>
    simp only [climb] at climbs ⊢
    split at climbs
    · cases climbs
    · cases climbs
      rw [if_neg (by omega)]
      congr 1
      omega

private theorem climbAll_add {depth inner : Nat} {events : List Event}
    (climbs : climbAll depth events = some inner) (more : Nat) :
    climbAll (depth + more) events = some (inner + more) := by
  induction events generalizing depth with
  | nil => simp_all
  | cons event rest ih =>
    rw [climbAll_cons, Option.bind_eq_some_iff] at climbs ⊢
    obtain ⟨middle, first, later⟩ := climbs
    exact ⟨middle + more, climb_add first more, ih later⟩

theorem climbAll_of_balanced {events : List Event} (balanced : climbAll 0 events = some 0)
    (depth : Nat) : climbAll depth events = some depth := by
  simpa using climbAll_add balanced depth

@[simp] theorem rawCount_append (front back : List Event) :
    rawCount (front ++ back) = rawCount front + rawCount back := by
  induction front with
  | nil => simp [rawCount]
  | cons event rest ih =>
    cases event <;> simp [rawCount, ih]
    omega

private theorem climbAll_set {events : List Event} {index : Nat} {kind : Kind} {old new : Option Nat}
    (found : events[index]? = some (.start kind old)) (depth : Nat) :
    climbAll depth (events.set index (.start kind new)) = climbAll depth events := by
  induction events generalizing index depth with
  | nil => simp at found
  | cons event rest ih =>
    cases index with
    | zero =>
      simp only [List.getElem?_cons_zero, Option.some.injEq] at found
      subst found
      simp [climb]
    | succ index =>
      simp only [List.getElem?_cons_succ] at found
      simp only [List.set_cons_succ, climbAll_cons, ih found]

theorem rawCount_set {events : List Event} {index : Nat} {kind other : Kind} {old new : Option Nat}
    (found : events[index]? = some (.start kind old)) :
    rawCount (events.set index (.start other new)) = rawCount events := by
  induction events generalizing index with
  | nil => simp at found
  | cons event rest ih =>
    cases index with
    | zero =>
      simp only [List.getElem?_cons_zero, Option.some.injEq] at found
      subst found
      simp [rawCount]
    | succ index =>
      simp only [List.getElem?_cons_succ] at found
      cases event <;> simp [rawCount, ih found]

theorem Linked.append {front back : List Event} (first : Linked front) (second : Linked back) :
    Linked (front ++ back) := by
  intro index kind distance found
  by_cases inside : index < front.length
  · rw [List.getElem?_append_left inside] at found
    obtain ⟨forward, last, parent, there⟩ := first index kind distance found
    have bound : index + distance < front.length := by
      have := List.getElem?_eq_some_iff.mp there
      exact this.1
    exact ⟨forward, last, parent, by rw [List.getElem?_append_left bound, there]⟩
  · rw [List.getElem?_append_right (by omega)] at found
    obtain ⟨forward, last, parent, there⟩ := second _ kind distance found
    refine ⟨forward, last, parent, ?_⟩
    rw [List.getElem?_append_right (by omega), ← there]
    congr 1
    omega

theorem linked_of_no_pointer {events : List Event}
    (none : ∀ event ∈ events, ∀ kind distance, event ≠ .start kind (some distance)) :
    Linked events := by
  intro index kind distance found
  exact absurd rfl (none _ (List.mem_of_getElem? found) kind distance)

private theorem fitting_of_no_pointer {events : List Event}
    (none : ∀ event ∈ events, ∀ kind distance, event ≠ .start kind (some distance)) :
    Fitting events := by
  intro index kind distance found
  exact absurd rfl (none _ (List.mem_of_getElem? found) kind distance)

theorem Fitting.append {front back : List Event} (first : Fitting front) (second : Fitting back) :
    Fitting (front ++ back) := by
  intro index kind distance found
  by_cases inside : index < front.length
  · rw [List.getElem?_append_left inside] at found
    obtain ⟨named, body, after, split, balanced, far⟩ := first index kind distance found
    refine ⟨named, body, after ++ back, ?_, balanced, far⟩
    simp [List.drop_append_of_le_length (Nat.le_of_lt inside), split]
  · rw [List.getElem?_append_right (by omega)] at found
    obtain ⟨named, body, after, split, balanced, far⟩ := second _ kind distance found
    refine ⟨named, body, after, ?_, balanced, far⟩
    rw [List.drop_append, List.drop_of_length_le (by omega), List.nil_append, split]

/-- A start at the end is in no node that another start points past, so anything may stand in its place. -/
theorem Fitting.of_append_start {front : List Event} {kind : Kind} {parent : Option Nat}
    (fitting : Fitting (front ++ [.start kind parent])) : Fitting front := by
  intro index kind' distance found
  have inside : index < front.length := (List.getElem?_eq_some_iff.mp found).1
  obtain ⟨named, body, after, split, balanced, far⟩ := fitting index kind' distance
    (by rw [List.getElem?_append_left inside, found])
  rw [List.drop_append_of_le_length (Nat.le_of_lt inside)] at split
  rcases List.eq_nil_or_concat after with rfl | ⟨after, last, rfl⟩
  · have same : front.drop index ++ [.start kind parent] = (.start kind' (some distance) :: body) ++ [.finish] := split
    have last := (List.append_inj' same rfl).2
    cases last
  · refine ⟨named, body, after, ?_, balanced, far⟩
    have same : front.drop index ++ [.start kind parent] =
        (.start kind' (some distance) :: (body ++ .finish :: after)) ++ [last] := by simpa using split
    exact (List.append_inj' same rfl).1

namespace Segment

theorem nil : Segment [] := ⟨rfl, linked_of_no_pointer (by simp), fitting_of_no_pointer (by simp), by simp⟩

theorem append {front back : List Event} (first : Segment front) (second : Segment back) :
    Segment (front ++ back) where
  balanced := by rw [climbAll_append, first.balanced, Option.bind_some, second.balanced]
  linked := first.linked.append second.linked
  fitting := first.fitting.append second.fitting
  proper event member := by
    rcases List.mem_append.mp member with early | late
    · exact first.proper event early
    · exact second.proper event late

theorem tombstone : Segment [.tombstone] :=
  ⟨rfl, linked_of_no_pointer (by simp [Event.tombstone]), fitting_of_no_pointer (by simp [Event.tombstone]),
    by simp [Event.tombstone, Proper]⟩

theorem token {kind : Kind} {count : Nat} (proper : (Event.token kind count).Proper) :
    Segment [.token kind count] :=
  ⟨rfl, linked_of_no_pointer (by simp), fitting_of_no_pointer (by simp), by simpa using proper⟩

/-- A start that nothing points away from may get a kind, with a finish behind what follows it. -/
theorem close {front body : List Event} {kind : Kind} (opened : Segment (front ++ [.tombstone]))
    (inner : Segment body) (node : kind.isNode) :
    Segment (front ++ .start kind none :: (body ++ [.finish])) where
  balanced := by
    have outer := opened.balanced
    rw [climbAll_append] at outer
    have before : climbAll 0 front = some 0 := by
      rcases found : climbAll 0 front with _ | depth
      · simp [found] at outer
      · simpa [found, climb, Event.tombstone] using outer
    have named : kind ≠ .tombstone := by
      rintro rfl
      simp [Kind.isNode] at node
    simp [climbAll_append, before, climb, named, climbAll_of_balanced inner.balanced]
  linked := by
    have tail : Linked (body ++ [Event.finish]) :=
      inner.linked.append (linked_of_no_pointer (by simp))
    intro index kind' distance found
    rcases Nat.lt_trichotomy index front.length with early | rfl | late
    · rw [List.getElem?_append_left early] at found
      obtain ⟨forward, last, parent, there⟩ := opened.linked index kind' distance
        (by rw [List.getElem?_append_left early, found])
      refine ⟨forward, ?_⟩
      rcases Nat.lt_trichotomy (index + distance) front.length with inside | at_end | beyond
      · rw [List.getElem?_append_left inside] at there
        exact ⟨last, parent, by rw [List.getElem?_append_left inside, there]⟩
      · exact ⟨kind, none, by simp [at_end]⟩
      · rw [List.getElem?_append_right (by omega), List.getElem?_singleton, if_neg (by omega)] at there
        cases there
    · simp at found
    · obtain ⟨offset, rfl⟩ : ∃ offset, index = front.length + (offset + 1) :=
        ⟨index - front.length - 1, by omega⟩
      rw [List.getElem?_append_right (by omega)] at found
      simp only [Nat.add_sub_cancel_left, List.getElem?_cons_succ] at found
      obtain ⟨forward, last, parent, there⟩ := tail offset kind' distance found
      refine ⟨forward, last, parent, ?_⟩
      rw [List.getElem?_append_right (by omega), ← there,
        show front.length + (offset + 1) + distance - front.length = (offset + distance) + 1 by omega,
        List.getElem?_cons_succ]
  fitting := by
    have named : Fitting [.start kind none] := fitting_of_no_pointer (by simp)
    have closed : Fitting [.finish] := fitting_of_no_pointer (by simp)
    exact opened.fitting.of_append_start.append (named.append (inner.fitting.append closed))
  proper event member := by
    simp only [List.mem_append, List.mem_cons, List.not_mem_nil, or_false] at member
    rcases member with early | rfl | inside | rfl
    · exact opened.proper event (by simp [early])
    · exact .inr node
    · exact inner.proper event inside
    · trivial

/-- The start of a node that ends a whole stretch may point to a start right behind the stretch. -/
theorem precede {events body : List Event} {index : Nat} {kind : Kind} {parent : Option Nat}
    (whole : Segment events) (found : events[index]? = some (.start kind parent)) (named : kind ≠ .tombstone)
    (last : events.drop index = .start kind parent :: (body ++ [.finish])) (closed : climbAll 0 body = some 0) :
    Segment (events.set index (.start kind (some (events.length - index))) ++ [.tombstone]) where
  balanced := by
    simp [climbAll_append, climbAll_set found, whole.balanced, climb, Event.tombstone]
  linked := by
    have bound : index < events.length := (List.getElem?_eq_some_iff.mp found).1
    intro other kind' distance there
    by_cases inside : other < events.length
    · rw [List.getElem?_append_left (by simpa using inside)] at there
      by_cases same : index = other
      · subst same
        rw [List.getElem?_set_self bound] at there
        cases there
        refine ⟨by omega, .tombstone, none, ?_⟩
        rw [List.getElem?_append_right (by simp; omega)]
        simp [Event.tombstone, show index + (events.length - index) - events.length = 0 by omega]
      · rw [List.getElem?_set_ne same] at there
        obtain ⟨forward, last, parent', target⟩ := whole.linked other kind' distance there
        have limit := (List.getElem?_eq_some_iff.mp target).1
        refine ⟨forward, ?_⟩
        rw [IsStart, List.getElem?_append_left (by simpa using limit)]
        by_cases hit : index = other + distance
        · rw [← hit, List.getElem?_set_self bound]
          exact ⟨_, _, rfl⟩
        · rw [List.getElem?_set_ne hit]
          exact ⟨last, parent', target⟩
    · rw [List.getElem?_append_right (by simpa using inside), List.getElem?_singleton] at there
      split at there <;> simp [Event.tombstone] at there
  fitting := by
    have bound : index < events.length := (List.getElem?_eq_some_iff.mp found).1
    have length : events.length - index = body.length + 2 := by simpa using congrArg List.length last
    refine Fitting.append ?_ (fitting_of_no_pointer (by simp [Event.tombstone]))
    intro other kind' distance there
    rcases Nat.lt_trichotomy other index with before | rfl | behind
    · rw [List.getElem?_set_ne (by omega)] at there
      obtain ⟨named', inner, after, split, balanced, far⟩ := whole.fitting other kind' distance there
      refine ⟨named', ?_⟩
      obtain ⟨place, rfl⟩ : ∃ place, index = other + (place + 1) := ⟨index - other - 1, by omega⟩
      have here : (inner ++ Event.finish :: after)[place]? = some (.start kind parent) := by
        have shifted := congrArg (·[place + 1]?) split
        simpa [List.getElem?_drop, found] using shifted.symm
      rw [List.drop_set, if_neg (by omega), Nat.add_sub_cancel_left, split, List.set_cons_succ]
      rcases Nat.lt_trichotomy place inner.length with inside | rfl | beyond
      · refine ⟨inner.set place (.start kind (some (events.length - (other + (place + 1))))), after, ?_, ?_, ?_⟩
        · rw [List.set_append_left _ _ inside]
        · rw [climbAll_set (by rwa [List.getElem?_append_left inside] at here), balanced]
        · rw [List.length_set, far]
      · simp at here
      · refine ⟨inner, after.set (place - inner.length - 1) (.start kind (some (events.length - (other + (place + 1))))),
          ?_, balanced, far⟩
        rw [List.set_append_right _ _ (by omega),
          show place - inner.length = (place - inner.length - 1) + 1 by omega, List.set_cons_succ]
        simp
    · rw [List.getElem?_set_self bound] at there
      cases there
      refine ⟨named, body, [], ?_, closed, length⟩
      rw [List.drop_set, if_neg (Nat.lt_irrefl _), Nat.sub_self, last]
      rfl
    · rw [List.getElem?_set_ne (by omega)] at there
      obtain ⟨named', inner, after, split, balanced, far⟩ := whole.fitting other kind' distance there
      refine ⟨named', inner, after, ?_, balanced, far⟩
      rw [List.drop_set_of_lt behind, split]
  proper event member := by
    rcases List.mem_append.mp member with early | late
    · rcases List.mem_or_eq_of_mem_set early with old | rfl
      · exact whole.proper event old
      · have proper := whole.proper _ (List.mem_of_getElem? found)
        exact proper
    · exact tombstone.proper event late

end Segment

namespace Leads

theorem append {front : List Event} {index last : Nat} (leads : Leads front index last)
    (back : List Event) : Leads (front ++ back) index last := by
  induction leads with
  | refl => exact .refl
  | step found named _ ih =>
    have bound := (List.getElem?_eq_some_iff.mp found).1
    exact .step (by rw [List.getElem?_append_left bound, found]) named ih

theorem trans {events : List Event} {first middle last : Nat} (one : Leads events first middle)
    (two : Leads events middle last) : Leads events first last := by
  induction one with
  | refl => exact two
  | step found named _ ih => exact .step found named (ih two)

theorem le {events : List Event} {first last : Nat} (leads : Leads events first last) :
    first ≤ last := by
  induction leads with
  | refl => exact Nat.le_refl _
  | step _ _ _ ih => omega

private theorem set {events : List Event} {first last : Nat} (leads : Leads events first last)
    (linked : Linked events) (event : Event) : Leads (events.set last event) first last := by
  induction leads with
  | refl => exact .refl
  | step found named rest ih =>
    have forward := (linked _ _ _ found).1
    have ahead := rest.le
    exact .step (by rw [List.getElem?_set_ne (by omega), found]) named ih

end Leads

namespace Headed

theorem single {kind : Kind} {body : List Event} (node : kind.isNode) (inner : Segment body) :
    Headed (.start kind none :: (body ++ [.finish])) 0 := by
  refine ⟨[], kind, none, body, rfl, rfl, ?_, rfl, inner.balanced, .refl⟩
  rintro rfl
  simp [Kind.isNode] at node

private theorem found {events : List Event} {head : Nat} (headed : Headed events head) :
    ∃ kind parent, events[head]? = some (.start kind parent) ∧ kind ≠ .tombstone := by
  obtain ⟨front, kind, parent, body, rfl, rfl, named, -⟩ := headed
  exact ⟨kind, parent, by simp, named⟩

/-- The node whose own start is at `head` ends the stretch. -/
theorem last {events : List Event} {head : Nat} (headed : Headed events head) :
    ∃ kind parent body, events[head]? = some (.start kind parent) ∧ kind ≠ .tombstone ∧
      events.drop head = .start kind parent :: (body ++ [.finish]) ∧ climbAll 0 body = some 0 := by
  obtain ⟨front, kind, parent, body, rfl, rfl, named, -, closed, -⟩ := headed
  exact ⟨kind, parent, body, by simp, named, by simp, closed⟩

theorem around {events body : List Event} {head : Nat} {kind outer : Kind} {parent : Option Nat}
    (headed : Headed events head) (whole : Segment events) (node : outer.isNode)
    (found : events[head]? = some (.start kind parent)) (inner : Segment body) :
    Headed (events.set head (.start kind (some (events.length - head))) ++
      .start outer none :: (body ++ [.finish])) events.length := by
  have bound : head < events.length := (List.getElem?_eq_some_iff.mp found).1
  obtain ⟨kind', parent', found', named⟩ := headed.found
  obtain rfl : kind = kind' := by
    rw [found] at found'
    cases found'
    rfl
  obtain ⟨-, -, -, -, -, -, -, -, -, leads⟩ := headed
  refine ⟨events.set head (.start kind (some (events.length - head))), outer, none, body, rfl,
    by simp, ?_, ?_, inner.balanced, ?_⟩
  · rintro rfl
    simp [Kind.isNode] at node
  · rw [climbAll_set found, whole.balanced]
  · have first := (leads.set whole.linked (.start kind (some (events.length - head)))).append
      (.start outer none :: (body ++ [.finish]))
    have there : (events.set head (.start kind (some (events.length - head))) ++
        Event.start outer none :: (body ++ [.finish]))[head]? =
          some (.start kind (some (events.length - head))) := by
      rw [List.getElem?_append_left (by simpa using bound), List.getElem?_set_self bound]
    refine first.trans (.step there named ?_)
    rw [Nat.add_sub_cancel' (by omega)]
    exact .refl

end Headed

end LosslessJava.Event
