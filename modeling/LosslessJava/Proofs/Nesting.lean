import LosslessJava.Proofs.Elements

/-! How deep nodes that stand for brackets nest. It is limited along a record of events, where a node that
is put around a finished one starts too late; no such node stands for brackets, so the same limit holds in
the tree. -/

namespace LosslessJava

/-- The kinds of nodes that stand for a pair of brackets. -/
@[reducible] def Kind.isEnclosing : Kind → Bool
  | .parenExpr | .argList | .typeArgList | .annotationArgList => true
  | .elementValueArray | .arrayInitializer | .block | .classBody => true
  | _ => false

/-- How many nodes of a way down a tree stand for brackets. Of arguments of annotations with no other
brackets between them only the outermost count, `within` being whether the way begins in such arguments. -/
def enclosures (within : Bool) : List Kind → Nat
  | [] => 0
  | kind :: rest =>
    if kind = .annotationArgList then
      enclosures true rest + if within then 0 else 1
    else if kind.isEnclosing then
      enclosures false rest + 1
    else
      enclosures within rest

/-- What is left below a node: how many more brackets may nest, the arguments of an annotation counting
only if they are not directly within those of another one. -/
structure Allowance where
  within : Bool
  left : Nat

def Allowance.enter (given : Allowance) (kind : Kind) : Option Allowance :=
  if kind = .annotationArgList then
    if given.within then some given else if given.left = 0 then none else some ⟨true, given.left - 1⟩
  else if kind.isEnclosing then
    if given.left = 0 then none else some ⟨false, given.left - 1⟩
  else
    some given

theorem Allowance.enter_plain {kind : Kind} (plain : kind.isEnclosing = false) (given : Allowance) :
    given.enter kind = some given := by
  have other : kind ≠ .annotationArgList := by
    rintro rfl
    cases plain
  simp [enter, other, plain]

private theorem enclosures_enter {given inner : Allowance} {kind : Kind} {kinds : List Kind} (entered : given.enter kind = some inner)
    (fits : enclosures inner.within kinds ≤ inner.left) : enclosures given.within (kind :: kinds) ≤ given.left := by
  simp only [Allowance.enter] at entered
  simp only [enclosures]
  split at entered
  · split at entered
    · cases entered
      simp_all
    · split at entered
      · cases entered
      · cases entered
        dsimp only at fits
        simp_all
        omega
  · split at entered
    · split at entered
      · cases entered
      · cases entered
        dsimp only at fits
        simp_all
        omega
    · cases entered
      simp_all

namespace Event

def spend (given : List Allowance) : Event → Option (List Allowance)
  | .start kind _ =>
    match given with
    | [] => none
    | top :: _ => if kind = .tombstone then some given else (top.enter kind).map (· :: given)
  | .token _ _ => some given
  | .finish => given.tail?

def spendAll (given : List Allowance) (events : List Event) : Option (List Allowance) := events.foldlM spend given

variable {given outer after : List Allowance} {top inner : Allowance} {events front back body : List Event} {kind : Kind}
  {parent : Option Nat}

@[simp] theorem spendAll_nil : spendAll given [] = some given := rfl

@[simp] theorem spendAll_cons {event : Event} :
    spendAll given (event :: events) = (event.spend given).bind fun left => spendAll left events :=
  List.foldlM_cons ..

private theorem spendAll_append :
    spendAll given (front ++ back) = (spendAll given front).bind fun left => spendAll left back :=
  List.foldlM_append ..

private theorem spend_start (completed : kind ≠ .tombstone) :
    spend (top :: outer) (.start kind parent) = (top.enter kind).map (· :: top :: outer) := by
  simp [spend, completed]

def Fits (given : Allowance) (events : List Event) : Prop :=
  ∀ outer, spendAll (given :: outer) events = some (given :: outer)

/-- A stretch leaves alone what is left in the nodes that it does not finish, and does not depend on what is
left farther out. -/
theorem spendAll_below {depth depth' : Nat} (opened : List Allowance) (climbs : climbAll depth events = some depth')
    (spent : spendAll (opened ++ top :: outer) events = some after) (length : opened.length = depth) :
    ∃ opened', opened'.length = depth' ∧
      ∀ outer, spendAll (opened ++ top :: outer) events = some (opened' ++ top :: outer) := by
  induction events generalizing depth opened with
  | nil =>
    cases climbs
    exact ⟨opened, length, fun _ => rfl⟩
  | cons event rest ih =>
    rw [climbAll_cons, Option.bind_eq_some_iff] at climbs
    rw [spendAll_cons, Option.bind_eq_some_iff] at spent
    obtain ⟨middle, climbed, climbs⟩ := climbs
    obtain ⟨left, once, spent⟩ := spent
    have go (next : List Allowance) (length : next.length = middle)
        (same : ∀ outer, spend (opened ++ top :: outer) event = some (next ++ top :: outer)) :
        ∃ opened', opened'.length = depth' ∧
          ∀ outer, spendAll (opened ++ top :: outer) (event :: rest) = some (opened' ++ top :: outer) := by
      rw [same] at once
      cases once
      obtain ⟨opened', length', spends⟩ := ih next climbs spent length
      exact ⟨opened', length', fun outer => by rw [spendAll_cons, same, Option.bind_some, spends]⟩
    cases event with
    | start kind parent =>
      by_cases tombstone : kind = .tombstone
      · refine go opened (by simp_all [climb]) fun outer => ?_
        cases opened <;> simp [spend, tombstone]
      · have more : depth + 1 = middle := by simpa [climb, tombstone] using climbed
        cases opened with
        | nil =>
          rw [List.nil_append, spend_start tombstone] at once
          obtain ⟨inner, entered, -⟩ := Option.map_eq_some_iff.mp once
          exact go [inner] (by simp_all) fun outer => by simp [spend_start tombstone, entered]
        | cons open_ opened =>
          rw [List.cons_append, spend_start tombstone] at once
          obtain ⟨inner, entered, -⟩ := Option.map_eq_some_iff.mp once
          exact go (inner :: open_ :: opened) (by simp_all) fun outer => by simp [spend_start tombstone, entered]
    | token => exact go opened (by simp_all [climb]) fun _ => rfl
    | finish =>
      simp only [climb] at climbed
      split at climbed
      · cases climbed
      · cases opened with
        | nil => exact absurd length.symm ‹_›
        | cons open_ opened => exact go opened (by simp_all; omega) fun _ => rfl

private theorem spendAll_of_balanced (balanced : climbAll 0 front = some 0)
    (spent : spendAll (top :: outer) (front ++ back) = some after) :
    Fits top front ∧ spendAll (top :: outer) back = some after := by
  rw [spendAll_append, Option.bind_eq_some_iff] at spent
  obtain ⟨left, first, later⟩ := spent
  obtain ⟨none, length, fits⟩ := spendAll_below [] balanced first rfl
  obtain rfl := List.eq_nil_of_length_eq_zero length
  obtain rfl : top :: outer = left := Option.some.inj ((fits outer).symm.trans first)
  exact ⟨fits, later⟩

namespace Fits

theorem nil : Fits top [] := fun _ => rfl

theorem append (first : Fits top front) (second : Fits top back) : Fits top (front ++ back) := fun outer => by
  rw [spendAll_append, first, Option.bind_some, second]

theorem tombstone : Fits top [.tombstone] := fun _ => rfl

theorem token {count : Nat} : Fits top [.token kind count] := fun _ => rfl

theorem node (completed : kind ≠ .tombstone) (entered : top.enter kind = some inner) (fits : Fits inner body) :
    Fits top (.start kind parent :: (body ++ [.finish])) := fun outer => by
  rw [spendAll_cons, spend_start completed, entered, Option.map_some, Option.bind_some, spendAll_append, fits]
  rfl

end Fits

def Aimed (events : List Event) : Prop :=
  ∀ (index : Nat) (kind : Kind) (distance : Nat), events[index]? = some (.start kind (some distance)) →
    ∃ kind' parent, events[index + distance]? = some (.start kind' parent) ∧ kind' ≠ .tombstone ∧ kind'.isEnclosing = false

structure Woven (events : List Event) : Prop where
  balanced : climbAll 0 events = some 0
  fitting : Fitting events
  aimed : Aimed events

theorem split_finish (outer depth : Nat) (climbs : climbAll (outer + 1 + depth) events = some 0) :
    ∃ body back, events = body ++ .finish :: back ∧ climbAll depth body = some 0 ∧ climbAll outer back = some 0 := by
  induction events generalizing depth with
  | nil => simp at climbs
  | cons event rest ih =>
    rw [climbAll_cons, Option.bind_eq_some_iff] at climbs
    obtain ⟨middle, climbed, climbs⟩ := climbs
    have go (inner : Nat) (same : middle = outer + 1 + inner) (first : climb depth event = some inner) :
        ∃ body back, event :: rest = body ++ .finish :: back ∧ climbAll depth body = some 0 ∧
          climbAll outer back = some 0 := by
      subst same
      obtain ⟨body, back, rfl, inside, behind⟩ := ih inner climbs
      exact ⟨event :: body, back, rfl, by rw [climbAll_cons, first, Option.bind_some, inside], behind⟩
    cases event with
    | start kind parent =>
      by_cases tombstone : kind = .tombstone
      · exact go depth (by simp_all [climb]) (by simp [climb, tombstone])
      · exact go (depth + 1) (by simp_all [climb]; omega) (by simp [climb, tombstone])
    | token => exact go depth (by simp_all [climb]) (by simp [climb])
    | finish =>
      simp only [climb] at climbed
      split at climbed
      · cases climbed
      · cases climbed
        cases depth with
        | zero => exact ⟨[], rest, rfl, rfl, climbs⟩
        | succ depth => exact go depth (by omega) (by simp [climb])

/-- The body of a node ends at the first finish that matches none of its starts. -/
theorem body_unique {body' : List Event} (balanced : climbAll 0 body = some 0) (balanced' : climbAll 0 body' = some 0)
    (same : body ++ .finish :: front = body' ++ .finish :: back) : body = body' ∧ front = back := by
  have longer {one other more rest : List Event} (balanced : climbAll 0 one = some 0) (balanced' : climbAll 0 other = some 0)
      (split : other = one ++ more) (rests : .finish :: rest = more ++ .finish :: back ∨ .finish :: rest = more ++ .finish :: front) :
      more = [] := by
    cases more with
    | nil => rfl
    | cons event more =>
      obtain rfl : event = .finish := by rcases rests with same | same <;> (cases same; rfl)
      rw [split, climbAll_append, balanced] at balanced'
      simp [climb] at balanced'
  rcases List.append_eq_append_iff.mp same with ⟨more, split, rests⟩ | ⟨more, split, rests⟩
  · obtain rfl := longer balanced balanced' split (.inl rests)
    simp_all
  · obtain rfl := longer balanced' balanced split (.inr rests)
    simp_all

theorem getElem?_behind (front events : List Event) (index : Nat) :
    (front ++ events)[front.length + index]? = events[index]? := by
  rw [List.getElem?_append_right (by omega), Nat.add_sub_cancel_left]

namespace Woven

theorem behind (woven : Woven (front ++ events)) (balanced : climbAll 0 front = some 0) : Woven events where
  balanced := by simpa [climbAll_append, balanced] using woven.balanced
  fitting index kind distance found := by
    obtain ⟨named, body, after, split, rest⟩ :=
      woven.fitting (front.length + index) kind distance (by rw [getElem?_behind, found])
    refine ⟨named, body, after, ?_, rest⟩
    rw [← split, List.drop_append, Nat.add_sub_cancel_left, List.drop_of_length_le (Nat.le_add_right ..), List.nil_append]
  aimed index kind distance found := by
    obtain ⟨kind', parent, there, rest⟩ :=
      woven.aimed (front.length + index) kind distance (by rw [getElem?_behind, found])
    rw [Nat.add_assoc, getElem?_behind] at there
    exact ⟨kind', parent, there, rest⟩

theorem inside {back : List Event} (woven : Woven (.start kind parent :: (body ++ .finish :: back)))
    (balanced : climbAll 0 body = some 0) : Woven body := by
  have fits (index : Nat) (kind' : Kind) (distance : Nat) (found : body[index]? = some (.start kind' (some distance))) :
      kind' ≠ .tombstone ∧ ∃ inner after, body.drop index = .start kind' (some distance) :: (inner ++ .finish :: after) ∧
        climbAll 0 inner = some 0 ∧ distance = inner.length + 2 := by
    have inside := (List.getElem?_eq_some_iff.mp found).1
    obtain ⟨named, inner, after, split, closed, far⟩ := woven.fitting (index + 1) kind' distance
      (by simpa [List.getElem?_append_left inside] using found)
    refine ⟨named, inner, ?_⟩
    have same : body.drop index ++ .finish :: back =
        (.start kind' (some distance) :: inner) ++ .finish :: after := by
      simpa [List.drop_append_of_le_length (Nat.le_of_lt inside)] using split
    -- Where the node at `index` begins, so many nodes are open, all of which are finished within the body.
    obtain ⟨open_, before, ends⟩ : ∃ open_, climbAll 0 (body.take index) = some open_ ∧
        climbAll open_ (body.drop index) = some 0 := by
      have whole := balanced
      rw [← List.take_append_drop index body, climbAll_append, Option.bind_eq_some_iff] at whole
      exact whole
    have climbs : climbAll open_ (.start kind' (some distance) :: inner) = some (open_ + 1) := by
      simp [climb, named, climbAll_of_balanced closed]
    rcases List.append_eq_append_iff.mp same with ⟨more, split, rests⟩ | ⟨more, split, rests⟩
    · rw [split, climbAll_append, ends, Option.bind_some] at climbs
      cases more with
      | nil => simp at climbs
      | cons event more =>
        cases rests
        simp [climb] at climbs
    · cases more with
      | nil => simp [split, climbs] at ends
      | cons event more =>
        obtain rfl : event = .finish := by
          cases rests
          rfl
        exact ⟨more, by simpa using split, closed, far⟩
  refine ⟨balanced, fits, fun index kind' distance found => ?_⟩
  obtain ⟨-, inner, after, split, -, rfl⟩ := fits index kind' distance found
  obtain ⟨outer, parent', there, completed, plain⟩ := woven.aimed (index + 1) kind' _
    (by simpa [List.getElem?_append_left (List.getElem?_eq_some_iff.mp found).1] using found)
  refine ⟨outer, parent', ?_, completed, plain⟩
  have target : (body.drop index ++ .finish :: back)[inner.length + 2]? = some (.start outer parent') := by
    have inside := Nat.le_of_lt (List.getElem?_eq_some_iff.mp found).1
    rw [← List.drop_append_of_le_length inside, List.getElem?_drop]
    simpa [Nat.add_right_comm _ 1] using there
  rw [← List.getElem?_drop]
  cases after with
  | nil => simp [split] at target
  | cons event after => simpa [split] using target

end Woven

theorem Takes.prepend {index : Nat} {kinds : List Kind} (taken : Takes events index kinds back) (before : List Event) :
    Takes (before ++ events) (before.length + index) kinds (before ++ back) := by
  have set (events : List Event) (index : Nat) :
      (before ++ events).set (before.length + index) tombstone = before ++ events.set index tombstone := by
    rw [List.set_append_right _ _ (by omega), Nat.add_sub_cancel_left]
  induction taken with
  | last found =>
    rw [← set]
    exact .last (by rw [getElem?_behind, found])
  | next found forward _ ih =>
    refine .next (by rw [getElem?_behind, found]) forward ?_
    rwa [set, Nat.add_assoc]

/-- Nodes that do not enclose may be started without limit, and each of them has what was left. -/
theorem spendAll_around {kinds : List Kind} (plain : ∀ kind ∈ kinds, kind ≠ .tombstone ∧ kind.isEnclosing = false)
    (top : Allowance) (outer : List Allowance) :
    spendAll (top :: outer) ((kinds.map BuildStep.start).map BuildStep.event) =
      some (top :: (List.replicate kinds.length top ++ outer)) := by
  induction kinds generalizing outer with
  | nil => rfl
  | cons kind kinds ih =>
    obtain ⟨completed, plain'⟩ := plain kind (.head _)
    have once : spend (top :: outer) (BuildStep.start kind).event = some (top :: top :: outer) := by
      rw [BuildStep.event, spend_start completed, Allowance.enter_plain plain', Option.map_some]
    rw [List.map_cons, List.map_cons, spendAll_cons, once, Option.bind_some,
      ih (fun kind member => plain kind (.tail _ member)), List.length_cons, List.replicate_succ']
    simp

def Spends (events : List Event) (steps : List BuildStep) : Prop :=
  ∀ {top outer after}, spendAll (top :: outer) events = some after →
    spendAll (top :: outer) (steps.map BuildStep.event) = some after

/-- A completed start of a stretch is taken together with those of the nodes around its own. What is
left below them is what is left around them, as none of them stands for brackets. -/
structure Unfolds (kind : Kind) (events : List Event) (kinds : List Kind) (after : List Event) (steps : List BuildStep) : Prop where
  taken : Takes events 0 (kind :: kinds) (tombstone :: after)
  emits : Emits after steps
  plain : ∀ kind ∈ kinds, kind ≠ .tombstone ∧ kind.isEnclosing = false
  spends : ∀ {top inner outer left}, top.enter kind = some inner → spendAll (top :: outer) events = some left →
    spendAll (inner :: top :: (List.replicate kinds.length top ++ outer)) (steps.map BuildStep.event) = some left

private theorem Unfolds.emits_start {rest : List Event} {kinds : List Kind} {steps : List BuildStep} (completed : kind ≠ .tombstone)
    (unfolds : Unfolds kind (.start kind parent :: rest) kinds back steps) :
    Emits (.start kind parent :: rest) ((kind :: kinds).reverse.map .start ++ steps) ∧
      Spends (.start kind parent :: rest) ((kind :: kinds).reverse.map .start ++ steps) := by
  refine ⟨.start completed unfolds.taken unfolds.emits, fun {top outer after} spent => ?_⟩
  obtain ⟨inner, entered⟩ : ∃ inner, top.enter kind = some inner := by
    rw [spendAll_cons, spend_start completed, Option.bind_eq_some_iff] at spent
    obtain ⟨_, once, -⟩ := spent
    obtain ⟨inner, entered, -⟩ := Option.map_eq_some_iff.mp once
    exact ⟨inner, entered⟩
  have around := spendAll_around (fun kind member => unfolds.plain kind (List.mem_reverse.mp member)) top outer
  rw [List.length_reverse] at around
  have first : spend (top :: (List.replicate kinds.length top ++ outer)) (BuildStep.start kind).event =
      some (inner :: top :: (List.replicate kinds.length top ++ outer)) := by
    rw [BuildStep.event, spend_start completed, entered, Option.map_some]
  simp only [List.reverse_cons, List.map_append, List.map_cons, List.map_nil, List.append_assoc, spendAll_append, around,
    Option.bind_some, List.singleton_append, spendAll_cons, first]
  exact unfolds.spends entered spent

/-- Whole nodes are built by steps that spend no more than the events did. -/
theorem Woven.emits (woven : Woven events) :
    (∃ steps, Emits events steps ∧ Spends events steps) ∧
      ∀ kind parent rest, kind ≠ .tombstone → events = .start kind parent :: rest →
        ∃ kinds after steps, Unfolds kind events kinds after steps := by
  induction size : events.length using Nat.strongRecOn generalizing events with
  | ind _ ih =>
    -- A start of the stretch, with what it holds and what is behind it.
    have starts (kind : Kind) (parent : Option Nat) (rest : List Event) (completed : kind ≠ .tombstone)
        (same : events = .start kind parent :: rest) : ∃ kinds after steps, Unfolds kind events kinds after steps := by
      subst same
      obtain ⟨body, back, rfl, closed, closed'⟩ : ∃ body back, rest = body ++ .finish :: back ∧
          climbAll 0 body = some 0 ∧ climbAll 0 back = some 0 := by
        have climbs := woven.balanced
        simp only [climbAll_cons, climb, if_neg completed, Option.bind_some] at climbs
        exact split_finish 0 0 climbs
      have whole : climbAll 0 (.start kind parent :: (body ++ [.finish])) = some 0 := by
        simp [climb, completed, climbAll_append, climbAll_of_balanced closed]
      have behind : Woven back := by
        refine Woven.behind (?_ : Woven ((.start kind parent :: (body ++ [.finish])) ++ back)) whole
        simpa using woven
      obtain ⟨steps, emits, spends⟩ := (ih _ (by simp at size; omega) (woven.inside closed) rfl).1
      have later := ih _ (by simp at size; omega) behind rfl
      have within {top inner : Allowance} {outer left : List Allowance} (entered : top.enter kind = some inner)
          (spent : spendAll (top :: outer) (.start kind parent :: (body ++ .finish :: back)) = some left) :
          Fits inner body ∧ spendAll (top :: outer) back = some left := by
        simp only [spendAll_cons, spend_start completed, entered, Option.map_some, Option.bind_some] at spent
        obtain ⟨first, second⟩ := spendAll_of_balanced closed spent
        exact ⟨first, by simpa [spend] using second⟩
      cases parent with
      | none =>
        obtain ⟨steps', emits', spends'⟩ := later.1
        have taken : Takes (.start kind none :: (body ++ .finish :: back)) 0 (named kind [])
            (tombstone :: (body ++ .finish :: back)) := .last rfl
        rw [named, if_neg completed] at taken
        refine ⟨[], _, _, taken, emits.append (.finish emits'), by simp, fun entered spent => ?_⟩
        obtain ⟨fits, spent⟩ := within entered spent
        simp only [List.length_nil, List.replicate_zero, List.nil_append, List.map_append, List.map_cons, spendAll_append,
          spends (fits _), Option.bind_some, BuildStep.event, spendAll_cons, spend, List.tail?_cons]
        exact spends' spent
      | some distance =>
        obtain ⟨-, body', back', split, closed'', rfl⟩ := woven.fitting 0 kind distance rfl
        obtain ⟨rfl, rfl⟩ := body_unique closed closed'' (List.tail_eq_of_cons_eq split)
        obtain ⟨outer, parent, there, completed', plain⟩ := woven.aimed 0 kind _ rfl
        obtain ⟨rest, rfl⟩ : ∃ rest, back = .start outer parent :: rest := by
          cases back with
          | nil => simp at there
          | cons event rest =>
            have first : (event :: rest)[0]? = some (.start outer parent) := by
              rw [← getElem?_behind (.start kind (some (body.length + 2)) :: (body ++ [.finish]))]
              simpa using there
            exact ⟨rest, by simpa using first⟩
        obtain ⟨kinds, after, steps', unfolds⟩ := later.2 outer parent rest completed' rfl
        have taken := unfolds.taken.prepend (tombstone :: (body ++ [.finish]))
        refine ⟨outer :: kinds, body ++ .finish :: tombstone :: after, steps ++ .finish :: steps', ?_,
          emits.append (.finish (.given unfolds.emits)), ?_, fun {top inner outer' left} entered spent => ?_⟩
        · have next : Takes (.start kind (some (body.length + 2)) :: (body ++ .finish :: .start outer parent :: rest)) 0
              (named kind (outer :: kinds)) (tombstone :: (body ++ .finish :: tombstone :: after)) :=
            .next rfl (by omega) (by simpa using taken)
          rwa [named, if_neg completed] at next
        · simpa using ⟨⟨completed', plain⟩, unfolds.plain⟩
        · obtain ⟨fits, spent⟩ := within entered spent
          simp only [List.map_append, List.map_cons, spendAll_append, spends (fits _), Option.bind_some, BuildStep.event,
            spendAll_cons, spend, List.tail?_cons]
          exact unfolds.spends (Allowance.enter_plain plain top) spent
    refine ⟨?_, starts⟩
    cases events with
    | nil => exact ⟨[], .nil, fun spent => spent⟩
    | cons event rest =>
      have later (same : climbAll 0 [event] = some 0) := (ih rest.length (by simp at size; omega) (woven.behind same) rfl).1
      cases event with
      | start kind parent =>
        by_cases tombstone : kind = .tombstone
        · subst tombstone
          obtain ⟨steps, emits, spends⟩ := later rfl
          exact ⟨steps, .given emits, fun spent => spends spent⟩
        · obtain ⟨kinds, after, steps, unfolds⟩ := starts kind parent rest tombstone rfl
          exact ⟨_, unfolds.emits_start tombstone⟩
      | token kind count =>
        obtain ⟨steps, emits, spends⟩ := later rfl
        exact ⟨_, .token emits, fun spent => spends spent⟩
      | finish =>
        have climbs := woven.balanced
        simp [climb] at climbs

private theorem Emits.unique {steps steps' : List BuildStep} (emits : Emits events steps) (emits' : Emits events steps') :
    steps = steps' := by
  have one : buildSteps events.toArray = some steps := buildSteps_of_emits emits
  have other : buildSteps events.toArray = some steps' := buildSteps_of_emits emits'
  exact Option.some.inj (one.symm.trans other)

private theorem segment_givens {given : List Event} (tombstones : ∀ event ∈ given, event = .tombstone) : Segment given := by
  induction given with
  | nil => exact .nil
  | cons event rest ih =>
    obtain rfl := tombstones event (.head _)
    exact Segment.tombstone.append (ih fun event member => tombstones event (.tail _ member))

end Event

namespace Shape

mutual

def Fits (given : Allowance) : Shape → Prop
  | .token _ _ => True
  | .node kind children => ∃ inner, given.enter kind = some inner ∧ FitsAll inner children

def FitsAll (given : Allowance) : List Shape → Prop
  | [] => True
  | shape :: rest => shape.Fits given ∧ FitsAll given rest

end

private theorem fitsAll_iff (given : Allowance) (row : List Shape) : FitsAll given row ↔ ∀ shape ∈ row, shape.Fits given := by
  induction row with
  | nil => simp [FitsAll]
  | cons shape rest ih => simp [FitsAll, ih]

private theorem fitsAll_of_spent {row : List Shape} (proper : ProperAll row) {top : Allowance} {outer after : List Allowance}
    {rest : List BuildStep}
    (spent : Event.spendAll (top :: outer) ((stepsAll row ++ rest).map BuildStep.event) = some after) :
    FitsAll top row ∧ Event.spendAll (top :: outer) (rest.map BuildStep.event) = some after := by
  induction row using row_induction generalizing top outer rest with
  | nil => exact ⟨trivial, spent⟩
  | token kind count row ih =>
    obtain ⟨fits, spent⟩ := ih proper.2 spent
    exact ⟨⟨trivial, fits⟩, spent⟩
  | node kind children row below ih =>
    have completed : kind ≠ .tombstone := by
      rintro rfl
      exact absurd proper.1.1 (by decide)
    have split : stepsAll (.node kind children :: row) ++ rest =
        .start kind :: (stepsAll children ++ .finish :: (stepsAll row ++ rest)) := by simp [stepsAll, steps]
    rw [split, List.map_cons, Event.spendAll_cons, BuildStep.event, Event.spend_start completed,
      Option.bind_eq_some_iff] at spent
    obtain ⟨left, once, spent⟩ := spent
    obtain ⟨inner, entered, rfl⟩ := Option.map_eq_some_iff.mp once
    obtain ⟨fits, spent⟩ := below proper.1.2 spent
    obtain ⟨fits', spent⟩ := ih proper.2 spent
    exact ⟨⟨⟨inner, entered, fits⟩, fits'⟩, spent⟩

end Shape

/-- Events that record one tree are whole nodes. -/
theorem Event.OneTree.woven {events : List Event} {count : Nat} (one : OneTree events count) (aimed : Aimed events) :
    Woven events := by
  obtain ⟨givens, tree, head, rfl, tombstones, whole, -⟩ := one
  have segment := (segment_givens tombstones).append whole
  exact ⟨segment.balanced, segment.fitting, aimed⟩

/-- Events that record one tree are built as one that is allowed as far as the events are. -/
theorem Event.OneTree.emits_fitting {events : List Event} {count : Nat} {given : Allowance} (one : OneTree events count)
    (aimed : Aimed events) (fits : Fits given events) {kind : Kind} {children : List Shape}
    (emits : Emits events (Shape.node kind children).steps) (proper : (Shape.node kind children).Proper) :
    (Shape.node kind children).Fits given := by
  obtain ⟨steps, emits', spends⟩ := (one.woven aimed).emits.1
  obtain rfl := emits.unique emits'
  have spent := spends (fits [])
  have row : (Shape.node kind children).steps = Shape.stepsAll [.node kind children] ++ [] := by simp [Shape.stepsAll]
  have properAll : Shape.ProperAll [.node kind children] := ⟨proper, trivial⟩
  rw [row] at spent
  exact (Shape.fitsAll_of_spent properAll spent).1.1

namespace Tree

/-- A way down a tree, from each node to one directly below it. -/
inductive Node.Path : Node → List Node → Prop where
  | here {node} : Path node [node]
  | down {node child path} (below : child ∈ node.children) (rest : Path child path) : Path node (node :: path)

def Node.follow (node : Node) : List Nat → List Node
  | [] => [node]
  | number :: rest =>
    match node.children[number]? with
    | some child => node :: child.follow rest
    | none => [node]

theorem Node.path_follow (node : Node) (numbers : List Nat) : node.Path (node.follow numbers) := by
  induction numbers generalizing node with
  | nil => exact .here
  | cons number rest ih =>
    unfold follow
    split
    · next child found => exact .down (List.mem_of_getElem? found) (ih child)
    · exact .here

private theorem exists_shown {elements : List Element} {row : List Shape} (shows : List.Forall₂ Element.Shows elements row)
    {element : Element} (member : element ∈ elements) : ∃ shape ∈ row, element.Shows shape := by
  induction shows with
  | nil => cases member
  | cons here _ ih =>
    rcases List.mem_cons.mp member with rfl | later
    · exact ⟨_, .head _, here⟩
    · obtain ⟨shape, among, shows⟩ := ih later
      exact ⟨shape, .tail _ among, shows⟩

/-- No way down a tree comes through more brackets than are allowed. -/
theorem Node.Path.enclosures_le {node : Node} {path : List Node} (way : node.Path path) {shape : Shape} {given : Allowance}
    (shows : (Element.node node).Shows shape) (fits : shape.Fits given) :
    enclosures given.within (path.map Node.kind) ≤ given.left := by
  induction way generalizing shape given with
  | @here node =>
    cases shape with
    | token => exact shows.elim
    | node kind children =>
      obtain ⟨inner, entered, -⟩ := fits
      rw [List.map_cons, shows.kind_eq]
      exact enclosures_enter entered (Nat.zero_le _)
  | @down node child path below _ ih =>
    cases shape with
    | token => exact shows.elim
    | node kind children =>
      obtain ⟨inner, entered, fits⟩ := fits
      obtain ⟨shape, member, shows'⟩ := exists_shown shows.elements (Node.mem_children.mp below)
      rw [List.map_cons, shows.kind_eq]
      exact enclosures_enter entered (ih shows' ((Shape.fitsAll_iff _ _).mp fits shape member))

end Tree

end LosslessJava
