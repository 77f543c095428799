import LosslessJava.Proofs.Steps

/-! Nodes that are put around finished ones. The start of the outer node is recorded behind the inner
one and reached from it by a pointer; the tree is built with the outer node outside all the same. -/

namespace LosslessJava.Event

/-- The events record one tree. Its own start, at `head`, points to nothing yet, and the starts of
nodes that begin with the tree lead there. -/
structure Chain (events : List Event) (head : Nat) (kind : Kind) (children : List Shape) : Prop where
  found : events[head]? = some (.start kind none)
  completed : kind ≠ .tombstone
  leads : Leads events 0 head
  emits : Emits events (Shape.node kind children).steps

variable {events after body : List Event} {index head : Nat} {kind outer : Kind} {kinds : List Kind}
  {children row : List Shape}

theorem named_append (kind : Kind) (kinds : List Kind) : named kind kinds = named kind [] ++ kinds := by
  unfold named
  split <;> rfl

private theorem Leads.unstrike {first last : Nat} (leads : Leads (events.set index tombstone) first last)
    (before : index < first) : Leads events first last := by
  induction leads with
  | refl => exact .refl
  | step found named _ ih =>
    rw [List.getElem?_set_ne (by omega)] at found
    exact .step found named (ih (by omega))

namespace Takes

private theorem leads_set (taken : Takes events index kinds after) (leads : Leads events index head)
    (event : Event) : Leads (events.set head event) index head := by
  induction taken with
  | last found =>
    cases leads with
    | refl => exact .refl
    | step found' => simp [found] at found'
  | next found forward _ ih =>
    cases leads with
    | refl => exact .refl
    | step found' completed leads =>
      cases found.symm.trans found'
      have ahead := leads.le
      have later := ih (leads.strike (by omega))
      rw [List.set_comm _ _ (by omega)] at later
      exact .step (by rw [List.getElem?_set_ne (by omega), found]) completed (later.unstrike (by omega))

/-- One more node is taken where the last of the starts points to it. -/
theorem extend (outer : Kind) (taken : Takes events index kinds after) (leads : Leads events index head)
    (there : events[head]? = some (.start kind none)) (back : List Event) :
    Takes (events.set head (.start kind (some (events.length - head))) ++ .start outer none :: back)
      index (kinds ++ named outer []) (after ++ tombstone :: back) := by
  induction taken with
  | @last events index kind' found =>
    obtain rfl : index = head := by
      cases leads with
      | refl => rfl
      | step found' => simp [found] at found'
    obtain rfl : kind' = kind := by simpa [found] using there
    have bound := (List.getElem?_eq_some_iff.mp found).1
    have struck : (events.set index (.start kind' (some (events.length - index))) ++
        .start outer none :: back).set index tombstone =
          events.set index tombstone ++ .start outer none :: back := by
      rw [List.set_append_left _ _ (by simpa using bound), List.set_set]
    have behind : Takes (events.set index tombstone ++ .start outer none :: back)
        (index + (events.length - index)) (named outer []) (events.set index tombstone ++ tombstone :: back) := by
      have there : index + (events.length - index) = (events.set index tombstone).length := by simp; omega
      have last : Takes (events.set index tombstone ++ .start outer none :: back)
          (events.set index tombstone).length (named outer []) _ := .last (by simp)
      rw [there]
      simpa [List.set_append_right] using last
    have points : (events.set index (.start kind' (some (events.length - index))) ++
        .start outer none :: back)[index]? = some (.start kind' (some (events.length - index))) := by
      rw [List.getElem?_append_left (by simpa using bound), List.getElem?_set_self bound]
    rw [← named_append]
    exact .next points (by omega) (struck ▸ behind)
  | @next events index kind' distance kinds after found forward rest ih =>
    have bound := (List.getElem?_eq_some_iff.mp found).1
    have ahead : Leads events (index + distance) head := by
      cases leads with
      | refl => simp [found] at there
      | step found' _ leads =>
        cases found.symm.trans found'
        exact leads
    have beyond := ahead.le
    have later := ih (ahead.strike (by omega)) (by rw [List.getElem?_set_ne (by omega), there])
    rw [List.length_set, List.set_comm _ _ (by omega)] at later
    have points : (events.set head (.start kind (some (events.length - head))) ++
        .start outer none :: back)[index]? = some (.start kind' (some distance)) := by
      rw [List.getElem?_append_left (by simpa using bound), List.getElem?_set_ne (by omega), found]
    rw [named_append, List.append_assoc, ← named_append]
    exact .next points forward (by rwa [List.set_append_left _ _ (by simpa using bound)])

end Takes

namespace Chain

theorem single (completed : kind ≠ .tombstone) (emits : Emits body (Shape.stepsAll row)) :
    Chain (.start kind none :: (body ++ [.finish])) 0 kind row where
  found := rfl
  completed := completed
  leads := .refl
  emits := by
    have taken : Takes (.start kind none :: (body ++ [.finish])) 0 (named kind [])
        (tombstone :: (body ++ [.finish])) := .last rfl
    have whole := Emits.start completed taken (emits.append (.finish .nil))
    simpa [named, completed, Shape.steps] using whole

theorem around (chain : Chain events head kind children) (completed : outer ≠ .tombstone)
    (emits : Emits body (Shape.stepsAll row)) :
    Chain (events.set head (.start kind (some (events.length - head))) ++
      .start outer none :: (body ++ [.finish])) events.length outer (.node kind children :: row) := by
  have bound := (List.getElem?_eq_some_iff.mp chain.found).1
  obtain ⟨first, parent, rest, opens, whole⟩ := chain.leads.begins chain.found chain.completed
  obtain ⟨kinds, after, tail, taken, later, inner⟩ : ∃ kinds after tail,
      Takes events 0 kinds (tombstone :: after) ∧ Emits after tail ∧
        (Shape.node kind children).steps = kinds.reverse.map .start ++ tail := by
    have made := chain.emits
    rw [whole] at made
    generalize steps : (Shape.node kind children).steps = inner at made
    cases made with
    | given => exact absurd rfl opens
    | start _ taken later => exact ⟨_, _, _, whole ▸ taken, later, rfl⟩
  have points : (events.set head (.start kind (some (events.length - head))) ++
      .start outer none :: (body ++ [.finish]))[head]? =
        some (.start kind (some (events.length - head))) := by
    rw [List.getElem?_append_left (by simpa using bound), List.getElem?_set_self bound]
  have found : (events.set head (.start kind (some (events.length - head))) ++
      .start outer none :: (body ++ [.finish]))[events.length]? = some (.start outer none) := by
    rw [List.getElem?_append_right (by simp)]
    simp
  have leads : Leads (events.set head (.start kind (some (events.length - head))) ++
      .start outer none :: (body ++ [.finish])) 0 events.length :=
    ((taken.leads_set chain.leads _).append _).trans
      (.step points chain.completed (by rw [Nat.add_sub_cancel' (Nat.le_of_lt bound)]; exact .refl))
  have extended := taken.extend outer chain.leads chain.found (body ++ [.finish])
  refine ⟨found, completed, leads, ?_⟩
  obtain ⟨first', parent', rest', opens', same⟩ := leads.begins found completed
  rw [same] at extended ⊢
  have made := Emits.start opens' extended (later.append (.given (emits.append (.finish .nil))))
  have one : named outer [] = [outer] := by simp [named, completed]
  rw [one, List.reverse_append, List.map_append, List.append_assoc, ← List.append_assoc _ tail,
    ← inner] at made
  simpa [Shape.steps, Shape.stepsAll] using made

end Chain

end LosslessJava.Event
