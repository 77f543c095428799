import LosslessJava.Proofs.Nesting

/-! The row of shapes that a stretch of events is built as. Nodes are gone through in the order in which they
were finished; one that another node is put around is kept back as the first child of that node. -/

namespace LosslessJava.Event

/-- A stretch of whole nodes is built as a row of shapes, the first of its nodes having further children in front. -/
inductive Nests : List Shape → List Event → List Shape → Prop where
  | nil : Nests [] [] []
  | given {parent rest row} (later : Nests [] rest row) : Nests [] (.start .tombstone parent :: rest) row
  | token {kind count rest row} (later : Nests [] rest row) :
      Nests [] (.token kind count :: rest) (.token kind count :: row)
  | node {front kind body children rest row} (completed : kind ≠ .tombstone) (within : Nests [] body children)
      (later : Nests [] rest row) :
      Nests front (.start kind none :: (body ++ .finish :: rest)) (.node kind (front ++ children) :: row)
  | first {front kind body children outer parent rest row} (completed : kind ≠ .tombstone) (around : outer ≠ .tombstone)
      (within : Nests [] body children)
      (later : Nests [.node kind (front ++ children)] (.start outer parent :: rest) row) :
      Nests front (.start kind (some (body.length + 2)) :: (body ++ .finish :: .start outer parent :: rest)) row

variable {events rest : List Event} {front row : List Shape} {kind : Kind} {parent : Option Nat}

namespace Nests

theorem balanced (nests : Nests front events row) : climbAll 0 events = some 0 := by
  induction nests with
  | nil => rfl
  | given _ ih | token _ ih => simpa [climb] using ih
  | node completed _ _ inner ih | first completed _ _ _ inner ih =>
    rw [climbAll_cons, climb, if_neg completed, Option.bind_some, climbAll_append, climbAll_of_balanced inner,
      Option.bind_some, climbAll_cons]
    exact ih

structure Opens (front : List Shape) (kind : Kind) (events : List Event) (row : List Shape) (kinds : List Kind)
    (after : List Event) (steps : List BuildStep) : Prop where
  taken : Takes events 0 (kind :: kinds) (tombstone :: after)
  emits : Emits after steps
  split : Shape.stepsAll row = (kind :: kinds).reverse.map .start ++ (Shape.stepsAll front ++ steps)

private theorem emits_or_opens (nests : Nests front events row) :
    (front = [] → Emits events (Shape.stepsAll row)) ∧
      ∀ kind parent rest, kind ≠ .tombstone → events = .start kind parent :: rest →
        ∃ kinds after steps, Opens front kind events row kinds after steps := by
  have whole {front events row} {kind : Kind} {parent : Option Nat} {rest : List Event} (completed : kind ≠ .tombstone)
      (starts : ∃ kinds after steps, Opens front kind (.start kind parent :: rest) row kinds after steps)
      (same : events = .start kind parent :: rest) (none : front = []) : Emits events (Shape.stepsAll row) := by
    obtain ⟨kinds, after, steps, opens⟩ := starts
    subst same none
    rw [opens.split]
    exact .start completed opens.taken opens.emits
  induction nests with
  | nil => exact ⟨fun _ => .nil, fun _ _ _ _ same => by cases same⟩
  | given _ ih =>
    refine ⟨fun none => .given (ih.1 none), fun _ _ _ completed same => ?_⟩
    cases same
    exact absurd rfl completed
  | token _ ih => exact ⟨fun none => .token (ih.1 none), fun _ _ _ _ same => by cases same⟩
  | @node front kind body children rest row completed _ _ inner ih =>
    have opens : ∃ kinds after steps, Opens front kind (.start kind none :: (body ++ .finish :: rest))
        (.node kind (front ++ children) :: row) kinds after steps := by
      have taken : Takes (.start kind none :: (body ++ .finish :: rest)) 0 (named kind [])
          (tombstone :: (body ++ .finish :: rest)) := .last rfl
      rw [named, if_neg completed] at taken
      exact ⟨[], _, _, taken, (inner.1 rfl).append (.finish (ih.1 rfl)), by simp [Shape.stepsAll, Shape.steps]⟩
    refine ⟨whole completed opens rfl, fun _ _ _ _ same => ?_⟩
    cases same
    exact opens
  | @first front kind body children outer parent rest row completed around _ _ inner ih =>
    have opens : ∃ kinds after steps, Opens front kind
        (.start kind (some (body.length + 2)) :: (body ++ .finish :: .start outer parent :: rest)) row kinds after steps := by
      obtain ⟨kinds, after, steps, opens⟩ := ih.2 outer parent rest around rfl
      have taken := opens.taken.prepend (tombstone :: (body ++ [.finish]))
      have next : Takes (.start kind (some (body.length + 2)) :: (body ++ .finish :: .start outer parent :: rest)) 0
          (named kind (outer :: kinds)) (tombstone :: (body ++ .finish :: tombstone :: after)) :=
        .next rfl (by omega) (by simpa using taken)
      rw [named, if_neg completed] at next
      refine ⟨outer :: kinds, _, _, next, (inner.1 rfl).append (.finish (.given opens.emits)), ?_⟩
      rw [opens.split]
      simp [Shape.stepsAll, Shape.steps]
    refine ⟨whole completed opens rfl, fun _ _ _ _ same => ?_⟩
    cases same
    exact opens

theorem emits (nests : Nests [] events row) : Emits events (Shape.stepsAll row) := nests.emits_or_opens.1 rfl

end Nests

/-- Every stretch of whole nodes is built as a row. -/
theorem Woven.nests (woven : Woven events) :
    (∃ row, Nests [] events row) ∧
      ∀ kind parent rest, kind ≠ .tombstone → events = .start kind parent :: rest → ∀ front, ∃ row, Nests front events row := by
  induction size : events.length using Nat.strongRecOn generalizing events with
  | ind _ ih =>
    have starts (kind : Kind) (parent : Option Nat) (rest : List Event) (completed : kind ≠ .tombstone)
        (same : events = .start kind parent :: rest) (front : List Shape) : ∃ row, Nests front events row := by
      subst same
      obtain ⟨body, back, rfl, closed, -⟩ : ∃ body back, rest = body ++ .finish :: back ∧
          climbAll 0 body = some 0 ∧ climbAll 0 back = some 0 := by
        have climbs := woven.balanced
        simp only [climbAll_cons, climb, if_neg completed, Option.bind_some] at climbs
        exact split_finish 0 0 climbs
      have whole : climbAll 0 (.start kind parent :: (body ++ [.finish])) = some 0 := by
        simp [climb, completed, climbAll_append, climbAll_of_balanced closed]
      have behind : Woven back := by
        refine Woven.behind (?_ : Woven ((.start kind parent :: (body ++ [.finish])) ++ back)) whole
        simpa using woven
      obtain ⟨children, within⟩ := (ih _ (by simp at size; omega) (woven.inside closed) rfl).1
      have later := ih _ (by simp at size; omega) behind rfl
      cases parent with
      | none =>
        obtain ⟨row, nests⟩ := later.1
        exact ⟨_, .node completed within nests⟩
      | some distance =>
        obtain ⟨-, body', back', split, closed', rfl⟩ := woven.fitting 0 kind distance rfl
        obtain ⟨rfl, rfl⟩ := body_unique closed closed' (List.tail_eq_of_cons_eq split)
        obtain ⟨outer, parent, there, around, -⟩ := woven.aimed 0 kind _ rfl
        obtain ⟨rest, rfl⟩ : ∃ rest, back = .start outer parent :: rest := by
          cases back with
          | nil => simp at there
          | cons event rest =>
            have first : (event :: rest)[0]? = some (.start outer parent) := by
              rw [← getElem?_behind (.start kind (some (body.length + 2)) :: (body ++ [.finish]))]
              simpa using there
            exact ⟨rest, by simpa using first⟩
        obtain ⟨row, nests⟩ := later.2 outer parent rest around rfl [.node kind (front ++ children)]
        exact ⟨row, .first completed around within nests⟩
    refine ⟨?_, starts⟩
    cases events with
    | nil => exact ⟨[], .nil⟩
    | cons event rest =>
      have later (same : climbAll 0 [event] = some 0) := (ih rest.length (by simp at size; omega) (woven.behind same) rfl).1
      cases event with
      | start kind parent =>
        by_cases tombstone : kind = .tombstone
        · subst tombstone
          obtain ⟨row, nests⟩ := later rfl
          exact ⟨row, .given nests⟩
        · exact starts kind parent rest tombstone rfl []
      | token kind count =>
        obtain ⟨row, nests⟩ := later rfl
        exact ⟨_, .token nests⟩
      | finish =>
        have climbs := woven.balanced
        simp [climb] at climbs

end LosslessJava.Event
