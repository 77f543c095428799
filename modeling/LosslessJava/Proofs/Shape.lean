import LosslessJava.Proofs.Events

/-! What a tree looks like, without the tables it is kept in: kinds of nodes and tokens, and for each
token how many tokens of the stream it is made of. Building steps whose starts and finishes match
are the steps of a row of such shapes, and of no other. -/

namespace LosslessJava

inductive Shape where
  | token (kind : Kind) (rawCount : Nat)
  | node (kind : Kind) (children : List Shape)

namespace Shape

mutual

/-- The steps that build a shape. -/
def steps : Shape → List BuildStep
  | .token kind rawCount => [.token kind rawCount]
  | .node kind children => .start kind :: (stepsAll children ++ [.finish])

def stepsAll : List Shape → List BuildStep
  | [] => []
  | shape :: rest => shape.steps ++ stepsAll rest

end

mutual

def nodeCount : Shape → Nat
  | .token _ _ => 0
  | .node _ children => nodeCounts children + 1

def nodeCounts : List Shape → Nat
  | [] => 0
  | shape :: rest => shape.nodeCount + nodeCounts rest

end

mutual

/-- The tokens, each with the number of tokens of the stream it is made of. -/
def tokens : Shape → List (Kind × Nat)
  | .token kind rawCount => [(kind, rawCount)]
  | .node _ children => tokensAll children

def tokensAll : List Shape → List (Kind × Nat)
  | [] => []
  | shape :: rest => shape.tokens ++ tokensAll rest

end

mutual

/-- Nodes are of kinds of nodes, tokens of kinds of tokens. -/
def Proper : Shape → Prop
  | .token kind _ => kind.isToken
  | .node kind children => kind.isNode ∧ ProperAll children

def ProperAll : List Shape → Prop
  | [] => True
  | shape :: rest => shape.Proper ∧ ProperAll rest

end

/-- Induction over rows of shapes, from the last to the first and from the bottom up. -/
@[elab_as_elim]
theorem row_induction {motive : List Shape → Prop} (nil : motive [])
    (token : ∀ kind rawCount rest, motive rest → motive (.token kind rawCount :: rest))
    (node : ∀ kind children rest, motive children → motive rest → motive (.node kind children :: rest)) :
    ∀ row, motive row
  | [] => nil
  | .token kind rawCount :: rest => token kind rawCount rest (row_induction nil token node rest)
  | .node kind children :: rest =>
    node kind children rest (row_induction nil token node children) (row_induction nil token node rest)

@[simp] theorem stepsAll_append (front back : List Shape) :
    stepsAll (front ++ back) = stepsAll front ++ stepsAll back := by
  induction front with
  | nil => rfl
  | cons shape rest ih => simp [stepsAll, ih]

@[simp] theorem tokensAll_append (front back : List Shape) :
    tokensAll (front ++ back) = tokensAll front ++ tokensAll back := by
  induction front with
  | nil => rfl
  | cons shape rest ih => simp [tokensAll, ih]

end Shape

namespace BuildStep

def event : BuildStep → Event
  | .start kind => .start kind none
  | .token kind rawCount => .token kind rawCount
  | .finish => .finish

def Proper : BuildStep → Prop
  | .start kind => kind.isNode
  | .token kind _ => kind.isToken
  | .finish => True

def token? : BuildStep → Option (Kind × Nat)
  | .token kind rawCount => some (kind, rawCount)
  | _ => none

end BuildStep

namespace Shape

private def stepsOfRows (first : List Shape) (others : List (List Shape)) : List BuildStep :=
  stepsAll first ++ others.flatMap fun row => .finish :: stepsAll row

private theorem rows_of_climb {depth : Nat} {steps : List BuildStep}
    (proper : ∀ step ∈ steps, step.Proper)
    (climbs : Event.climbAll depth (steps.map BuildStep.event) = some 0) :
    ∃ first others, others.length = depth ∧ steps = stepsOfRows first others := by
  induction steps generalizing depth with
  | nil =>
    obtain rfl : depth = 0 := by simpa using climbs
    exact ⟨[], [], rfl, rfl⟩
  | cons step rest ih =>
    simp only [List.map_cons, Event.climbAll_cons, Option.bind_eq_some_iff] at climbs
    obtain ⟨inner, climbed, later⟩ := climbs
    obtain ⟨first, others, length, rfl⟩ := ih (fun step member => proper step (.tail _ member)) later
    cases step with
    | start kind =>
      have node : kind.isNode := proper _ (.head _)
      have named : kind ≠ .tombstone := by
        rintro rfl
        simp [Kind.isNode] at node
      obtain rfl : depth + 1 = inner := by simpa [BuildStep.event, Event.climb, named] using climbed
      cases others with
      | nil => simp at length
      | cons second others =>
        refine ⟨.node kind first :: second, others, by simpa using length, ?_⟩
        simp [stepsOfRows, stepsAll, Shape.steps]
    | token kind rawCount =>
      obtain rfl : depth = inner := by simpa [BuildStep.event, Event.climb] using climbed
      exact ⟨.token kind rawCount :: first, others, length, by simp [stepsOfRows, stepsAll, Shape.steps]⟩
    | finish =>
      have opened : depth ≠ 0 ∧ depth - 1 = inner := by simpa [BuildStep.event, Event.climb] using climbed
      exact ⟨[], first :: others, by simp only [List.length_cons]; omega, by simp [stepsOfRows, stepsAll]⟩

/-- Steps whose starts and finishes match build a row of shapes. -/
theorem row_of_balanced {steps : List BuildStep} (proper : ∀ step ∈ steps, step.Proper)
    (balanced : Event.climbAll 0 (steps.map BuildStep.event) = some 0) :
    ∃ row, steps = stepsAll row := by
  obtain ⟨row, others, none, rfl⟩ := rows_of_climb proper balanced
  obtain rfl := List.eq_nil_of_length_eq_zero none
  exact ⟨row, by simp [stepsOfRows]⟩

private theorem stepsAll_finish {row other : List Shape} {rest rest' : List BuildStep}
    (same : stepsAll row ++ .finish :: rest = stepsAll other ++ .finish :: rest') : row = other ∧ rest = rest' := by
  induction row using row_induction generalizing other rest rest' with
  | nil =>
    cases other with
    | nil => simpa [stepsAll] using same
    | cons shape other => cases shape <;> simp [stepsAll, steps] at same
  | token kind rawCount row ih =>
    cases other with
    | nil => simp [stepsAll, steps] at same
    | cons shape other =>
      cases shape with
      | token =>
        simp only [stepsAll, steps, List.cons_append, List.nil_append, List.cons.injEq, BuildStep.token.injEq] at same
        obtain ⟨⟨rfl, rfl⟩, later⟩ := same
        obtain ⟨rfl, rfl⟩ := ih later
        exact ⟨rfl, rfl⟩
      | node => simp [stepsAll, steps] at same
  | node kind children row below ih =>
    cases other with
    | nil => simp [stepsAll, steps] at same
    | cons shape other =>
      cases shape with
      | token => simp [stepsAll, steps] at same
      | node =>
        simp only [stepsAll, steps, List.cons_append, List.append_assoc, List.nil_append, List.cons.injEq,
          BuildStep.start.injEq] at same
        obtain ⟨rfl, inner⟩ := same
        obtain ⟨rfl, later⟩ := below inner
        obtain ⟨rfl, rfl⟩ := ih later
        exact ⟨rfl, rfl⟩

theorem stepsAll_inj {row other : List Shape} (same : stepsAll row = stepsAll other) : row = other := by
  have closed : stepsAll row ++ .finish :: [] = stepsAll other ++ .finish :: [] := by rw [same]
  exact (stepsAll_finish closed).1

theorem tokensAll_eq (row : List Shape) : tokensAll row = (stepsAll row).filterMap BuildStep.token? := by
  induction row using row_induction with
  | nil => rfl
  | token kind rawCount rest ih => simp [tokensAll, tokens, stepsAll, steps, BuildStep.token?, ih]
  | node kind children rest below ih =>
    simp [tokensAll, tokens, stepsAll, steps, BuildStep.token?, List.filterMap_cons, ih, below]

theorem properAll_iff (row : List Shape) : ProperAll row ↔ ∀ step ∈ stepsAll row, step.Proper := by
  induction row using row_induction with
  | nil => simp [ProperAll, stepsAll]
  | token kind rawCount rest ih => simp [ProperAll, Proper, stepsAll, steps, BuildStep.Proper, ih]
  | node kind children rest below ih =>
    simp only [ProperAll, Proper, below, ih, stepsAll, steps, List.mem_append, List.mem_cons,
      List.not_mem_nil, or_false]
    constructor
    · rintro ⟨⟨node, inner⟩, later⟩ step ((rfl | inside | rfl) | member)
      · exact node
      · exact inner step inside
      · trivial
      · exact later step member
    · exact fun all => ⟨⟨all _ (.inl (.inl rfl)), fun step inside => all step (.inl (.inr (.inl inside)))⟩,
        fun step member => all step (.inr member)⟩

end Shape

end LosslessJava
