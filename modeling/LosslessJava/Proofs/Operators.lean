import LosslessJava.Proofs.TypeScans
import LosslessJava.Proofs.Names
import LosslessJava.Proofs.Trials

/-! Operators behind a left side: what is made of both, and where a name is the left side although `<` stands behind it. -/

namespace LosslessJava.Grammar

open LosslessJava.Parser

variable {env : Env} {level : Level} {i j k : Nat} {shape before after left right : Shape} {least : Power} {op : Operator}

/-- An operator that binds tightly enough, and its right side, are put around the left side. -/
theorem operatorStep_carries {kind : Kind} {back : List Shape} (found : Operator.at? ⟨env.stream, i⟩ = some op)
    (tight : least ≤ op.power) (named : kind ≠ .tombstone)
    (reads : Follows env level i (operation op) fun answer row k => answer = kind ∧ row = back ∧ k = j) :
    CarriesSome env level i (operatorStep least) left (.node kind (left :: back)) j := by
  intro base s first wrote roots here deep
  refine .look wrote fun t tried before => ?_
  have cursor : s.cursor env = ⟨env.stream, i⟩ := by rw [State.cursor, here]
  rw [cursor, id, found]
  dsimp only
  rw [if_neg (Nat.not_lt.mpr tight)]
  exact (Carries.around named reads).found base t first before (roots.kept tried.events) (tried.position.trans here) deep

theorem ReadsNode.discard {rule : Rule (Option Completed)} (reads : ReadsNode env level i rule shape j) :
    Follows env level i (Functor.discard rule) fun _ row k => row = [shape] ∧ k = j := fun s here deep =>
  .discard <| (reads s here deep).weaken fun _ _ _ _ given => by
    obtain ⟨_, -, -, holds⟩ := given
    exact holds

/-- The right side of a binary operator binds tighter than it. -/
theorem operation_binary (plain : op.kind ≠ .instanceofKw ∧ op.kind ≠ .question) (power : op.power ≠ .assignment)
    (room : i + op.rawCount < env.stream.size)
    (reads : ReadsNode env level (i + op.rawCount) (call (.expression (op.power + 1))) right j) :
    Follows env level i (operation op) fun answer row k =>
      answer = .binaryExpr ∧ row = [.token op.kind op.rawCount, right] ∧ k = j := by
  have joined : Follows env level i (join op.kind op.rawCount) fun _ row k =>
      row = [.token op.kind op.rawCount] ∧ k = i + op.rawCount := .join room ⟨rfl, rfl⟩
  unfold operation
  split
  · next same => exact absurd same plain.1
  · next same => exact absurd same plain.2
  · refine joined.bind fun _ row k given => ?_
    obtain ⟨rfl, rfl⟩ := given
    rw [if_neg power]
    refine reads.discard.bind fun _ row k given => ?_
    obtain ⟨rfl, rfl⟩ := given
    exact .pure ⟨rfl, rfl, rfl⟩

/-- The right side of an assignment may be another one. -/
theorem operation_assign (plain : op.kind ≠ .instanceofKw ∧ op.kind ≠ .question) (power : op.power = .assignment)
    (room : i + op.rawCount < env.stream.size)
    (reads : ReadsNode env level (i + op.rawCount) (call (.expression .assignment)) right j) :
    Follows env level i (operation op) fun answer row k =>
      answer = .assignExpr ∧ row = [.token op.kind op.rawCount, right] ∧ k = j := by
  have joined : Follows env level i (join op.kind op.rawCount) fun _ row k =>
      row = [.token op.kind op.rawCount] ∧ k = i + op.rawCount := .join room ⟨rfl, rfl⟩
  unfold operation
  split
  · next same => exact absurd same plain.1
  · next same => exact absurd same plain.2
  · refine joined.bind fun _ row k given => ?_
    obtain ⟨rfl, rfl⟩ := given
    rw [if_pos power]
    refine reads.discard.bind fun _ row k given => ?_
    obtain ⟨rfl, rfl⟩ := given
    exact .pure ⟨rfl, rfl, rfl⟩

theorem operation_conditional {yes no : Shape} {l : Nat} (asks : op.kind = .question) (question : env.stream.kindAt i = .question)
    (colon : env.stream.kindAt l = .colon) (first : ReadsNode env level (i + 1) anyExpression yes l)
    (second : ReadsNode env level (l + 1) (call (.expression .conditional)) no j) :
    Follows env level i (operation op) fun answer row k =>
      answer = .conditionalExpr ∧ row = [.token .question 1, yes, .token .colon 1, no] ∧ k = j := by
  have separated : Follows env level l (require .colon) fun _ row k => row = [.token .colon 1] ∧ k = l + 1 :=
    .require colon (by decide) ⟨rfl, rfl⟩
  unfold operation
  rw [asks]
  refine .consumeThen question (by decide) <| first.discard.bind fun _ row k given => ?_
  obtain ⟨rfl, rfl⟩ := given
  refine separated.bind fun _ row k given => ?_
  obtain ⟨rfl, rfl⟩ := given
  refine second.discard.bind fun _ row k given => ?_
  obtain ⟨rfl, rfl⟩ := given
  exact .pure ⟨rfl, rfl, rfl⟩

private theorem Level.Holds.good {s : State} {more : Kind} (holds : level.Holds s) (sound : level.sound = true)
    (here : env.stream.kindAt s.position = more) (inside : more ≠ .eof) : s.Good env := by
  have normal := holds.normal sound
  refine ⟨TokenStream.lt_size_of_ne_eof here inside, fun abandoned => ?_, fun _ => ?_⟩
  · rw [normal] at abandoned
    cases abandoned
  · rw [normal]
    decide

/-- Where no `::` stands in the stream, a name with `<` behind it is read as a name. -/
theorem nameExpr_compared (plain : env.stream.Unannotated) (regular : env.stream.Regular)
    (bare : ∀ index, env.stream.kindAt index ≠ .colonColon) (sound : level.sound = true)
    (here : env.stream.kindAt i = .identifier) (angle : env.stream.kindAt (i + 1) = .lt)
    (name : Forms env level i plainName fun row k => row = [shape] ∧ k = j) : ReadsNode env level i nameExpr shape j := by
  refine .look <| .askNoLambda fun noLambda => ?_
  rw [TokenCursor.nth_eq, angle, if_neg (by simp), if_pos rfl]
  intro s at_i deep
  have good : s.Good env := deep.good sound (at_i ▸ here) (by decide)
  have taken := genericReceiver_none plain regular bare good
  obtain ⟨found, t, ran, given⟩ := simpleName_reads (by rw [angle]; exact ⟨by decide, by decide, by decide⟩) name s at_i deep
  refine ⟨found, t, ?_, given⟩
  rw [Program.exec_bind, taken, Program.andThen_ok]
  exact ran

end LosslessJava.Grammar
