import LosslessJava.Proofs.DeeperRuns

/-! Rules that keep to a course, put together the way the rules are. -/

namespace LosslessJava.Grammar

open LosslessJava.Parser

set_option synthInstance.maxSize 2000

variable {bounds : Bounds} {α β : Type} {s t : State}
variable {course : Course} {kind : Kind}

class Taken (course : Course) (kind : Kind) : Prop where
  holds : course.takes kind = true

theorem takes_of_unpaired (unpaired : kind.isUnpaired = true) : course.takes kind = true := by
  cases course with
  | all => cases kind <;> first | rfl | cases unpaired
  | free => rfl
  | spans | angles => exact unpaired

instance [unpaired : Evident kind.isUnpaired] : Taken course kind := ⟨takes_of_unpaired unpaired.holds⟩

instance : Taken .free kind := ⟨rfl⟩

instance : Taken .all .leftParen := ⟨rfl⟩

instance : Taken .all .rightParen := ⟨rfl⟩

section Steps

/-- A step that neither moves nor takes notice of how deep rules may nest keeps to every course. -/
theorem steers_still {action : Action α} (same : ∀ env bound s, action.run (env.within bound) s = action.run env s)
    (still : ∀ env s a t, action.run env s = .ok (a, t) → t.position = s.position) : Steers bounds course (.act action) where
  onCourse s := .act (fun bound => same _ bound s) fun a t gives _ _ => still _ s a t gives.act ▸ .refl

instance : Steers bounds course cursor := steers_still (fun _ _ _ => rfl) fun _ _ _ _ run => by cases run; rfl

instance : Steers bounds course (.act .noLambda) := steers_still (fun _ _ _ => rfl) fun _ _ _ _ run => by cases run; rfl

instance : Steers bounds course (.act .lookaheadLimit) := steers_still (fun _ _ _ => rfl) fun _ _ _ _ run => by cases run; rfl

instance {kinds : KindSet} : Steers bounds course (allow kinds) := steers_still (fun _ _ _ => rfl) fun _ _ _ _ run => by cases run; rfl

instance : Steers bounds course start := steers_still (fun _ _ _ => rfl) fun _ _ _ _ run => by cases run; rfl

instance {mark : Mark} : Steers bounds course (mark.complete kind) := steers_still (fun _ _ _ => rfl) fun _ _ _ _ run => by
  obtain ⟨u, completed, same⟩ := map_eq_ok.mp run
  cases same
  exact (State.complete_same completed).position

instance {mark : Mark} : Steers bounds course mark.release :=
  steers_still (fun _ _ _ => rfl) fun _ _ _ _ run => (State.release_same (Result.of_done run)).position

instance {first : Completed} : Steers bounds course first.precede := steers_still (fun _ _ _ => rfl) fun _ _ _ _ run => by
  obtain ⟨u, preceded, same⟩ := map_eq_ok.mp run
  cases same
  exact (State.precede_same preceded).position

instance [taken : Taken course kind] : Steers bounds course (consume kind) where
  onCourse s := .push (fun _ => rfl) fun a t run => by
    have run := Result.of_done run
    unfold State.consume at run
    split at run
    · next here =>
      cases run
      exact .inr ⟨here ▸ taken.holds, _, rfl⟩
    · cases run

instance [taken : Taken course kind] : Steers bounds course (consumeAs kind) where
  onCourse s := .push (fun _ => rfl) fun a t run => by
    have run := Result.of_done run
    unfold State.consumeAs at run
    split at run
    · next here =>
      cases run
      have name : Taken course .identifier := inferInstance
      refine .inr ⟨?_, _, rfl⟩
      rcases here with here | here
      · exact here ▸ name.holds
      · exact here ▸ taken.holds
    · cases run

end Steps

section Composition

variable {rule : Rule α}

instance {a : α} : Steers bounds course (Pure.pure a) := ⟨fun _ => .pure⟩

instance (priority := low) [Fails bounds rule] : Steers bounds course rule := ⟨fun _ => .fails⟩

theorem Steers.andThen {first : Rule β} {next : β → Rule α} [Steers bounds course first]
    (two : ∀ b, Steers bounds course (next b)) : Steers bounds course (first >>= next) :=
  ⟨fun _ => .andThen fun b t => (two b).onCourse t⟩

instance {first : Rule β} {next : β → Rule α} [Steers bounds course first] [two : ∀ b, Steers bounds course (next b)] :
    Steers bounds course (first >>= next) := .andThen two

instance {c : Prop} [Decidable c] {yes no : Rule α} [one : Steers bounds course yes] [other : Steers bounds course no] :
    Steers bounds course (if c then yes else no) := by
  split
  · exact one
  · exact other

instance {a : α} {step : α → Rule (Option α)} [round : ∀ a, Steers bounds course (step a)] :
    Steers bounds course (loopFrom a step) := ⟨fun s => .loopFrom (fun a t => (round a).onCourse t) a s⟩

instance {otherwise : α} [inner : Steers bounds course rule] : Steers bounds course (nested otherwise rule) :=
  ⟨fun s => .nested (inner.onCourse s.enter)⟩

instance {noLambda : Bool} [inner : Steers bounds course rule] : Steers bounds course (withNoLambda noLambda rule) :=
  ⟨fun _ => .withNoLambda (inner.onCourse _)⟩

end Composition

section Combinators

variable {rule : Rule α}

instance {n : Nat} : Steers bounds course (nth n) := by
  unfold nth
  infer_instance

instance : Steers bounds course current := by
  unfold current
  infer_instance

instance : Steers bounds course position := by
  unfold position
  infer_instance

instance {n : Nat} : Steers bounds course (nthIs n kind) := by
  unfold nthIs
  infer_instance

instance {n : Nat} : Steers bounds course (nthIsWord n kind) := by
  unfold nthIsWord
  infer_instance

instance : Steers bounds course (sees kind) := by
  unfold sees
  infer_instance

instance {kinds : KindSet} : Steers bounds course (seesAny kinds) := by
  unfold seesAny
  infer_instance

instance : Steers bounds course (seesWord kind) := by
  unfold seesWord
  infer_instance

instance {one other : Rule Bool} [Steers bounds course one] [Steers bounds course other] : Steers bounds course (one <||> other) :=
  .andThen fun found => by cases found <;> (simp only [ToBool.toBool]; infer_instance)

instance {one other : Rule Bool} [Steers bounds course one] [Steers bounds course other] : Steers bounds course (one <&&> other) :=
  .andThen fun found => by cases found <;> (simp only [ToBool.toBool]; infer_instance)

instance [Inhabited α] : Steers bounds course (endless : Rule α) := by
  unfold endless
  infer_instance

instance [Inhabited α] {what : String} {peek : Lookahead.Peek α} : Steers bounds course (decideBy what peek) := by
  unfold decideBy
  refine .andThen fun limit => .andThen fun cursor => ?_
  split <;> infer_instance

instance : Steers bounds course parenKindHere := by
  unfold parenKindHere
  infer_instance

instance : Steers bounds course patternKindHere := inferInstanceAs (Steers bounds course (decideBy _ _))

instance : Steers bounds course seesLocalVarDecl := inferInstanceAs (Steers bounds course (decideBy _ _))

instance : Steers bounds course seesLocalTypeDecl := inferInstanceAs (Steers bounds course (decideBy _ _))

instance : Steers bounds course seesForeach := inferInstanceAs (Steers bounds course (decideBy _ _))

instance : Steers bounds course seesArrayTypeLiteral := inferInstanceAs (Steers bounds course (decideBy _ _))

instance [Steers bounds course rule] : Steers bounds course (discard rule) :=
  inferInstanceAs (Steers bounds course (rule >>= fun _ => Pure.pure ()))

instance [Steers bounds course rule] : Steers bounds course (bracketed rule) := by
  unfold bracketed
  infer_instance

instance [Taken course kind] : Steers bounds course (accept kind) := by
  unfold accept
  infer_instance

instance [Taken course kind] : Steers bounds course (expect kind) := by
  unfold expect
  infer_instance

instance [Taken course kind] : Steers bounds course (require kind) := by
  unfold require
  infer_instance

instance {rule : Rule Unit} [Steers bounds course rule] : Steers bounds course (whenSees kind rule) := by
  unfold whenSees
  infer_instance

instance {next : α} {step : Rule Bool} [Steers bounds course step] : Steers bounds course (stepTo next step) := by
  unfold stepTo
  infer_instance

instance {step : Rule Bool} [Steers bounds course step] : Steers bounds course (loop step) := by
  unfold loop
  infer_instance

instance {step : Rule Bool} [Steers bounds course step] : Steers bounds course (loopAny step) := by
  unfold loopAny
  infer_instance

instance {rule : Rule Kind} [Steers bounds course rule] : Steers bounds course (nodeOf rule) := by
  unfold nodeOf
  infer_instance

instance {rule : Rule Unit} [Steers bounds course rule] : Steers bounds course (node kind rule) := by
  unfold node
  infer_instance

instance {rule : Rule (Kind × α)} [Steers bounds course rule] : Steers bounds course (nodeWith rule) := by
  unfold nodeWith
  infer_instance

instance {first : Completed} {rule : Rule Kind} [Steers bounds course rule] : Steers bounds course (around first rule) := by
  unfold around
  infer_instance

instance {rule : Rule (Option Kind)} [Steers bounds course rule] : Steers bounds course (nodeIf rule) := by
  unfold nodeIf
  refine .andThen fun mark => .andThen fun found => ?_
  split <;> infer_instance

instance {closer delimiter : Kind} {what : String} {first : KindSet} {element : Rule Bool} [Taken course delimiter]
    [Steers bounds course element] : Steers bounds course (delimitedRound closer delimiter what first element) := by
  unfold delimitedRound
  infer_instance

instance {opener closer delimiter : Kind} {what : String} {first : KindSet} {element : Rule Bool} [Taken course opener]
    [Taken course closer] [Taken course delimiter] [Steers bounds course element] :
    Steers bounds course (delimited opener closer delimiter what first element) := by
  unfold delimited
  infer_instance

instance {rule : Rule Unit} [Steers bounds course rule] : Steers bounds course (commaSeparated rule) := by
  unfold commaSeparated
  infer_instance

instance {rule : Rule Unit} {issue : Kind → Issue} [Steers bounds course rule] : Steers bounds course (skipUnmoved rule issue) := by
  unfold skipUnmoved
  infer_instance

instance {rule : Rule Unit} {closer : Kind} [Steers bounds course rule] : Steers bounds course (listUntil closer rule) := by
  unfold listUntil
  infer_instance

/-- Nothing is skipped where the semicolon is there. -/
instance {recovery : KindSet} : Steers bounds course (semicolon recovery) where
  onCourse s := by
    have there : Smooth bounds (expect .semicolon) s fun found _ => found = true :=
      .of_draws (draws_expect (by decide)) fun _ _ _ _ holds => holds.1
    unfold semicolon
    exact .bind there (Steers.onCourse s) fun found t there => by
      subst there
      exact .pure

end Combinators

end LosslessJava.Grammar
