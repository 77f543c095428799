import LosslessJava.Proofs.Calls

/-! Names, annotations and modifiers: each of them may stand anywhere, and moves where it answers
that there was one. -/

namespace LosslessJava.Grammar

open LosslessJava.Parser

variable {scope : Scope} {i rank : Nat}

private theorem dotName_yields : Yields scope rank (do
    if ← sees .dot <&&> nthIs 1 .identifier then
      consume .dot
      consume .identifier
      return true
    else
      return false) id := fun _ _ => by
  refine .test ((Looks.sees _).and (Looks.nthIs _ _)) (fun here => ?_) fun _ => .pure (by simp)
  simp only [Bool.and_eq_true, beq_iff_eq] at here
  refine .consumeThen here.1 (by decide) fun _ => .consumeThen ?_ (by decide) fun _ => .pure fun _ => by omega
  exact (scope.nth_cursor_add _ _ _).trans here.2

theorem qualifiedName_steady : Steady scope rank qualifiedName :=
  .sees (fun _ room here => .discardNode (by decide) <| (Keeps.moved room (.consume_moves here (by decide)) fun _ =>
    .loop dotName_yields).weaken fun _ _ _ _ => trivial) (.expectedHere _)

theorem seesAnnotation_looks : Looks scope i seesAnnotation (annotationAt (scope.cursor i)) := by
  refine .bind (.sees _) ?_
  unfold annotationAt
  split
  · next here =>
    simp only [here, Bool.true_and]
    exact .bind (.nthIs _ _) (.pure _)
  · next away =>
    simp only [away, Bool.false_and]
    exact .pure _

theorem annotationAt_here (annotated : annotationAt (scope.cursor i)) : (scope.cursor i).current = .atSign := by
  simp only [annotationAt, Bool.and_eq_true, beq_iff_eq] at annotated
  exact annotated.1

private theorem elementValuePair_steady : Steady scope 4 elementValuePair :=
  .discardNode (by decide) <| .bind (.require (by decide)) fun _ => .bind (.require (by decide)) fun _ => elementValue_yields.steady.discard

private theorem annotationArgs_steady : Steady scope 4 annotationArgs :=
  .sees (fun _ _ _ => .pure trivial) <|
    .test (fun _ => (Looks.sees _).and (Looks.nthIs _ _))
      (fun i room _ => Steady.commaSeparated elementValuePair_steady i room)
      elementValue_yields.steady.discard

theorem annotation_moves (room : scope.Room 0 i) (here : (scope.cursor i).current = .atSign) :
    Keeps scope i annotation fun _ j => i < j :=
  .discardNode (by decide) <| .moved room (.consume_moves here (by decide)) fun _ => .bind qualifiedName_steady fun _ =>
    .whenSees fun _ room here => .discardNode (by decide) <|
      (Keeps.moved room (.consume_moves here (by decide)) fun _ =>
        .bind (.bracketed annotationArgs_steady) fun _ => .require (by decide)).weaken fun _ _ _ _ => trivial

private theorem someAnnotation_yields : Yields scope 0 (do
    if ← seesAnnotation then
      annotation
      return true
    else
      return false) id := fun _ room =>
  .test seesAnnotation_looks
    (fun here => (annotation_moves room (annotationAt_here here)).bind fun _ _ _ _ moved =>
      .pure fun _ => moved)
    fun _ => .pure (by simp)

theorem annotations_yields : Yields scope 0 annotations id := .loopAny someAnnotation_yields

theorem wordAt_here {keyword : Kind} (word : isWordAt (scope.cursor i) 0 keyword) :
    (scope.cursor i).current = .identifier := by
  simp only [isWordAt, Bool.and_eq_true, beq_iff_eq] at word
  exact word.1

private theorem modifier_yields : Yields scope 0 modifier id := fun i room => by
  refine .test seesAnnotation_looks
    (fun here => (annotation_moves room (annotationAt_here here)).bind fun _ _ _ _ moved =>
      .pure fun _ => moved) fun _ => .look Looks.cursor ?_
  have next (j : Nat) (moved : i < j) : Keeps scope j (pure true) fun b k => id b = true → i < k :=
    .pure fun _ => moved
  split
  · next listed =>
    have more : (scope.cursor i).current ≠ .eof := by
      intro ended
      rw [ended] at listed
      exact absurd listed (by decide +kernel)
    exact (Keeps.consumeAny more).bind fun _ _ _ _ moved => next _ (by omega)
  · split
    · next word =>
      simp only [isSealed, Bool.and_eq_true] at word
      exact (Keeps.consumeAs (wordAt_here word.1) (by decide)).bind fun _ _ _ _ moved => next _ (by omega)
    · split
      · next joined =>
        simp only [isNonSealed, isWordAt, Bool.and_eq_true, beq_iff_eq] at joined
        refine (Keeps.join ⟨by decide, .inr ⟨by decide, by decide⟩⟩ (by decide) fun n small => ?_).bind
          fun _ _ _ _ moved => next _ (by omega)
        obtain ⟨⟨⟨⟨⟨first, -⟩, second⟩, third, -⟩, -⟩, -⟩ := joined
        intro ended
        obtain rfl | rfl | rfl : n = 0 ∨ n = 1 ∨ n = 2 := by omega
        · exact absurd (first.symm.trans ended) (by decide)
        · exact absurd (second.symm.trans ended) (by decide)
        · exact absurd (third.symm.trans ended) (by decide)
      · exact .pure (by simp)

theorem modifiers_yields : Yields scope 0 modifiers id := fun i room =>
  .someNode <| (Yields.loopAny modifier_yields i room).bind fun b j _ _ moves => .pure <| by
    cases b with
    | true => exact ⟨.some rfl, fun _ => moves rfl⟩
    | false => exact ⟨.none, by simp⟩

theorem modifiers_steady : Steady scope rank (discard modifiers) :=
  (modifiers_yields.steady.lower (Nat.zero_le rank)).discard

theorem annotations_steady : Steady scope rank (discard annotations) :=
  (annotations_yields.steady.lower (Nat.zero_le rank)).discard

theorem elementValue_keeps (room : scope.Room 3 i) :
    Keeps scope i elementValue fun found j => found = true → i < j := by
  have low : scope.Room 0 i := room.later (Nat.le_refl i) (by omega)
  refine .test seesAnnotation_looks (fun here => ?_) fun _ => .sees (fun here => ?_) fun _ => ?_
  · exact (annotation_moves low (annotationAt_here here)).bind fun _ _ _ _ moved =>
      .pure fun _ => moved
  · refine .nested ?_ fun _ _ _ => by simp
    exact (Keeps.discardNode (by decide) <| delimited_keeps low here (by decide) elementValue_yields).bind fun _ _ _ _ moved =>
      .pure fun _ => moved
  · exact (expression_yields i room).bind fun _ _ _ _ moves => .pure moves

end LosslessJava.Grammar
