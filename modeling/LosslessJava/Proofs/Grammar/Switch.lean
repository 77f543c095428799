import LosslessJava.Proofs.Grammar.Patterns

/-! Switch blocks. The report of a label that ends in the other way than those before it may give
the input up, and the end of the label is consumed all the same. -/

namespace LosslessJava.Grammar

open LosslessJava.Parser

variable {scope : Scope} {i rank : Nat}

theorem anyExpression_steady : Steady scope 3 (discard anyExpression) :=
  anyExpression_yields.steady.discard

theorem expression_steady {least : Power} : Steady scope 3 (discard (call (.expression least))) :=
  expression_yields.steady.discard

theorem condition_steady : Steady scope 3 condition :=
  .discardNode (by decide) <| .bind (.require (by decide)) fun _ => .bind (anyExpression_yields.steady.bracketed.discard)
    fun _ => .require (by decide)

private theorem exprAndSemicolon_steady : Steady scope 3 exprAndSemicolon :=
  .bind anyExpression_yields.steady fun found => by
    split
    · exact .semicolon _
    · exact .bind (.recover _) fun _ => (Steady.accept (by decide)).discard

theorem exprStmt_steady : Steady scope 3 exprStmt :=
  .discardNodeIf fun i room => .look .position <| (exprAndSemicolon_steady i room).bind
    fun _ j _ _ _ => .look .position <| .pure <| by
      split
      · exact .none
      · exact .some rfl

private theorem settles_guardedPattern {s t : State} {pattern : Completed} (after : State.After scope.env s t)
    (room : scope.Room 3 s.position) (heads : s.Heads pattern t) :
    scope.Settles (guardedPattern pattern) t fun _ u => State.After scope.env s u :=
  settles_aroundWhenSees after heads fun here => .consumeThen here (by decide) fun _ =>
    (expression_steady _ (room.later (Nat.le_succ_of_le after.position_le) (by omega))).bind
      fun _ _ _ _ _ => .pure rfl

private theorem caseItem_steady : Steady scope 3 caseItem :=
  .sees (fun _ _ here => (Keeps.consume_moves here (by decide)).weaken fun _ _ _ _ => trivial) <|
    .bind (.decideBy _ _) fun found => by
      split
      · intro i room s good here
        subst here
        refine (pattern_finds (room.later (Nat.le_refl _) (by omega)) s good rfl).bind
          fun found t _ ⟨after, heads, _⟩ => ?_
        cases found with
        | none => exact .pure ⟨after, trivial⟩
        | some pattern =>
          exact Program.Settles.weaken (settles_guardedPattern after room (heads pattern rfl))
            fun _ _ _ after => ⟨after, trivial⟩
      · exact expression_steady

private theorem optionalGuard_steady : Steady scope 3 optionalGuard :=
  .test (fun _ => Looks.seesWord _) (fun _ room word => .discardNode (by decide) <|
    (Keeps.consumeAs (wordAt_here word) (by decide)).bind fun _ _ later _ _ =>
      anyExpression_steady _ (room.later later (by omega))) (.pure ())

private theorem caseItems_steady : Steady scope 3 caseItems :=
  .bind (.commaSeparated caseItem_steady) fun _ => optionalGuard_steady

def labelAt (cursor : TokenCursor) : Bool := cursor.current == .caseKw || cursor.current == .defaultKw

private theorem seesLabel_looks : Looks scope i seesLabel (labelAt (scope.cursor i)) :=
  .or (.sees _) (.sees _)

private theorem labelHead_moves (room : scope.Room 0 i) (label : labelAt (scope.cursor i)) :
    Keeps scope i labelHead fun _ j => i < j :=
  .sees (fun here => .consume_moves here (by decide)) fun away => by
    have here : (scope.cursor i).current = .caseKw := by
      simpa [labelAt, away] using label
    exact .moved room (.consume_moves here (by decide)) fun _ => (caseItems_steady.lower (by decide)).withNoLambda

private theorem switchLabel_moves {form : Option Kind} (room : scope.Room 0 i)
    (label : labelAt (scope.cursor i)) :
    Keeps scope i (switchLabel form) fun _ j => i < j :=
  .nodeWith <| (labelHead_moves room label).bind fun _ j _ inside moved =>
    (terminator_steady form j ((room.moved moved inside).later (Nat.le_refl _) (by omega))).bind
      fun _ k _ _ _ => .pure ⟨rfl, by omega⟩

theorem ruleBody_steady : Steady scope 4 ruleBody := fun i room => .look .current <| by
  split
  · exact block_steady i (room.later (Nat.le_refl _) (by omega))
  · exact statement_steady i room
  · exact exprStmt_steady i (room.later (Nat.le_refl _) (by omega))

theorem groupStatements_steady : Steady scope 4 groupStatements :=
  .loop fun i room => .test (.or (seesLabel_looks) (.or (.sees _) (.sees _)))
    (fun _ => .pure (by simp)) fun _ => .look .position <| (statement_steady i room).bind
      fun _ j later _ _ => .look .position <| .pure fun moved => by
        simp only [id, bne_iff_ne, ne_eq] at moved
        omega

private theorem moreLabels_steady (form : Option Kind) : Steady scope 4 (moreLabels form) :=
  .loopFrom fun _ _ room => .test seesLabel_looks
    (fun label => (switchLabel_moves (room.later (Nat.le_refl _) (by omega)) label).bind
      fun _ _ _ _ moved => .pure fun _ => moved) fun _ => .pure (by simp)

private theorem switchEntry_moves {form : Option Kind} (room : scope.Room 0 i)
    (label : labelAt (scope.cursor i)) :
    Keeps scope i (switchEntry form) fun _ j => i < j :=
  .nodeWith <| (switchLabel_moves room label).bind fun (ending, form) j _ inside moved => by
    have behind := room.moved moved inside
    dsimp only
    split
    · exact (ruleBody_steady j behind).bind fun _ _ _ _ _ => .pure ⟨rfl, by omega⟩
    · exact (moreLabels_steady form j behind).bind fun _ k later _ _ =>
        (groupStatements_steady k (behind.later later (by omega))).bind fun _ _ _ _ _ => .pure ⟨rfl, by omega⟩

private theorem entryOrError_steady (form : Option Kind) : Steady scope 0 (entryOrError form) :=
  .test (fun _ => seesLabel_looks)
    (fun _ room label => (switchEntry_moves room label).weaken fun _ _ _ _ => trivial)
    (.bind (.expectedThenRecover _ _) fun _ => .pure _)

private theorem nextEntry_yields (form : Option Kind) : Yields scope 0 (nextEntry form) Option.isSome :=
  fun i room => .test (.or (.sees _) (.sees _)) (fun _ => .pure (by simp)) fun away =>
    .look .position <| (entryOrError_steady form i room).bind fun _ j later _ _ => .look .position <| by
      simp only [Bool.or_eq_false_iff, beq_eq_false_iff_ne] at away
      split
      · next still =>
        subst still
        exact .look .current <| (Keeps.reportAndSkip _).bind fun _ _ _ _ moves =>
          .pure fun _ => moves away.2
      · exact .pure fun _ => by omega

theorem switchBlock_steady : Steady scope 0 switchBlock :=
  .sees (fun _ room here => .discardNode (by decide) <| (Keeps.moved room (.consume_moves here (by decide)) fun _ =>
      .bind ((Steady.loopFrom nextEntry_yields).discard.lower (by decide)) fun _ => .require (by decide)).weaken
        fun _ _ _ _ => trivial)
    (.expectedHere _)

theorem switchExpr_builds (room : scope.Room 0 i) (here : (scope.cursor i).current = .switchKw) :
    Builds scope i switchExpr fun j => i < j :=
  .node (by decide) <| .moved room (.consume_moves here (by decide)) fun _ =>
    .bind (condition_steady.lower (by decide)) fun _ => switchBlock_steady.lower (by decide)

/-- The end of a label is consumed where it stands, unless a report has given the input up. -/
theorem terminator_keeps {form : Option Kind}
    (own : scope.env.options.mode = .strict →
      (scope.cursor i).current = .colon ∨ (scope.cursor i).current = .arrow →
      form.getD (scope.cursor i).current ≠ (scope.cursor i).current → scope.own.halts) :
    Keeps scope i (terminator form) fun _ _ => True := by
  refine .test (.or (.sees _) (.sees _)) (fun here => .look .current ?_) fun _ =>
    (Keeps.expectedHere _).bind fun _ _ _ _ _ => .pure trivial
  simp only [Bool.or_eq_true, beq_iff_eq] at here
  have more : (scope.cursor i).current ≠ .eof := by
    rcases here with colon | arrow
    · simp [colon]
    · simp [arrow]
  dsimp only
  split
  · exact .consumeThen rfl more fun _ => .pure trivial
  · next mixed =>
    refine (Keeps.report _).bind fun _ j _ _ reported => ?_
    rcases reported with ⟨rfl, -⟩ | ⟨ended, strict⟩
    · exact .consumeThen rfl more fun _ => .pure trivial
    · exact .never (.misplaced (fun same => more (same.symm.trans ended)) (own strict here mixed))

end LosslessJava.Grammar
