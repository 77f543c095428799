import LosslessJava.Proofs.Grammar.Modifiers

/-! Module declarations. Their keywords are names, and each is consumed where it stands. -/

namespace LosslessJava.Grammar

open LosslessJava.Parser

variable {scope : Scope} {i rank : Nat}

theorem Answers.word {α : Type} {tells : α → Prop} {keyword : Kind} {yes : Unit → Rule α} {no : Rule α}
    (token : keyword.isToken) (behind : Answers scope rank (yes ()) tells)
    (absent : Answers scope rank no tells) :
    Answers scope rank (do if ← seesWord keyword then consumeAs keyword >>= yes else no) tells :=
  fun i room => .test (Looks.seesWord _) (fun word =>
    (Keeps.consumeAs (wordAt_here word) token).bind fun _ j later _ _ =>
      behind j (room.later later (by omega)))
    fun _ => absent i room

private theorem qualifiedNames_steady : Steady scope rank (commaSeparated qualifiedName) :=
  .commaSeparated qualifiedName_steady

private theorem requiresModifiers_steady : Steady scope rank requiresModifiers :=
  .loop fun _ _ => .sees (fun here => .consumeThen here (by decide) fun _ => .pure fun _ => Nat.lt_succ_self _)
    fun _ => .test (.and (.nthIsWord _ _) (.nthIs _ _)) (fun word => by
      rw [Bool.and_eq_true] at word
      exact (Keeps.consumeAs (wordAt_here word.1) (by decide)).bind fun _ _ _ _ moved => .pure fun _ => by omega)
      fun _ => .pure (by simp)

private theorem targets_steady : Steady scope rank targets :=
  Answers.word (by decide) qualifiedNames_steady (.pure trivial)

private theorem implementations_steady : Steady scope rank implementations :=
  Answers.word (by decide) qualifiedNames_steady (Steady.expectedHere _)

private theorem directiveHead_answers : Answers scope rank directiveHead NodeKind :=
  .word (by decide) (.bind requiresModifiers_steady fun _ => .bind qualifiedName_steady fun _ =>
    .pure (.some rfl)) <|
  .word (by decide) (.bind qualifiedName_steady fun _ => .bind targets_steady fun _ => .pure (.some rfl)) <|
  .word (by decide) (.bind qualifiedName_steady fun _ => .bind targets_steady fun _ => .pure (.some rfl)) <|
  .word (by decide) (.bind qualifiedName_steady fun _ => .pure (.some rfl)) <|
  .word (by decide) (.bind qualifiedName_steady fun _ => .bind implementations_steady fun _ =>
    .pure (.some rfl)) <|
  .pure .none

private theorem directiveRest_answers : Answers scope rank directiveRest NodeKind := fun i room =>
  (directiveHead_answers i room).bind fun kind j later _ node => by
    cases kind with
    | some kind =>
      exact Answers.keeps (.bind (.semicolon _) fun _ => .pure node)
        (room.later later (by omega) : scope.Room rank j)
    | none =>
      exact Answers.keeps (.bind (.expectedThenRecover _ _) fun _ =>
        .bind (Steady.accept (by decide)).discard fun _ => .pure .none)
        (room.later later (by omega) : scope.Room rank j)

private theorem directive_steady : Steady scope rank directive := .discardNodeIf directiveRest_answers

private theorem moduleBody_steady : Steady scope 0 moduleBody :=
  .sees (fun _ room here => .discardNode (by decide) <| (Keeps.moved room (.consume_moves here (by decide)) fun _ =>
      .bind (.listUntil directive_steady) fun _ => .require (by decide)).weaken fun _ _ _ _ => trivial)
    (.expectedHere _)

private theorem isWordAt_cursor_add {n : Nat} {keyword : Kind} :
    isWordAt (scope.cursor (i + n)) 0 keyword = isWordAt (scope.cursor i) n keyword := by
  simp [isWordAt, TokenCursor.nth, TokenCursor.nthText, TokenCursor.nthToken, TokenCursor.index,
    Scope.cursor]

/-- The word `module` stands at a module's declaration, with or without the word before it. -/
theorem moduleDecl_keeps (room : scope.Room 0 i) (here : isModuleDecl (scope.cursor i)) :
    Keeps scope i moduleDecl fun _ _ => True := by
  simp only [isModuleDecl, Bool.and_eq_true] at here
  have opened : Keeps scope i optionalOpen fun _ j => isWordAt (scope.cursor j) 0 .moduleKw := by
    refine .test (.seesWord _) (fun word => ?_) fun away => .pure ?_
    · refine (Keeps.consumeAs (wordAt_here word) (by decide)).weaken fun _ j _ moved => ?_
      rw [moved, isWordAt_cursor_add]
      simpa [word] using here.1
    · simpa [away] using here.1
  refine opened.bind fun _ j later _ word => ?_
  refine (Keeps.consumeAs (wordAt_here word) (by decide)).bind fun _ k on _ _ => ?_
  exact Steady.bind qualifiedName_steady (fun _ => moduleBody_steady) k (room.later (by omega) (by omega))

end LosslessJava.Grammar
