import LosslessJava.Proofs.Grammar.Types

/-! Patterns, which move if they are found. -/

namespace LosslessJava.Grammar

open LosslessJava.Parser

variable {scope : Scope} {i rank : Nat}

private theorem pattern_yields : Yields scope 2 (call .pattern) Option.isSome :=
  fun _ room => (pattern_finds room).keeps

private theorem patternList_moves (room : scope.Room 0 i) (here : (scope.cursor i).current = .leftParen) :
    Keeps scope i patternList fun _ j => i < j :=
  .discardNode (by decide) <| delimited_keeps room here (by decide) fun _ room =>
    (pattern_yields _ (room.later (Nat.le_refl _) (by omega))).bind fun _ _ _ _ moves => .pure moves

private theorem parenPattern_builds (room : scope.Room 0 i)
    (here : (scope.cursor i).current = .leftParen) :
    Builds scope i parenPattern fun j => i < j :=
  .node (by decide) <| .moved room (.consume_moves here (by decide)) fun _ =>
    .bind (pattern_yields.steady.discard.lower (by decide)) fun _ => .require (by decide)

private theorem typedPattern_finds (room : scope.Room 1 i) :
    Finds scope i typedPattern fun found j => found = true → i < j :=
  .nodeIf <| (modifiers_steady i room).bind fun _ j later _ _ =>
    (type_finds (room.later later (by omega))).keeps.bind fun found k on inside moves => by
      split
      · next some =>
        have moved := moves some
        have room := room.moved (j := k) (by omega) inside
        refine .sees (fun here => ?_) fun _ => ?_
        · exact (patternList_moves (room.later (Nat.le_refl _) (by omega)) here).bind fun _ _ _ _ _ =>
            .pure ⟨.some rfl, fun _ => by omega⟩
        · exact (Keeps.require (by decide)).bind fun _ _ _ _ _ =>
            .pure ⟨.some rfl, fun _ => by omega⟩
      · exact .pure ⟨.none, by simp⟩

theorem pattern_settles {s : State} (good : s.Good scope.env) (room : scope.Room 1 s.position) :
    scope.Settles pattern s fun found t =>
      State.After scope.env s t ∧ (Nonterminal.pattern).Post scope.env s found t :=
  Finds.promise good <| .nested (.sees
    (fun here => (parenPattern_builds (room.later (Nat.le_refl _) (by omega)) here).finds.weaken
      fun _ _ _ moved _ => moved)
    fun _ => typedPattern_finds room) (by simp)

end LosslessJava.Grammar
