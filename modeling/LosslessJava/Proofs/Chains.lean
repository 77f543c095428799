import LosslessJava.Proofs.Combinators

/-! Nodes that are put around an operand one after the other. Behind a stray operand the input has
ended, so no node is put around it. -/

namespace LosslessJava.Grammar

open LosslessJava.Parser

variable {scope : Scope} {s t u : State} {stray : Prop} {first : Completed}

theorem Led.tried {env : Env} (led : Led env s stray first t) (tried : Tried t u) :
    Led env s stray first u :=
  led.imp (.imp_right tried.heads) fun ⟨holds, ended, strays⟩ =>
    ⟨holds, tried.current.trans ended, strays.kept tried.events⟩

theorem Led.heads {env : Env} (led : Led env s stray first t) (more : t.current env ≠ .eof) :
    ¬ stray ∧ s.Heads first t := led.resolve_right fun ⟨_, ended, _⟩ => more ended

def Attaches (env : Env) (s : State) (stray : Prop) (first : Completed) (t : State)
    (next : Option Completed) (u : State) : Prop :=
  State.After env s u ∧ Led env s stray (next.getD first) u ∧
    t.position ≤ u.position ∧ (next.isSome = true → t.position < u.position)

theorem settles_attach {rule : Rule Kind} (after : State.After scope.env s t)
    (led : Led scope.env s stray first t) (more : (scope.cursor t.position).current ≠ .eof)
    (inner : Keeps scope t.position rule fun kind j => kind.isNode ∧ t.position < j) :
    scope.Settles (around first rule >>= fun outer => return some outer) t
      (Attaches scope.env s stray first t) :=
  have ⟨joined, heads⟩ := led.heads more
  (settles_around (P := fun j => t.position < j) after heads inner).bind fun _ _ _ ⟨after, heads, moved⟩ =>
    .pure ⟨after, .inl ⟨joined, heads⟩, Nat.le_of_lt moved, fun _ => moved⟩

/-- Nodes are put around an operand for as long as a step does. -/
theorem settles_chain {step : Completed → Rule (Option Completed)} (after : State.After scope.env s t)
    (led : Led scope.env s stray first t)
    (round : ∀ first u, State.After scope.env s u → Led scope.env s stray first u →
      t.position ≤ u.position → scope.Settles (step first) u (Attaches scope.env s stray first u)) :
    scope.Settles (Parser.loopFrom first step) t fun outer u =>
      State.After scope.env s u ∧ Led scope.env s stray outer u ∧ t.position ≤ u.position := by
  refine .loopFrom (fun outer u =>
    State.After scope.env s u ∧ Led scope.env s stray outer u ∧ t.position ≤ u.position)
    ⟨after, led, Nat.le_refl _⟩ (fun _ _ ⟨after, _⟩ => after.good.inside)
    fun outer u ⟨after, led, later⟩ => ?_
  refine (round outer u after led later).weaken fun next v _ ⟨after, led, on, moves⟩ => ?_
  cases next with
  | some next => exact .inl ⟨⟨after, led, Nat.le_trans later on⟩, moves rfl⟩
  | none => exact ⟨after, led, Nat.le_trans later on⟩

theorem settles_unattached (after : State.After scope.env s t)
    (led : Led scope.env s stray first t) :
    scope.Settles (Pure.pure none) t (Attaches scope.env s stray first t) :=
  .pure ⟨after, led, Nat.le_refl _, by simp⟩

/-- Whether a node is put around an operand depends on what is seen. -/
theorem settles_lookThen {α : Type} {look : Rule α} {answer : α}
    {next : α → Rule (Option Completed)} (after : State.After scope.env s t)
    (led : Led scope.env s stray first t) (looks : Looks scope t.position look answer)
    (rest : ∀ u, State.After scope.env s u → Led scope.env s stray first u →
      u.position = t.position → scope.Settles (next answer) u (Attaches scope.env s stray first u)) :
    scope.Settles (look >>= next) t (Attaches scope.env s stray first t) := by
  refine settles_look after.good looks fun u _ tried => ?_
  have same := tried.position
  refine (rest u (after.trans (tried.after after.good)) (led.tried tried) same).weaken ?_
  intro next v _ ⟨after, led, on, moves⟩
  rw [same] at on moves
  exact ⟨after, led, on, moves⟩

/-- A report behind an operand may give the input up, which leaves the operand stray. -/
theorem settles_expectedBehind {what : String} (after : State.After scope.env s t)
    (heads : s.Heads first t) (moved : s.position < t.position)
    (bare : stray ↔ scope.env.options.mode = .strict ∧ t.current scope.env ≠ .eof) :
    scope.Settles (expectedHere what) t fun _ u => State.After scope.env s u ∧
      Led scope.env s stray first u ∧ t.position ≤ u.position := by
  refine settles_look after.good .current fun u _ tried => ?_
  have after' := after.trans (tried.after after.good)
  have good := after'.good
  have same := tried.position
  cases mode : scope.env.options.mode with
  | lenient =>
    obtain ⟨v, run, later, -, kept⟩ := State.report_lenient good mode
      (.expected what (scope.cursor t.position).current)
    refine .act (by simp [Action.run, run, Result.done, Except.map]; rfl)
      ⟨after'.trans later, .inl ⟨by simp [bare, mode], heads.kept (kept.trans tried.events)⟩,
        same ▸ later.position_le⟩
  | strict =>
    obtain ⟨v, run, later, -, ended, kept, swallowed⟩ := State.report_strict scope.regular good mode
      (.expected what (scope.cursor t.position).current)
    refine .act (by simp [Action.run, run, Result.done, Except.map]; rfl) ⟨after'.trans later, ?_, same ▸ later.position_le⟩
    by_cases atEnd : t.current scope.env = .eof
    · exact .inl ⟨by simp [bare, atEnd],
        heads.kept ((kept (tried.current.trans atEnd)).trans tried.events)⟩
    · exact .inr ⟨bare.mpr ⟨mode, atEnd⟩, ended, after'.toPasses.strays (tried.heads heads)
        (same ▸ moved) later.toPasses (swallowed (tried.current ▸ atEnd))⟩

end LosslessJava.Grammar
