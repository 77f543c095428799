import LosslessJava.Proofs.ModeRefinement

/-! What a run leaves of the errors it meets. Either it has met none that it did not take back, or its
first one is told. -/

namespace LosslessJava.Parser

namespace State

def Heard (s t : State) : Prop := Calm s t ∨ ∃ first, Tells s first t

variable {env : Env} {s t u : State}

private theorem Heard.andThen (heard : Heard s t) (normal : s.recovery = .normal)
    (later : t.recovery = .normal → Heard t u) (grows : Grows t u) : Heard s u := by
  rcases heard with calm | ⟨first, tells⟩
  · rcases later ((calm.recovery (by simp [normal])).trans normal) with calm' | ⟨first, tells⟩
    · exact .inl (calm.trans calm')
    · exact .inr ⟨first, tells.from calm.toQuiet⟩
  · exact .inr ⟨first, tells.later grows⟩

private theorem heard_report {issue : Issue} (normal : s.recovery = .normal) (run : s.report env issue = .ok t)
    (grows : Grows t u) : Heard s u := by
  obtain ⟨count, diagnostics, -⟩ := report_tells normal run
  have tells : Tells s (s.count.diagnose env issue) t :=
    ⟨count ▸ Nat.lt_succ_self _, by simp [diagnostics]⟩
  exact .inr ⟨_, tells.later grows⟩

private theorem heard_recover {recovery : KindSet} (normal : s.recovery = .normal) (run : s.recover env recovery = .ok u) :
    Heard s u := by
  rcases recover_from run with rfl | ⟨-, t, quiet, settled, run⟩
  · exact .inl .refl
  · rcases settleAt_from run with rfl | ⟨v, told, rfl⟩
    · exact .inl ⟨quiet, fun _ => settled.trans normal.symm⟩
    · rcases heard_report settled told ⟨Nat.le_refl _, List.prefix_refl _⟩ with calm | ⟨first, tells⟩
      · have more := report_tells settled told
        have same := calm.errorCount
        omega
      · refine .inr ⟨first, ⟨?_, ?_⟩⟩
        · exact quiet.errorCount ▸ tells.counted
        · exact quiet.diagnostics ▸ tells.told

end State

open State

variable {env : Env} {s t : State} {α : Type}

private theorem Action.heard {action : Action α} {a : α} (normal : s.recovery = .normal)
    (run : action.run env s = .ok (a, t)) : s.Heard t := by
  cases action with
  | cursor | noLambda | lookaheadLimit | allow | start =>
    cases run
    exact .inl ⟨⟨rfl, rfl⟩, fun _ => rfl⟩
  | join kind count =>
    cases run
    exact .inl (pushToken_calm _ _)
  | consumeAny =>
    cases run
    exact .inl consumeAny_calm
  | consume kind => exact .inl (consume_calm (Result.of_done run))
  | consumeAs keyword => exact .inl (consumeAs_calm (Result.of_done run))
  | release mark => exact .inl (release_calm (Result.of_done run))
  | report issue => exact heard_report normal (Result.of_done run) Calm.refl.grows
  | reportAndSkip issue =>
    obtain ⟨u, told, ⟨-, rfl⟩ | calm⟩ := reportAndSkip_from (Result.of_done run)
    · exact heard_report normal told Calm.refl.grows
    · exact heard_report normal told calm.grows
  | recover recovery => exact heard_recover normal (Result.of_done run)
  | complete mark kind =>
    obtain ⟨u, closed, same⟩ := map_eq_ok.mp run
    cases same
    exact .inl (complete_calm closed)
  | precede first =>
    obtain ⟨u, preceded, same⟩ := map_eq_ok.mp run
    cases same
    exact .inl (precede_calm preceded)

namespace Program

variable {N : Type → Type} {rules : (α : Type) → N α → Program N α}

private theorem heard_changed {s s' t t' : State} (heard : s'.Heard t)
    (outer : s'.errorCount = s.errorCount ∧ s'.diagnostics = s.diagnostics ∧ s'.recovery = s.recovery)
    (kept : t'.errorCount = t.errorCount ∧ t'.diagnostics = t.diagnostics ∧ t'.recovery = t.recovery) :
    s.Heard t' := by
  obtain ⟨count, diagnostics, recovery⟩ := outer
  obtain ⟨count', diagnostics', recovery'⟩ := kept
  rcases heard with calm | ⟨first, tells⟩
  · refine .inl ⟨⟨?_, ?_⟩, fun settled => ?_⟩
    · rw [count', calm.errorCount, count]
    · rw [diagnostics', calm.diagnostics, diagnostics]
    · rw [recovery', calm.recovery (recovery ▸ settled), recovery]
  · exact .inr ⟨first, by rw [count', ← count]; exact tells.counted, by
      rw [diagnostics', ← diagnostics]; exact tells.told⟩

/-- Of any run that starts without an error to overcome, the first error that was not taken back is
told. -/
theorem Evaluates.heard {rule : Program N α} {r : Result α} {a : α} (run : Evaluates env rules rule s r)
    (given : r = .ok (a, t)) (normal : s.recovery = .normal) : s.Heard t := by
  induction run generalizing t with
  | pure =>
    cases given
    exact .inl .refl
  | act => exact Action.heard normal given
  | bind first second ih ih' =>
    exact (ih rfl normal).andThen normal (fun normal => ih' given normal) (second.extends given).grows
  | bindHalt => cases given
  | loopEnd _ ih =>
    cases given
    exact ih rfl normal
  | loopNext _ rest ih ih' =>
    exact (ih rfl normal).andThen normal (fun normal => ih' given normal) (rest.extends given).grows
  | loopHalt => cases given
  | tooDeep =>
    obtain ⟨u, given_up, same⟩ := map_eq_ok.mp given
    cases same
    rcases abandonNested_from given_up with ⟨-, abandoned⟩ | ⟨v, issue, told, quiet, -⟩
    · cases normal.symm.trans abandoned
    · exact heard_report normal told quiet.grows
  | nested _ _ ih | withNoLambda _ ih =>
    obtain ⟨⟨b, u⟩, rfl, same⟩ := map_eq_ok.mp given
    cases same
    exact heard_changed (ih rfl normal) ⟨rfl, rfl, rfl⟩ ⟨rfl, rfl, rfl⟩
  | @speculate rule s' r _ ih =>
    obtain ⟨⟨b, u⟩, rfl, same⟩ := map_eq_ok.mp given
    change settle s' b u = (a, t) at same
    unfold settle at same
    split at same
    · cases same
      exact ih rfl normal
    · cases same
      exact .inl .refl
  | call _ ih => exact ih given normal

end Program

end LosslessJava.Parser
