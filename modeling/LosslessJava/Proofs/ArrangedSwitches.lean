import LosslessJava.Proofs.ArrangedRules

/-! The rules of switch blocks. A label leads on to what its end makes of it, an entry holds what its first label
asks for, and a block holds entries. -/

namespace LosslessJava.Grammar

open LosslessJava.Parser
open LosslessJava.Parser.State (Arranges failures_grow)

set_option synthInstance.maxSize 2000

variable {setting : Setting Nonterminal} [arranged : Arranged setting] {quiet : Bool} {α : Type}

section Parts

instance : Arranging setting quiet anyExpression := by
  unfold anyExpression
  infer_instance

instance : Arranging setting quiet condition := by
  unfold condition
  infer_instance

instance : Arranging setting quiet exprStmt := by
  unfold exprStmt exprAndSemicolon
  infer_instance

instance {node : Completed} : Arranging setting quiet (guardedPattern node) := by
  unfold guardedPattern
  infer_instance

instance : Arranging setting quiet caseItem := by
  unfold caseItem
  refine .andThen fun _ => ?_
  split
  · infer_instance
  · refine .andThen fun _ => ?_
    split
    · refine .andThen fun found => ?_
      split <;> infer_instance
    · infer_instance

instance : Arranging setting quiet labelHead := by
  unfold labelHead caseItems optionalGuard
  infer_instance

instance : Arranging setting quiet seesLabel := by
  unfold seesLabel
  infer_instance

omit arranged in
instance {env : Env} : Views env seesLabel fun cursor => cursor.nth 0 == .caseKw || cursor.nth 0 == .defaultKw :=
  inferInstanceAs (Views env (sees .caseKw <||> sees .defaultKw) _)

instance : Arranging setting quiet ruleBody := by
  unfold ruleBody
  refine .andThen fun kind => ?_
  split <;> infer_instance

instance : Arranging setting quiet groupStatements := by
  unfold groupStatements
  infer_instance

end Parts

section Labels

variable {calls steps : Nat} {errors : Errors} {form : Option Kind} {s t : State}

private theorem told_of_report {env : Env} {issue : Issue} (lenient : env.options.mode = .lenient) (fit : s.Fit env)
    (more : s.current env ≠ .eof) (run : s.report env issue = .ok t) : (t.failures env).told s.position := by
  unfold State.report at run
  simp only [lenient, reduceCtorEq, if_false] at run
  split at run
  · next told =>
    cases run
    have lost : s.recovery ≠ .abandoned := fit.good.not_abandoned more
    simp only [State.isTold, State.count, Bool.or_eq_true, beq_iff_eq, lost, false_or, Bool.and_eq_true] at told
    obtain ⟨-, last⟩ := told
    obtain ⟨d, back, same⟩ := Option.map_eq_some_iff.mp last
    have member : d ∈ s.diagnostics.toList := by
      rw [← Array.getLast?_toList] at back
      exact List.mem_of_getLast? back
    exact ⟨d, member, by rw [fit.ranged d member, same]⟩
  · cases run
    refine ⟨s.count.diagnose env issue, by simp [State.tell], State.range_diagnose issue⟩

omit arranged in
private theorem consume_of_runs {kind : Kind} (run : Program.Runs setting.env setting.rules calls (consume kind) s (.ok ((), t)) steps) :
    s.current setting.env = kind ∧ t = s.pushToken setting.env kind 1 := by
  have run := Result.of_done (act_of_runs run).symm
  unfold State.consume at run
  split at run
  · next here =>
    cases run
    exact ⟨here, rfl⟩
  · cases run

/-- The end of a label is consumed, and told of if it is not as the form says. Or there is an error in its place. -/
theorem terminator_terminates : Terminating setting form (terminator form) where
  ends {calls s answer t steps} same run fit errors grow := by
    obtain ⟨found, u, _, _, looked, run⟩ := bind_of_runs run rfl
    obtain ⟨found, tried⟩ := views_of_runs looked
    have fit := tried.fit fit
    have still : s.Arranges errors (.label form) (.label form) u := .of_events tried.events
    split at run
    · next seen =>
      obtain ⟨kind, v, _, _, looked, run⟩ := bind_of_runs run rfl
      obtain ⟨here, tried'⟩ := views_of_runs looked
      have fit := tried'.fit fit
      have still := still.trans (Arranges.of_events tried'.events)
      have current : v.current setting.env = kind := by
        rw [here, tried'.current]
        rfl
      have ends : kind.endsLabel = true := by
        have same : kind = s.current setting.env := current.symm.trans (tried'.current.trans tried.current)
        rw [found] at seen
        rcases Bool.or_eq_true_iff.mp seen with colon | arrow
        · rw [same.trans (eq_of_beq colon)]
        · rw [same.trans (eq_of_beq arrow)]
      have more : v.current setting.env ≠ .eof := by
        rw [current]
        rintro rfl
        cases ends
      have place := fit.rawCount_eq more
      dsimp only at run
      split at run
      · next established =>
        obtain ⟨_, w, _, _, consumed, last⟩ := bind_of_runs run rfl
        cases pure_of_runs last
        obtain ⟨-, rfl⟩ := consume_of_runs consumed
        exact ⟨some kind, .ended (form.getD kind) kind, fun _ => .label, rfl,
          still.trans (State.pushEnd_arranges ends fun mixed => absurd established mixed)⟩
      · obtain ⟨_, w, _, _, reported, run⟩ := bind_of_runs run rfl
        obtain ⟨_, x, _, _, consumed, last⟩ := bind_of_runs run rfl
        cases pure_of_runs last
        have reported := Result.of_done (act_of_runs reported).symm
        have told := told_of_report arranged.lenient fit more reported
        obtain ⟨-, rfl⟩ := consume_of_runs consumed
        have kept : w.events = v.events := by
          obtain ⟨w', reported', -, -, kept⟩ := State.report_lenient fit.good arranged.lenient (.mixedLabels kind (form.getD kind))
          cases reported'.symm.trans reported
          exact kept
        refine ⟨some kind, .ended (form.getD kind) kind, fun _ => .label, rfl,
          still.trans (Arranges.of_events kept |>.trans (State.pushEnd_arranges ends fun _ => grow.told _ ?_))⟩
        rw [kept, place]
        exact told
    · obtain ⟨_, v, _, _, missed, last⟩ := bind_of_runs run rfl
      cases pure_of_runs last
      obtain ⟨found, w, _, _, looked, reported⟩ := bind_of_runs missed rfl
      have missing := State.report_counts (Result.of_done (act_of_runs reported).symm)
      refine ⟨none, .label form, fun _ => .endless (grow.any (Nat.lt_of_le_of_lt (Nat.zero_le _) missing)), rfl,
        still.trans (Arranging.arranges same missed rfl fit grow (rfl : Site.Hosts true (.label form)))⟩

/-- A label adds one end to those of its entry, and answers the kind that the end stands for. -/
theorem switchLabel_arranges {answer : Kind × Option Kind} (same : calls = setting.calls)
    (run : Program.Runs setting.env setting.rules calls (switchLabel form) s (.ok (answer, t)) steps) (fit : s.Fit setting.env)
    (grow : (t.failures setting.env).Grow errors) (ends : List (Option Kind)) :
    ∃ ending, s.Arranges errors (.entry form ends true) (.entry answer.2 (ends ++ [ending]) true) t ∧
      answer.1 = ending.getD (form.getD .colon) := by
  obtain ⟨mark, s', _, _, begun, run⟩ := bind_of_runs run rfl
  obtain ⟨answer', u, _, _, ran, finished⟩ := bind_of_runs run rfl
  obtain ⟨rfl, rfl⟩ := start_of_runs begun
  have fit := fit.later arranged.regular begun (State.Fit.start_tight fit)
  obtain ⟨_, v, _, _, head, ran⟩ := bind_of_runs ran rfl
  obtain ⟨told, w, _, _, ended, last⟩ := bind_of_runs ran rfl
  cases pure_of_runs last
  obtain ⟨_, x, _, _, discarded, last⟩ := bind_of_runs finished rfl
  obtain ⟨_, y, _, _, closed, still⟩ := bind_of_runs discarded rfl
  have grow' := (failures_grow finished).trans grow
  cases pure_of_runs still
  cases pure_of_runs last
  have before : Arranges errors (.label form) s.start (.label form) v :=
    Arranging.arranges same head rfl fit ((failures_grow ended).trans grow') (rfl : Site.Hosts true (.label form))
  obtain ⟨ending, inside, around, given, within⟩ :=
    (arranged.terminator form).ends same ended (fit.later arranged.regular head (before.tight fit.tight)) grow'
  exact ⟨ending, State.complete_arranges State.start_opens (before.trans within) (complete_of_runs closed)
    (around ends) (fun _ whole => by cases whole), given⟩

private theorem arranges_behind {rule : Rule α} [anywhere : Arranging setting false rule] {a : α} (site : Site)
    (steady : ∀ scope : Scope, Steady scope 4 rule) (same : calls = setting.calls)
    (run : Program.Runs setting.env setting.rules calls rule s (.ok (a, t)) steps) (fit : s.Fit setting.env)
    (grow : (t.failures setting.env).Grow errors) (hosts : site.settled.Hosts false) :
    s.Arranges errors site site.settled t ∨ s.Arranges errors site site t := by
  refine (anywhere.arranges same run rfl fit grow hosts).behind ?_
  refine State.Passes.fresh ?_ fit.tight
  rw [arranged.rules] at run
  have room : (Scope.root arranged.regular).Room 4 s.position := by
    simp only [Scope.Room, Scope.root]
    omega
  cases steady (Scope.root arranged.regular) s.position room s fit.good rfl with
  | gives ran holds =>
    cases run.exec_eq.symm.trans ran.exec_eq
    exact holds.1.toPasses
  | halts ran => cases run.exec_eq.symm.trans ran.exec_eq
  | sticks cause => cases run.exec_eq.symm.trans (exec_eq_none_of_sticks cause)

private theorem entry_arranges_behind {rule : Rule α} [Arranging setting false rule] {a : α} {ends : List (Option Kind)} {behind : Bool}
    (steady : ∀ scope : Scope, Steady scope 4 rule) (same : calls = setting.calls)
    (run : Program.Runs setting.env setting.rules calls rule s (.ok (a, t)) steps) (fit : s.Fit setting.env)
    (grow : (t.failures setting.env).Grow errors) :
    ∃ behind', s.Arranges errors (.entry form ends behind) (.entry form ends behind') t :=
  (arranges_behind (.entry form ends behind) steady same run fit grow rfl).elim (⟨_, ·⟩) (⟨_, ·⟩)

private theorem block_arranges_behind {rule : Rule α} [Arranging setting false rule] {a : α} {behind : Bool}
    (steady : ∀ scope : Scope, Steady scope 4 rule) (same : calls = setting.calls)
    (run : Program.Runs setting.env setting.rules calls rule s (.ok (a, t)) steps) (fit : s.Fit setting.env)
    (grow : (t.failures setting.env).Grow errors) :
    ∃ behind', s.Arranges errors (.block form behind) (.block form behind') t :=
  (arranges_behind (.block form behind) steady same run fit grow rfl).elim (⟨_, ·⟩) (⟨_, ·⟩)

private theorem moreLabels_arranges {last : Option Kind} (same : calls = setting.calls)
    (run : Program.Runs setting.env setting.rules calls (moreLabels form) s (.ok (last, t)) steps) (fit : s.Fit setting.env)
    (grow : (t.failures setting.env).Grow errors) (ends : List (Option Kind)) :
    ∃ more, s.Arranges errors (.entry form ends true) (.entry last (ends ++ more) true) t := by
  refine (run.loop_induction (motive := fun form s r _ => r = .ok (last, t) →
    (s.failures setting.env).Grow (t.failures setting.env) ∧ ∀ ends, s.Fit setting.env →
      ∃ more, s.Arranges errors (.entry form ends true) (.entry last (ends ++ more) true) t)
    (fun {form s u n} round given => ?leaves) (fun _ given => by cases given)
    (fun {form next s u r m n} round _ _ later given => ?goes) rfl).2 ends fit
  case leaves =>
    cases given
    refine ⟨failures_grow round, fun ends fit => ⟨[], ?_⟩⟩
    obtain ⟨label, v, _, _, looked, round⟩ := bind_of_runs round rfl
    obtain ⟨-, tried⟩ := views_of_runs looked
    split at round
    · obtain ⟨_, _, _, _, _, last⟩ := bind_of_runs round rfl
      cases pure_of_runs last
    · cases pure_of_runs round
      rw [List.append_nil]
      exact .of_events tried.events
  case goes =>
    obtain ⟨grows, arranges⟩ := later given
    refine ⟨(failures_grow round).trans grows, fun ends fit => ?_⟩
    obtain ⟨label, v, _, _, looked, round⟩ := bind_of_runs round rfl
    obtain ⟨-, tried⟩ := views_of_runs looked
    split at round
    · obtain ⟨answer, w, _, _, labelled, last⟩ := bind_of_runs round rfl
      cases pure_of_runs last
      have fit := tried.fit fit
      obtain ⟨ending, before, -⟩ := switchLabel_arranges same labelled fit (grows.trans grow) ends
      obtain ⟨more, arranges⟩ := arranges (ends ++ [ending]) (fit.later arranged.regular labelled (before.tight fit.tight))
      rw [List.append_assoc] at arranges
      exact ⟨_, (Arranges.of_events tried.events).trans (before.trans arranges)⟩
    · cases pure_of_runs round

private theorem switchEntry_arranges {last : Option Kind} {behind : Bool} (same : calls = setting.calls)
    (run : Program.Runs setting.env setting.rules calls (switchEntry form) s (.ok (last, t)) steps) (fit : s.Fit setting.env)
    (grow : (t.failures setting.env).Grow errors) :
    s.Arranges errors (.block form behind) (.block last true) t := by
  obtain ⟨mark, s', _, _, begun, run⟩ := bind_of_runs run rfl
  obtain ⟨answer', u, _, _, ran, finished⟩ := bind_of_runs run rfl
  obtain ⟨rfl, rfl⟩ := start_of_runs begun
  have fit := fit.later arranged.regular begun fit.start_tight
  obtain ⟨_, v, _, _, labelled, ran⟩ := bind_of_runs ran rfl
  obtain ⟨_, x, _, _, discarded, still⟩ := bind_of_runs finished rfl
  obtain ⟨_, y, _, _, closed, still'⟩ := bind_of_runs discarded rfl
  have grow := (failures_grow finished).trans grow
  cases pure_of_runs still'
  cases pure_of_runs still
  obtain ⟨ending, before, given⟩ := switchLabel_arranges same labelled fit ((failures_grow ran).trans grow) []
  have fit := fit.later arranged.regular labelled (before.tight fit.tight)
  dsimp only at ran
  split at ran
  · next arrow =>
    obtain ⟨_, w, _, _, body, last⟩ := bind_of_runs ran rfl
    cases pure_of_runs last
    obtain ⟨behind', later⟩ := entry_arranges_behind (fun _ => ruleBody_steady) same body fit grow
    refine State.complete_arranges State.start_opens (before.trans later) (complete_of_runs closed) (.rule ?_) fun _ whole => by cases whole
    rintro rfl
    cases given.symm.trans arrow
  · next colon =>
    obtain ⟨_, w, _, _, labels, ran⟩ := bind_of_runs ran rfl
    obtain ⟨_, x, _, _, body, last⟩ := bind_of_runs ran rfl
    cases pure_of_runs last
    obtain ⟨more, between⟩ := moreLabels_arranges same labels fit ((failures_grow body).trans grow) [ending]
    have fit := fit.later arranged.regular labels (between.tight fit.tight)
    obtain ⟨behind', later⟩ := entry_arranges_behind (fun _ => groupStatements_steady) same body fit grow
    refine State.complete_arranges State.start_opens (before.trans (between.trans later)) (complete_of_runs closed) (.group ?_)
      fun _ whole => by cases whole
    rintro rfl
    exact colon given

private theorem entryOrError_arranges {last : Option Kind} {behind : Bool} (same : calls = setting.calls)
    (run : Program.Runs setting.env setting.rules calls (entryOrError form) s (.ok (last, t)) steps) (fit : s.Fit setting.env)
    (grow : (t.failures setting.env).Grow errors) :
    ∃ behind', s.Arranges errors (.block form behind) (.block last behind') t := by
  obtain ⟨label, u, _, _, looked, run⟩ := bind_of_runs run rfl
  obtain ⟨-, tried⟩ := views_of_runs looked
  have fit := tried.fit fit
  split at run
  · exact ⟨true, (Arranges.of_events tried.events).trans (switchEntry_arranges same run fit grow)⟩
  · obtain ⟨_, v, _, _, missed, still⟩ := bind_of_runs run rfl
    cases pure_of_runs still
    obtain ⟨behind', arranges⟩ := block_arranges_behind (fun _ => .expectedThenRecover _ _) same missed fit grow
    exact ⟨behind', (Arranges.of_events tried.events).trans arranges⟩

private theorem nextEntry_arranges {next : Option (Option Kind)} {behind : Bool} (same : calls = setting.calls)
    (run : Program.Runs setting.env setting.rules calls (nextEntry form) s (.ok (next, t)) steps) (fit : s.Fit setting.env)
    (grow : (t.failures setting.env).Grow errors) :
    ∃ behind', s.Arranges errors (.block form behind) (.block (next.getD form) behind') t := by
  obtain ⟨ended, u, _, _, looked, run⟩ := bind_of_runs run rfl
  obtain ⟨-, tried⟩ := views_of_runs looked
  split at run
  · cases pure_of_runs run
    exact ⟨behind, .of_events tried.events⟩
  · obtain ⟨before, v, _, _, looked, run⟩ := bind_of_runs run rfl
    obtain ⟨-, placed⟩ := views_of_runs looked
    have fit := (tried.trans placed).fit fit
    obtain ⟨last, w, _, _, entry, run⟩ := bind_of_runs run rfl
    obtain ⟨middle, enters⟩ := entryOrError_arranges same entry fit ((failures_grow run).trans grow)
    have fit := fit.later arranged.regular entry (enters.tight fit.tight)
    obtain ⟨after, x, _, _, looked, run⟩ := bind_of_runs run rfl
    obtain ⟨-, replaced⟩ := views_of_runs looked
    have arranges := (Arranges.of_events (tried.trans placed).events).trans (enters.trans (Arranges.of_events replaced.events))
    split at run
    · obtain ⟨kind, y, _, _, looked, run⟩ := bind_of_runs run rfl
      obtain ⟨-, seen⟩ := views_of_runs looked
      obtain ⟨_, z, _, _, skipped, still⟩ := bind_of_runs run rfl
      cases pure_of_runs still
      obtain ⟨behind', skips⟩ := block_arranges_behind
        (fun _ _ _ => (Keeps.reportAndSkip _).weaken fun _ _ _ _ => trivial) same skipped ((replaced.trans seen).fit fit) grow
      exact ⟨behind', arranges.trans ((Arranges.of_events seen.events).trans skips)⟩
    · cases pure_of_runs run
      exact ⟨_, arranges⟩

private theorem entries_arrange {last : Option Kind} {behind : Bool} (same : calls = setting.calls)
    (run : Program.Runs setting.env setting.rules calls (loopFrom form nextEntry) s (.ok (last, t)) steps)
    (fit : s.Fit setting.env) (grow : (t.failures setting.env).Grow errors) :
    ∃ behind', s.Arranges errors (.block form behind) (.block last behind') t := by
  refine (run.loop_induction (motive := fun form s r _ => r = .ok (last, t) →
    (s.failures setting.env).Grow (t.failures setting.env) ∧ ∀ behind, s.Fit setting.env →
      ∃ behind', s.Arranges errors (.block form behind) (.block last behind') t)
    (fun {form s u n} round given => ?leaves) (fun _ given => by cases given)
    (fun {form next s u r m n} round _ _ later given => ?goes) rfl).2 behind fit
  case leaves =>
    cases given
    exact ⟨failures_grow round, fun behind fit => nextEntry_arranges same round fit grow⟩
  case goes =>
    obtain ⟨grows, arranges⟩ := later given
    refine ⟨(failures_grow round).trans grows, fun behind fit => ?_⟩
    obtain ⟨middle, before⟩ := nextEntry_arranges same round fit (grows.trans grow)
    obtain ⟨behind', later⟩ := arranges middle (fit.later arranged.regular round (before.tight fit.tight))
    exact ⟨behind', before.trans later⟩

end Labels

/-- A block leads back to where it stands. -/
instance : Arranging setting quiet switchBlock := by
  unfold switchBlock
  refine .andThen fun found => ?_
  split
  · have block : Arranging setting quiet (node .switchBlock do
        consume .leftBrace
        discard <| loopFrom none nextEntry
        require .rightBrace) := .of_steps fun {calls s done t steps errors site} same run fit grow hosts => by
      obtain ⟨mark, s', _, _, begun, run⟩ := bind_of_runs run rfl
      obtain ⟨kind, u, _, _, ran, finished⟩ := bind_of_runs run rfl
      obtain ⟨rfl, rfl⟩ := start_of_runs begun
      have fit := fit.later arranged.regular begun fit.start_tight
      have grow := (failures_grow finished).trans grow
      obtain ⟨_, v, _, _, ran, last⟩ := bind_of_runs ran rfl
      cases pure_of_runs last
      obtain ⟨_, w, _, _, brace, ran⟩ := bind_of_runs ran rfl
      obtain ⟨_, x, _, _, entries, closing⟩ := bind_of_runs ran rfl
      obtain ⟨form, y, _, _, entries, last⟩ := bind_of_runs entries rfl
      cases pure_of_runs last
      have grow' := (failures_grow closing).trans grow
      have anywhere : Arranging setting false (consume .leftBrace) := inferInstance
      have first : Arranges errors (.block none false) s.start (.block none false) w :=
        anywhere.arranges same brace rfl fit ((failures_grow entries).trans grow') rfl
      have fit := fit.later arranged.regular brace (first.tight fit.tight)
      obtain ⟨behind, between⟩ := entries_arrange same entries fit grow'
      have fit := fit.later arranged.regular entries (between.tight fit.tight)
      obtain ⟨behind', later⟩ := block_arranges_behind (fun _ => .require (by decide)) same closing fit grow
      have around : Site.Around errors site .switchBlock (.block none false) (.block form behind') site.settled :=
        .block (hosts.settled_eq.symm ▸ hosts.loud)
      rw [hosts.settled_eq] at around
      exact State.complete_arranges State.start_opens (first.trans (between.trans later)) (complete_of_runs finished) around
        fun behind => by cases hosts.not_behind.symm.trans behind
    infer_instance
  · infer_instance

instance : Arranging setting quiet switchExpr := by
  unfold switchExpr
  infer_instance

end LosslessJava.Grammar
