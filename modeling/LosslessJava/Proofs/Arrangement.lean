import LosslessJava.Proofs.Rewinding
import LosslessJava.Proofs.Soundness
import LosslessJava.Proofs.SwitchSites

/-! What a run leads from and to, as far as switch blocks go. A rule that may stand anywhere leads back to where it
stands; what it takes for that is passed on by the ways to put rules together. -/

namespace LosslessJava.Parser

open Event (bares Targets Ordinary rawCount)

namespace State

def failures (env : Env) (s : State) : Errors where
  any := 0 < s.errorCount
  told index := ∃ d ∈ s.diagnostics.toList, d.range = (env.stream.tokenAt index).range

/-- What was recorded between two states leads from one site to another, and what points to a start in it points to
one that may stand anywhere. -/
structure Arranges (errors : Errors) (site : Site) (s : State) (last : Site) (t : State) : Prop where
  events : ∃ more, bares t.events = bares s.events ++ more ∧
    Event.Arranged errors (Targets t.events) site (rawCount (bares s.events)) s.events.size more last
  aimed : ∀ index, Targets t.events index → Targets s.events index ∨ s.events.size ≤ index ∧ Ordinary t.events index

def Tight (s : State) : Prop := ∀ index, Targets s.events index → index < s.events.size

variable {env : Env} {errors : Errors} {site middle last inside inside' : Site} {s t u opened : State} {kind : Kind}

private theorem Grows.failures (grows : Grows s t) : (s.failures env).Grow (t.failures env) where
  any some := Nat.lt_of_lt_of_le some grows.errorCount
  told _ told := by
    obtain ⟨d, member, same⟩ := told
    exact ⟨d, grows.diagnostics.subset member, same⟩

namespace Arranges

theorem of_events (events : t.events = s.events) : Arranges errors site s site t :=
  ⟨⟨[], by simp [events], .nil⟩, fun _ targets => .inl (events ▸ targets)⟩

theorem refl : Arranges errors site s site s := of_events rfl

theorem congr {s' t' : State} (arranges : Arranges errors site s last t) (before : s'.events = s.events)
    (after : t'.events = t.events) : Arranges errors site s' last t' := by
  obtain ⟨events, aimed⟩ := arranges
  rw [← before, ← after] at events aimed
  exact ⟨events, aimed⟩

private theorem size_le (arranges : Arranges errors site s last t) : s.events.size ≤ t.events.size := by
  obtain ⟨more, recorded, -⟩ := arranges.events
  have longer : t.events.size = s.events.size + more.length := by simpa using congrArg List.length recorded
  omega

theorem tight (arranges : Arranges errors site s last t) (tight : s.Tight) : t.Tight := by
  intro index targets
  rcases arranges.aimed index targets with before | ⟨-, kind, there, -⟩
  · exact Nat.lt_of_lt_of_le (tight index before) arranges.size_le
  · simpa using (List.getElem?_eq_some_iff.mp there).1

theorem trans (first : Arranges errors site s middle t) (second : Arranges errors middle t last u) :
    Arranges errors site s last u := by
  obtain ⟨more, recorded, arranged⟩ := first.events
  obtain ⟨more', recorded', arranged'⟩ := second.events
  have longer : t.events.size = s.events.size + more.length := by simpa using congrArg List.length recorded
  refine ⟨⟨more ++ more', by rw [recorded', recorded, List.append_assoc], .append (arranged.mono Errors.Grow.refl ?_) ?_⟩,
    fun index targets => ?_⟩
  · intro place _ stop targets
    rcases second.aimed place targets with before | ⟨late, -⟩
    · exact before
    · omega
  · rw [recorded, Event.rawCount_append, longer] at arranged'
    exact arranged'
  · rcases second.aimed index targets with before | ⟨late, ordinary⟩
    · rcases first.aimed index before with before | ⟨late, kind, there, ordinary⟩
      · exact .inl before
      · refine .inr ⟨late, kind, ?_, ordinary⟩
        rw [recorded', List.getElem?_append_left (List.getElem?_eq_some_iff.mp there).1, there]
    · exact .inr ⟨by omega, ordinary⟩

/-- What may stand at a site may stand behind a part of a switch block there, if nothing points to its start. -/
theorem behind (arranges : Arranges errors site.settled s site.settled t) (apart : ¬ Targets t.events s.events.size) :
    Arranges errors site s site.settled t ∨ Arranges errors site s site t := by
  obtain ⟨⟨more, recorded, arranged⟩, aimed⟩ := arranges
  rcases arranged.behind apart with arranged | ⟨rfl, -⟩
  · exact .inl ⟨⟨more, recorded, arranged⟩, aimed⟩
  · exact .inr ⟨⟨[], recorded, .nil⟩, aimed⟩

end Arranges

theorem Opens.tight {isOuter : Bool} (opens : Opens isOuter s opened) (tight : s.Tight) : opened.Tight := by
  have size : opened.events.size = s.events.size + 1 := by simpa using congrArg List.length opens.events
  intro index targets
  rcases opens.aimed index targets with before | ⟨-, rfl⟩
  · exact Nat.lt_trans (tight index before) (by omega)
  · omega

private theorem start_arranges (hosts : site.Hosts true) : Arranges errors site s site s.start := by
  refine ⟨⟨[.tombstone], by simp [start, Event.bare, Event.tombstone], .tombstone (hosts.settled_eq.symm ▸ hosts) ?_⟩,
    fun _ targets => .inl (Event.targets_push (by simp [Event.tombstone]) targets)⟩
  rw [hosts.settled_eq]
  exact .nil

theorem pushToken_arranges {count : Nat} (hosts : site.Hosts kind.isQuiet) :
    Arranges errors site s site (s.pushToken env kind count) := by
  refine ⟨⟨[.token kind count], by simp [pushToken, Event.bare], .token (hosts.settled_eq.symm ▸ hosts) ?_⟩,
    fun _ targets => .inl (Event.targets_push (by simp) targets)⟩
  rw [hosts.settled_eq]
  exact .nil

theorem pushEnd_arranges {form : Option Kind} (ends : kind.endsLabel = true)
    (mixed : form.getD kind ≠ kind → errors.told (rawCount (bares s.events))) :
    Arranges errors (.label form) s (.ended (form.getD kind) kind) (s.pushToken env kind 1) :=
  ⟨⟨[.token kind 1], by simp [pushToken, Event.bare], .ending ends mixed .nil⟩,
    fun _ targets => .inl (Event.targets_push (by simp) targets)⟩

theorem complete_arranges (opens : Opens kind.isOrdinary s opened) (inner : Arranges errors inside opened inside' t)
    (closed : t.complete s.mark kind = .ok u) (around : Site.Around errors site kind inside inside' last)
    (apart : site.isBehind = true → kind.isPart = false → ¬ Targets t.events s.events.size) :
    Arranges errors site s last u := by
  obtain ⟨more, recorded, arranged⟩ := inner.events
  have size : opened.events.size = s.events.size + 1 := by simpa using congrArg List.length opens.events
  have count : rawCount (bares opened.events) = rawCount (bares s.events) := by
    simp [opens.events, Event.rawCount_append, rawCount, Event.tombstone]
  rw [count, size] at arranged
  rw [opens.events, List.append_assoc, List.singleton_append] at recorded
  unfold complete at closed
  split at closed
  · next kind' parent found =>
    cases closed
    have whole : bares ((t.events.setIfInBounds s.mark.position (.start kind parent)).push .finish) =
        bares s.events ++ .start kind none :: (more ++ [.finish]) := by
      have place : s.mark.position = (bares s.events).length := by simp [mark]
      rw [Event.bares_push, Event.bares_set, recorded, place, List.set_append_right _ _ (Nat.le_refl _), Nat.sub_self,
        List.set_cons_zero, List.append_assoc]
      rfl
    have before {index : Nat} (targets : Targets ((t.events.setIfInBounds s.mark.position (.start kind parent)).push .finish) index) :
        Targets t.events index := Event.targets_set found (Event.targets_push (by simp) targets)
    refine ⟨⟨_, whole, .node around (fun behind whole targets => apart behind whole (before targets))
      (arranged.mono Errors.Grow.refl fun _ _ _ => before) .nil⟩, fun index targets => ?_⟩
    rcases inner.aimed index (before targets) with early | ⟨late, kind'', there, ordinary⟩
    · rcases opens.aimed index early with stays | ⟨ordinary, same⟩
      · exact .inl stays
      · refine .inr ⟨Nat.le_of_eq same.symm, kind, ?_, ordinary⟩
        rw [whole, same, ← Event.length_bares, List.getElem?_append_right (Nat.le_refl _), Nat.sub_self]
        rfl
    · refine .inr ⟨by omega, kind'', ?_, ordinary⟩
      obtain ⟨past, rfl⟩ : ∃ past, index = (bares s.events).length + (past + 1) :=
        ⟨index - s.events.size - 1, by rw [Event.length_bares]; omega⟩
      rw [recorded, List.getElem?_append_right (by omega), Nat.add_sub_cancel_left, List.getElem?_cons_succ] at there
      rw [whole, List.getElem?_append_right (by omega), Nat.add_sub_cancel_left, List.getElem?_cons_succ,
        List.getElem?_append_left (List.getElem?_eq_some_iff.mp there).1, there]
  · cases closed

theorem complete_plain (ordinary : kind.isOrdinary = true) (hosts : site.Hosts true) (opens : Opens true s opened)
    (inner : Arranges errors .elsewhere opened .elsewhere t) (closed : t.complete s.mark kind = .ok u) :
    Arranges errors site s site u := by
  have around : Site.Around errors site kind .elsewhere .elsewhere site.settled := .plain ordinary (hosts.settled_eq.symm ▸ hosts)
  rw [hosts.settled_eq] at around
  exact complete_arranges (ordinary ▸ opens) inner closed around fun behind => by cases hosts.not_behind.symm.trans behind

private theorem release_arranges (hosts : site.Hosts true) (inner : Arranges errors site s.start last t)
    (released : t.release s.mark = .ok u) : Arranges errors site s last u := by
  unfold release at released
  split at released
  · next last' =>
    split at released
    · cases released
      obtain ⟨more, recorded, arranged⟩ := inner.events
      have size : t.events.size = s.events.size + 1 + more.length := by
        simpa [start, Nat.add_assoc, Nat.add_comm 1] using congrArg List.length recorded
      obtain rfl : more = [] := List.eq_nil_of_length_eq_zero (by simp only [mark] at last'; omega)
      cases arranged
      refine ⟨⟨[], ?_, .nil⟩, fun index targets => ?_⟩
      · have same : bares t.events.pop = (bares t.events).dropLast := by simp [bares]
        rw [same, recorded]
        simp [start]
      · obtain ⟨place, kind, distance, there, rfl⟩ := targets
        have within : place < t.events.size - 1 := by simpa using (Array.getElem?_eq_some_iff.mp there).1
        have before : Targets t.events (place + distance) := by
          refine ⟨place, kind, distance, ?_, rfl⟩
          rw [← there, Array.getElem?_pop, if_pos within]
        rcases inner.aimed _ before with early | ⟨late, kind', found, -⟩
        · exact .inl (Event.targets_push (by simp [Event.tombstone]) early)
        · have bound := (List.getElem?_eq_some_iff.mp found).1
          simp only [Event.length_bares, start, Array.size_push, List.length_nil] at bound late size
          omega
    · cases released
  · cases released
    exact (start_arranges hosts).trans inner

private theorem arranges_growth : Growth env (fun s t => Arranges errors .elsewhere s .elsewhere t) where
  trans := .trans
  still events _ _ := .of_events events
  push := pushToken_arranges trivial
  error inner closed := complete_plain rfl trivial start_opens inner closed

section Steps

variable (hosts : site.Hosts true)

include hosts

private theorem abandon_arranges (run : s.abandon env = .ok t) : Arranges errors site s site t := by
  unfold abandon at run
  split at run
  · cases run
    exact .refl
  · dsimp only at run
    split at run
    · cases run
      exact .of_events rfl
    · have given : Arranges errors site s site (s.withRecovery .abandoned) := .of_events rfl
      exact given.trans (complete_plain rfl hosts start_opens arranges_growth.consumeRest run)

private theorem report_arranges {issue : Issue} (run : s.report env issue = .ok t) : Arranges errors site s site t := by
  unfold report at run
  dsimp only at run
  split at run
  · cases run
    exact .of_events rfl
  · have told : Arranges errors site s site (s.count.tell env issue) := .of_events rfl
    split at run
    · exact told.trans (abandon_arranges hosts run)
    · cases run
      exact told

private theorem reportAndSkip_arranges {issue : Issue} (run : s.reportAndSkip env issue = .ok u) : Arranges errors site s site u := by
  obtain ⟨t, told, run⟩ := bind_eq_ok.mp run
  refine (report_arranges hosts told).trans ?_
  split at run
  · cases run
    exact .refl
  · exact complete_plain rfl hosts start_opens arranges_growth.consumeAny run

private theorem recover_arranges {recovery : KindSet} (run : s.recover env recovery = .ok u) : Arranges errors site s site u := by
  unfold recover at run
  split at run
  · cases run
    exact .refl
  · obtain ⟨skipped, closed, run⟩ := bind_eq_ok.mp run
    have lost : Arranges errors site s site (s.withRecovery .recovering) := .of_events rfl
    have passed := lost.trans (complete_plain rfl hosts start_opens (arranges_growth.skipTo recovery) closed)
    have settled : Arranges errors site skipped site (skipped.withRecovery .normal) := .of_events rfl
    rcases settleAt_from run with rfl | ⟨t, told, rfl⟩
    · exact passed.trans settled
    · exact passed.trans (settled.trans ((report_arranges hosts told).congr rfl rfl))

private theorem abandonNested_arranges (run : s.abandonNested env = .ok u) : Arranges errors site s site u := by
  unfold abandonNested at run
  split at run
  · cases run
    exact .refl
  · obtain ⟨t, told, run⟩ := bind_eq_ok.mp run
    exact (report_arranges hosts told).trans (abandon_arranges hosts run)

end Steps

/-- Nothing points to the first event of a whole stretch. -/
theorem Passes.fresh (passes : Passes s t) (tight : s.Tight) : ¬ Targets t.events s.events.size := by
  rintro ⟨place, kind, distance, found, same⟩
  obtain ⟨more, recorded, whole, -⟩ := passes.events
  rw [← Array.getElem?_toList, recorded, List.getElem?_append, Array.length_toList] at found
  split at found
  · next early =>
    exact absurd (tight _ ⟨place, kind, distance, by rwa [Array.getElem?_toList] at found, same⟩) (Nat.lt_irrefl _)
  · obtain ⟨-, body, rest, -, -, rfl⟩ := whole.fitting _ kind distance found
    omega

def Ranged (env : Env) (s : State) : Prop := ∀ d ∈ s.diagnostics.toList, d.range = (env.stream.tokenAt d.tokenIndex).range

theorem Quiet.ranged (quiet : Quiet s t) (ranged : s.Ranged env) : t.Ranged env := by
  rw [Ranged, quiet.diagnostics]
  exact ranged

theorem range_diagnose (issue : Issue) : (s.diagnose env issue).range = (env.stream.tokenAt s.position).range := by
  simp only [diagnose, TokenCursor.nthToken, TokenCursor.index, cursor, TokenStream.tokenAt, Nat.add_zero, Nat.min_assoc,
    Nat.min_self]

private theorem tell_ranged {issue : Issue} (ranged : s.Ranged env) : (s.tell env issue).Ranged env := by
  intro d member
  rw [tell, Array.toList_push] at member
  rcases List.mem_append.mp member with before | last
  · exact ranged d before
  · obtain rfl := List.mem_singleton.mp last
    exact range_diagnose issue

private theorem report_ranged {issue : Issue} (ranged : s.Ranged env) (run : s.report env issue = .ok t) : t.Ranged env := by
  unfold report at run
  dsimp only at run
  split at run
  · cases run
    exact ranged
  · have told : (s.count.tell env issue).Ranged env := tell_ranged (s := s.count) ranged
    split at run
    · exact (abandon_quiet run).1.ranged told
    · cases run
      exact told

private theorem settleAt_ranged {recovery : KindSet} (ranged : s.Ranged env) (run : s.settleAt env recovery = .ok t) : t.Ranged env := by
  rcases settleAt_from run with rfl | ⟨u, told, rfl⟩
  · exact ranged
  · have told := report_ranged ranged told
    exact told

private theorem abandonNested_ranged (ranged : s.Ranged env) (run : s.abandonNested env = .ok t) : t.Ranged env := by
  rcases abandonNested_from run with ⟨rfl, -⟩ | ⟨u, issue, told, quiet, -⟩
  · exact ranged
  · exact quiet.ranged (report_ranged ranged told)

end State

open State

private theorem ranged_invariant (env : Env) : Invariant env (fun _ => True) (Ranged env) where
  act {_ action a s t} _ ranged run := by
    cases action with
    | cursor | noLambda | lookaheadLimit | allow | start =>
      cases run
      exact ranged
    | join =>
      cases run
      exact ranged
    | consumeAny =>
      cases run
      exact consumeAny_calm.toQuiet.ranged ranged
    | consume => exact (consume_calm (Result.of_done run)).toQuiet.ranged ranged
    | consumeAs => exact (consumeAs_calm (Result.of_done run)).toQuiet.ranged ranged
    | report => exact report_ranged ranged (Result.of_done run)
    | reportAndSkip =>
      obtain ⟨u, told, ⟨-, rfl⟩ | calm⟩ := reportAndSkip_from (Result.of_done run)
      · exact report_ranged ranged told
      · exact calm.toQuiet.ranged (report_ranged ranged told)
    | recover =>
      rcases recover_from (Result.of_done run) with rfl | ⟨-, u, quiet, -, settled⟩
      · exact ranged
      · exact settleAt_ranged (quiet.ranged ranged) settled
    | complete =>
      obtain ⟨u, closed, same⟩ := map_eq_ok.mp run
      cases same
      exact (complete_calm closed).toQuiet.ranged ranged
    | release => exact (release_calm (Result.of_done run)).toQuiet.ranged ranged
    | precede =>
      obtain ⟨u, preceded, same⟩ := map_eq_ok.mp run
      cases same
      exact (precede_calm preceded).toQuiet.ranged ranged
  tooDeep ranged run := abandonNested_ranged ranged run
  depth _ ranged := ranged
  noLambda _ ranged := ranged

private theorem placed_invariant (env : Env) : Invariant env (fun _ => True) (Placed env) where
  act {_ action _ s t} _ placed run := by
    have records : s.Records env (fun _ => True) t := Action.run_records run (by cases action <;> trivial)
    exact records.placed placed
  tooDeep {s t} placed run := by
    have records : s.Records env (fun _ => True) t := growth.abandonNested run
    exact records.placed placed
  depth _ placed := placed
  noLambda _ placed := placed

structure State.Fit (env : Env) (s : State) : Prop where
  good : s.Good env
  placed : s.Placed env
  ranged : s.Ranged env
  tight : s.Tight

section Runs

open Program (Runs)

variable {N : Type → Type} {env : Env} {rules : (α : Type) → N α → Program N α} {α : Type} {rule : Program N α}
  {calls steps : Nat} {errors : Errors} {site last : Site} {s t : State} {a : α}

theorem State.failures_grow (run : Runs env rules calls rule s (.ok (a, t)) steps) : (s.failures env).Grow (t.failures env) :=
  ((Program.evaluates_of_exec run.exec_eq).extends rfl).grows.failures

namespace State.Fit

theorem later (fit : s.Fit env) (regular : env.stream.Regular) (run : Runs env rules calls rule s (.ok (a, t)) steps)
    (tight : t.Tight) : t.Fit env := by
  have keeps {Holds : State → Prop} (invariant : Invariant env (fun _ => True) Holds) (before : Holds s) : Holds t :=
    (Program.evaluates_of_exec run.exec_eq).keeps invariant (fun name _ => Program.uses_any (rules _ name))
      (Program.uses_any rule) rfl before
  exact {
    good := keeps (good_invariant regular) fit.good
    placed := keeps (placed_invariant env) fit.placed
    ranged := keeps (ranged_invariant env) fit.ranged
    tight }

private theorem enter (fit : s.Fit env) : s.enter.Fit env := ⟨fit.good.enter, fit.placed, fit.ranged, fit.tight⟩

private theorem withNoLambda (fit : s.Fit env) (noLambda : Bool) : (s.withNoLambda noLambda).Fit env :=
  ⟨fit.good.withNoLambda noLambda, fit.placed, fit.ranged, fit.tight⟩

theorem start_tight (fit : s.Fit env) : s.start.Tight := by
  have opens : Opens true s s.start := start_opens
  exact opens.tight fit.tight

/-- Up to a token that is not the end of input, the position counts the tokens recorded. -/
theorem rawCount_eq (fit : s.Fit env) (more : s.current env ≠ .eof) : rawCount (bares s.events) = s.position := by
  have inside := position_succ_lt more
  have placed := fit.placed
  have count : rawCount (bares s.events) = s.taken := by
    rw [bares, Event.rawCount_bare, taken, tokens, Event.sum_tokens]
  rw [Placed] at placed
  omega

end State.Fit

end Runs

class Forgiving {N : Type → Type} (setting : Setting N) : Prop where
  regular : setting.env.stream.Regular
  lenient : setting.env.options.mode = .lenient

open Program (Runs)

class Arranging {N : Type → Type} (setting : Setting N) (quiet : Bool) {α : Type} (rule : Program N α) : Prop where
  arranges : ∀ {calls s a t r steps}, calls = setting.calls → Runs setting.env setting.rules calls rule s r steps →
    r = .ok (a, t) → s.Fit setting.env → ∀ {errors site}, (t.failures setting.env).Grow errors → site.Hosts quiet →
      s.Arranges errors site site t

variable {N : Type → Type} {setting : Setting N} {quiet : Bool} {α β : Type}

@[reducible] def ordinaryIf : Option Kind → Bool
  | some kind => kind.isOrdinary
  | none => true

instance {rule : Program N Kind} [told : Tells Kind.isOrdinary rule] :
    Tells ordinaryIf (rule >>= fun kind => Pure.pure (some kind)) := .told told fun _ ordinary => .of_pure ordinary

namespace Arranging

open State

theorem of_steps {rule : Program N α} (one : ∀ {calls s a t steps errors site}, calls = setting.calls →
    Runs setting.env setting.rules calls rule s (.ok (a, t)) steps → s.Fit setting.env →
    (t.failures setting.env).Grow errors → site.Hosts quiet → s.Arranges errors site site t) : Arranging setting quiet rule where
  arranges same run given fit _ _ grow hosts := by
    subst given
    exact one same run fit grow hosts

theorem loud {rule : Program N α} (arranging : Arranging setting true rule) : Arranging setting false rule where
  arranges same run given fit _ _ grow hosts := arranging.arranges same run given fit grow hosts.loud

instance {a : α} : Arranging setting quiet (Pure.pure a : Program N α) where
  arranges _ run given _ _ _ _ _ := by
    cases run
    cases given
    exact .refl

private theorem of_act {action : Action α} (one : ∀ {s a t errors site}, site.Hosts quiet → action.run setting.env s = .ok (a, t) →
    State.Arranges errors site s site t) : Arranging setting quiet (.act action : Program N α) where
  arranges _ run given _ _ _ _ hosts := by
    cases run
    exact one hosts given

variable [forgiving : Forgiving setting]

theorem told {first : Program N β} {next : β → Program N α} {test : β → Bool} (one : Arranging setting quiet first)
    (tells : Tells test first) (two : ∀ b, test b = true → Arranging setting quiet (next b)) :
    Arranging setting quiet (first >>= next) where
  arranges same run given fit _ _ grow hosts := by
    cases run with
    | bind ran later =>
      subst given
      have before := one.arranges same ran rfl fit ((failures_grow later).trans grow) hosts
      exact before.trans ((two _ (tells.passes ran rfl)).arranges same later rfl (fit.later forgiving.regular ran (before.tight fit.tight)) grow hosts)
    | bindHalt => cases given

theorem andThen {first : Program N β} {next : β → Program N α} [one : Arranging setting quiet first]
    (two : ∀ b, Arranging setting quiet (next b)) : Arranging setting quiet (first >>= next) :=
  @told _ _ _ _ _ _ first next (fun _ => true) one ⟨fun _ _ => rfl⟩ fun b _ => two b

instance {first : Program N β} {next : β → Program N α} [Arranging setting quiet first]
    [two : ∀ b, Arranging setting quiet (next b)] : Arranging setting quiet (first >>= next) := andThen two

instance {c : Prop} [Decidable c] {yes no : Program N α} [one : Arranging setting quiet yes]
    [other : Arranging setting quiet no] : Arranging setting quiet (if c then yes else no) := by
  split
  · exact one
  · exact other

instance {a : α} {step : α → Program N (Option α)} [round : ∀ a, Arranging setting quiet (step a)] :
    Arranging setting quiet (loopFrom a step) := of_steps fun {calls s b t steps errors site} same run fit grow hosts => by
  refine (run.loop_induction (motive := fun _ s r _ => r = .ok (b, t) →
    (s.failures setting.env).Grow (t.failures setting.env) ∧ (s.Fit setting.env → s.Arranges errors site site t))
    (fun {a s u n} ran given => ?leaves) (fun _ given => by cases given) (fun {a b s u r m n} ran _ _ later given => ?goes) rfl).2 fit
  case leaves =>
    cases given
    exact ⟨failures_grow ran, fun fit => (round _).arranges same ran rfl fit grow hosts⟩
  case goes =>
    obtain ⟨grows, arranges⟩ := later given
    refine ⟨(failures_grow ran).trans grows, fun fit => ?_⟩
    have before := (round a).arranges same ran rfl fit (grows.trans grow) hosts
    exact before.trans (arranges (fit.later forgiving.regular ran (before.tight fit.tight)))

omit forgiving in
theorem deeper {otherwise : α} {rule : Program N α} (inner : Arranging setting quiet rule) :
    Arranging setting quiet (nested otherwise rule) where
  arranges same run given fit _ _ grow hosts := by
    cases run with
    | tooDeep =>
      obtain ⟨u, abandoned, same⟩ := map_eq_ok.mp given
      cases same
      exact abandonNested_arranges hosts.loud abandoned
    | nested _ ran =>
      obtain ⟨⟨b, u⟩, rfl, same'⟩ := map_eq_ok.mp given
      cases same'
      exact (inner.arranges same ran rfl fit.enter grow hosts).congr rfl rfl

instance {otherwise : α} {rule : Program N α} [inner : Arranging setting quiet rule] :
    Arranging setting quiet (nested otherwise rule) := deeper inner

instance {noLambda : Bool} {rule : Program N α} [inner : Arranging setting quiet rule] :
    Arranging setting quiet (withNoLambda noLambda rule) where
  arranges same run given fit _ _ grow hosts := by
    cases run with
    | withNoLambda ran =>
      obtain ⟨⟨b, u⟩, rfl, same'⟩ := map_eq_ok.mp given
      cases same'
      exact (inner.arranges same ran rfl (fit.withNoLambda noLambda) grow hosts).congr rfl rfl

omit forgiving in
theorem tried {rule : Program N (Option Completed)} (inner : Arranging setting quiet rule) :
    Arranging setting quiet (speculate rule) where
  arranges same run given fit _ _ grow hosts := by
    cases run with
    | speculate ran =>
      obtain ⟨⟨b, u⟩, rfl, settled⟩ := map_eq_ok.mp given
      replace settled : Program.settle _ b u = (_, _) := settled
      unfold Program.settle at settled
      split at settled
      · cases settled
        exact inner.arranges same ran rfl fit grow hosts
      · cases settled
        exact .refl

section Nodes

theorem opened (inside : Bool) {opener : Program N Mark} {rule : Program N β} {finish : Mark → β → Program N α} (test : β → Bool)
    (Opened : State → State → Prop) (sound : ∀ {s t}, Opened s t → Opens true s t)
    (opens : ∀ {calls s mark t steps}, Runs setting.env setting.rules calls opener s (.ok (mark, t)) steps →
      mark = s.mark ∧ Opened s t)
    [inner : Arranging setting inside rule] [tells : Tells test rule]
    (closes : ∀ {calls b s opened t a u steps errors site}, test b = true → Opened s opened →
      (∀ {within : Site}, within.Hosts inside → Arranges errors within opened within t) → site.Hosts quiet →
      Runs setting.env setting.rules calls (finish s.mark b) t (.ok (a, u)) steps → Arranges errors site s site u) :
    Arranging setting quiet (opener >>= fun mark => rule >>= finish mark) :=
  of_steps fun same run fit grow hosts => by
    obtain ⟨mark, s', _, _, begun, run⟩ := bind_of_runs run rfl
    obtain ⟨b, t', _, _, ran, closed⟩ := bind_of_runs run rfl
    obtain ⟨rfl, opened⟩ := opens begun
    have fit := fit.later forgiving.regular begun ((sound opened).tight fit.tight)
    exact closes (tells.passes ran rfl) opened
      (fun hosts => inner.arranges same ran rfl fit ((failures_grow closed).trans grow) hosts) hosts closed

theorem started (inside : Bool) {rule : Program N β} {finish : Mark → β → Program N α} (test : β → Bool)
    [Arranging setting inside rule] [Tells test rule]
    (closes : ∀ {calls b s t a u steps errors site}, test b = true →
      (∀ {within : Site}, within.Hosts inside → Arranges errors within s.start within t) → site.Hosts quiet →
      Runs setting.env setting.rules calls (finish s.mark b) t (.ok (a, u)) steps → Arranges errors site s site u) :
    Arranging setting quiet (start >>= fun mark => rule >>= finish mark) :=
  opened inside test (fun s t => t = s.start) (fun same => same ▸ start_opens) start_of_runs
    fun passes same inner hosts run => closes passes (same ▸ inner) hosts run

instance {first : Completed} {rule : Program N Kind} [Arranging setting false rule] [Tells Kind.isOrdinary rule] :
    Arranging setting quiet (around first rule) :=
  opened false Kind.isOrdinary (Opens true) id precede_of_runs fun ordinary opens inner hosts run =>
    complete_plain ordinary hosts.loud opens (inner trivial) (complete_of_runs run)

instance {rule : Program N Kind} [Arranging setting false rule] [Tells Kind.isOrdinary rule] :
    Arranging setting quiet (nodeOf rule) :=
  started false Kind.isOrdinary fun ordinary inner hosts run =>
    complete_plain ordinary hosts.loud start_opens (inner trivial) (complete_of_runs run)

instance {rule : Program N (Option Kind)} [Arranging setting quiet rule] [Tells ordinaryIf rule] :
    Arranging setting quiet (nodeIf rule) :=
  started quiet ordinaryIf fun {_ answer} _ _ _ _ _ _ _ ordinary inner hosts run => by
    cases answer with
    | some kind =>
      obtain ⟨_, u, _, _, closed, last⟩ := bind_of_runs run rfl
      cases pure_of_runs last
      exact complete_plain ordinary hosts.loud start_opens (inner trivial) (complete_of_runs closed)
    | none =>
      obtain ⟨_, u, _, _, released, last⟩ := bind_of_runs run rfl
      cases pure_of_runs last
      exact release_arranges hosts.loud (inner hosts) (Result.of_done (act_of_runs released).symm)

end Nodes

section Steps

omit forgiving

/-- Any step but those that start and finish nodes, consume tokens or give them another kind. -/
theorem still {action : Action α} (events : ∀ {s a t}, action.run setting.env s = .ok (a, t) → t.events = s.events) :
    Arranging setting quiet (.act action : Program N α) := of_act fun _ run => .of_events (events run)

instance : Arranging setting quiet (.act .noLambda) := still fun run => by
  cases run
  rfl

instance : Arranging setting quiet (.act .lookaheadLimit) := still fun run => by
  cases run
  rfl

instance : Arranging setting quiet cursor := still fun run => by
  cases run
  rfl

instance {kinds : KindSet} : Arranging setting quiet (allow kinds) := still fun run => by
  cases run
  rfl

private theorem hosts_of_quiet {kind : Kind} {site : Site} (silent : quiet = true → kind.isQuiet = true) (hosts : site.Hosts quiet) :
    site.Hosts kind.isQuiet := by
  cases site with
  | label => exact silent hosts
  | _ => exact hosts

private theorem of_consume {kind : Kind} (silent : quiet = true → kind.isQuiet = true) : Arranging setting quiet (consume kind) :=
  of_act fun hosts run => by
    have run := Result.of_done run
    unfold State.consume at run
    split at run
    · cases run
      exact pushToken_arranges (hosts_of_quiet silent hosts)
    · cases run

instance {kind : Kind} : Arranging setting false (consume kind) := of_consume fun loud => by cases loud

instance {kind : Kind} [silent : Evident kind.isQuiet] : Arranging setting quiet (consume kind) := of_consume fun _ => silent.holds

private theorem of_consumeAs {kind : Kind} (silent : quiet = true → kind.isQuiet = true) : Arranging setting quiet (consumeAs kind) :=
  of_act fun hosts run => by
    have run := Result.of_done run
    unfold State.consumeAs at run
    split at run
    · cases run
      exact pushToken_arranges (hosts_of_quiet silent hosts)
    · cases run

instance {kind : Kind} : Arranging setting false (consumeAs kind) := of_consumeAs fun loud => by cases loud

instance {kind : Kind} [silent : Evident kind.isQuiet] : Arranging setting quiet (consumeAs kind) :=
  of_consumeAs fun _ => silent.holds

private theorem of_join {kind : Kind} {count : Nat} (silent : quiet = true → kind.isQuiet = true) : Arranging setting quiet (join kind count) :=
  of_act fun hosts run => by
    cases run
    exact pushToken_arranges (hosts_of_quiet silent hosts)

instance {kind : Kind} {count : Nat} : Arranging setting false (join kind count) := of_join fun loud => by cases loud

instance {kind : Kind} {count : Nat} [silent : Evident kind.isQuiet] : Arranging setting quiet (join kind count) :=
  of_join fun _ => silent.holds

instance : Arranging setting false consumeAny := of_act fun {s _ _ _ _} hosts run => by
  cases run
  unfold State.consumeAny
  split
  · exact .refl
  · exact pushToken_arranges (hosts_of_quiet (fun loud => by cases loud) hosts)

instance {issue : Issue} : Arranging setting quiet (report issue) := of_act fun hosts run =>
  report_arranges hosts.loud (Result.of_done run)

instance {issue : Issue} : Arranging setting quiet (reportAndSkip issue) := of_act fun hosts run =>
  reportAndSkip_arranges hosts.loud (Result.of_done run)

instance {recovery : KindSet} : Arranging setting quiet (recover recovery) := of_act fun hosts run =>
  recover_arranges hosts.loud (Result.of_done run)

end Steps

section Questions

instance : Arranging setting quiet position := by
  unfold position
  infer_instance

instance {n : Nat} : Arranging setting quiet (nth n) := by
  unfold nth
  infer_instance

instance : Arranging setting quiet current := inferInstanceAs (Arranging setting quiet (nth 0))

instance {n : Nat} {kind : Kind} : Arranging setting quiet (nthIs n kind) := by
  unfold nthIs
  infer_instance

instance {n : Nat} {keyword : Kind} : Arranging setting quiet (nthIsWord n keyword) := by
  unfold nthIsWord
  infer_instance

instance {kind : Kind} : Arranging setting quiet (sees kind) := by
  unfold sees
  infer_instance

instance {kinds : KindSet} : Arranging setting quiet (seesAny kinds) := by
  unfold seesAny
  infer_instance

instance {keyword : Kind} : Arranging setting quiet (seesWord keyword) := by
  unfold seesWord
  infer_instance

instance {one other : Program N Bool} [Arranging setting quiet one] [Arranging setting quiet other] :
    Arranging setting quiet (one <&&> other) := by
  refine andThen fun found => ?_
  split <;> infer_instance

instance {one other : Program N Bool} [Arranging setting quiet one] [Arranging setting quiet other] :
    Arranging setting quiet (one <||> other) := by
  refine andThen fun found => ?_
  split <;> infer_instance

instance [Inhabited α] : Arranging setting quiet (endless : Program N α) := by
  unfold endless
  infer_instance

instance [Inhabited α] {what : String} {peek : Lookahead.Peek α} : Arranging setting quiet (decideBy what peek) := by
  unfold decideBy
  refine andThen fun limit => andThen fun cursor => ?_
  split <;> infer_instance

instance : Arranging setting quiet parenKindHere := by
  unfold parenKindHere
  infer_instance

instance : Arranging setting quiet seesLocalVarDecl := inferInstanceAs (Arranging setting quiet (decideBy _ _))

instance : Arranging setting quiet seesLocalTypeDecl := inferInstanceAs (Arranging setting quiet (decideBy _ _))

instance : Arranging setting quiet seesForeach := inferInstanceAs (Arranging setting quiet (decideBy _ _))

instance : Arranging setting quiet patternKindHere := inferInstanceAs (Arranging setting quiet (decideBy _ _))

instance : Arranging setting quiet seesArrayTypeLiteral := inferInstanceAs (Arranging setting quiet (decideBy _ _))

end Questions

section Combinators

instance {rule : Program N α} [Arranging setting quiet rule] : Arranging setting quiet (discard rule) :=
  inferInstanceAs (Arranging setting quiet (rule >>= fun _ => Pure.pure ()))

instance {kind : Kind} : Arranging setting false (accept kind) := by
  unfold accept
  infer_instance

instance {kind : Kind} [Evident kind.isQuiet] : Arranging setting quiet (accept kind) := by
  unfold accept
  infer_instance

instance {kind : Kind} {rule : Program N Unit} [Arranging setting quiet rule] :
    Arranging setting quiet (whenSees kind rule) := by
  unfold whenSees
  infer_instance

instance {what : String} : Arranging setting quiet (expectedHere what) := by
  unfold expectedHere
  infer_instance

instance {what : String} {recovery : KindSet} : Arranging setting quiet (expectedThenRecover what recovery) := by
  unfold expectedThenRecover
  infer_instance

instance {kind : Kind} : Arranging setting false (expect kind) := by
  unfold expect
  infer_instance

instance {kind : Kind} [Evident kind.isQuiet] : Arranging setting quiet (expect kind) := by
  unfold expect
  infer_instance

instance {kind : Kind} : Arranging setting false (require kind) := by
  unfold require
  infer_instance

instance {kind : Kind} [Evident kind.isQuiet] : Arranging setting quiet (require kind) := by
  unfold require
  infer_instance

instance {a : α} {step : Program N Bool} [Arranging setting quiet step] : Arranging setting quiet (stepTo a step) := by
  unfold stepTo
  infer_instance

instance {step : Program N Bool} [Arranging setting quiet step] : Arranging setting quiet (loop step) := by
  unfold loop
  infer_instance

instance {step : Program N Bool} [Arranging setting quiet step] : Arranging setting quiet (loopAny step) := by
  unfold loopAny
  infer_instance

instance {rule : Program N α} [Arranging setting quiet rule] : Arranging setting quiet (bracketed rule) := by
  unfold bracketed
  infer_instance

instance {kind : Kind} {rule : Program N Unit} [ordinary : Evident kind.isOrdinary] [Arranging setting false rule] :
    Arranging setting quiet (node kind rule) := by
  unfold node
  infer_instance

end Combinators

end Arranging

end LosslessJava.Parser
