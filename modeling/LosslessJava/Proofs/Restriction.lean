import LosslessJava.Proofs.ScannedLambdas
import LosslessJava.Proofs.LookaheadLimits
import LosslessJava.Proofs.Traversal
import LosslessJava.Proofs.Invariants

/-! How far the restriction on lambdas reaches. Round and square brackets and the values of an array lift it; the
braces of bodies, blocks and switches do not, so what stands in them is read as the label around it wants it. But a
lambda that is not taken for one is all that can come of it: where a run without the restriction comes to no lambda
outside of such brackets, the run with it does the same. -/

namespace LosslessJava

namespace Parser

open Program (changed)

namespace State

variable {env : Env} {s : State} (barred : Bool)

/-- A step of the parser that leaves the restriction alone takes no notice of it either. -/
theorem complete_withNoLambda (mark : Mark) (kind : Kind) :
    (s.withNoLambda barred).complete mark kind = (s.complete mark kind).map (·.withNoLambda barred) := by
  unfold complete withNoLambda
  dsimp only
  split <;> rfl

private theorem release_withNoLambda (mark : Mark) :
    (s.withNoLambda barred).release mark = (s.release mark).map (·.withNoLambda barred) := by
  show (if mark.position + 1 = s.events.size then if s.events.back? = some .tombstone then _ else _ else _) = _
  unfold release
  split
  · split <;> rfl
  · rfl

private theorem precede_withNoLambda (first : Completed) :
    (s.withNoLambda barred).precede first = (s.precede first).map (·.withNoLambda barred) := by
  unfold precede withNoLambda start mark
  dsimp only
  split <;> rfl

private theorem consume_withNoLambda (kind : Kind) :
    (s.withNoLambda barred).consume env kind = (s.consume env kind).map (·.withNoLambda barred) := by
  show (if s.current env = kind then _ else _) = _
  unfold consume
  split <;> rfl

private theorem consumeAs_withNoLambda (keyword : Kind) :
    (s.withNoLambda barred).consumeAs env keyword = (s.consumeAs env keyword).map (·.withNoLambda barred) := by
  show (if s.current env = .identifier ∨ s.current env = keyword then _ else _) = _
  unfold consumeAs
  split <;> rfl

private theorem consumeAny_withNoLambda : (s.withNoLambda barred).consumeAny env = (s.consumeAny env).withNoLambda barred := by
  show (if s.current env = .eof then _ else _) = _
  unfold consumeAny
  split <;> rfl

private theorem consumeRest_withNoLambda : (s.withNoLambda barred).consumeRest env = (s.consumeRest env).withNoLambda barred := by
  fun_induction consumeRest env s with
  | case1 s ended =>
    rw [consumeRest]
    exact if_pos ended
  | case2 s more ih =>
    rw [consumeRest]
    exact (if_neg more).trans ih

private theorem abandon_withNoLambda : (s.withNoLambda barred).abandon env = (s.abandon env).map (·.withNoLambda barred) := by
  show (if s.recovery = .abandoned then _ else if s.current env = .eof then _ else
    (((s.withRecovery .abandoned).start.withNoLambda barred).consumeRest env).complete s.mark .error) = _
  unfold abandon
  rw [consumeRest_withNoLambda, complete_withNoLambda]
  split
  · rfl
  · dsimp only
    split <;> rfl

private theorem report_withNoLambda (issue : Issue) :
    (s.withNoLambda barred).report env issue = (s.report env issue).map (·.withNoLambda barred) := by
  show (if s.count.isTold then _ else if env.options.mode = .strict then
    ((s.count.tell env issue).withNoLambda barred).abandon env else _) = _
  unfold report
  rw [abandon_withNoLambda]
  dsimp only
  split
  · rfl
  · split <;> rfl

private theorem reportAndSkip_withNoLambda (issue : Issue) :
    (s.withNoLambda barred).reportAndSkip env issue = (s.reportAndSkip env issue).map (·.withNoLambda barred) := by
  unfold reportAndSkip
  rw [report_withNoLambda]
  rcases s.report env issue with halt | told
  · rfl
  · show (if told.current env = .eof ∨ told.recovery = .abandoned then _ else
      ((told.start.withNoLambda barred).consumeAny env).complete told.mark .error) = Except.map _ (if _ then _ else _)
    rw [consumeAny_withNoLambda, complete_withNoLambda]
    split <;> rfl

private theorem skipBraces_withNoLambda (depth : Nat) :
    (s.withNoLambda barred).skipBraces env depth = (s.skipBraces env depth).withNoLambda barred := by
  fun_induction skipBraces env depth s with
  | case1 depth s ended =>
    rw [skipBraces]
    exact if_pos ended
  | case2 depth s more inner last =>
    rw [skipBraces]
    exact (if_neg more).trans (if_pos last)
  | case3 depth s more inner deeper ih =>
    rw [skipBraces]
    exact (if_neg more).trans ((if_neg deeper).trans ih)

private theorem skipOne_withNoLambda : (s.withNoLambda barred).skipOne env = (s.skipOne env).withNoLambda barred := by
  show (if s.current env = .leftBrace then _ else _) = _
  unfold skipOne
  rw [skipBraces_withNoLambda]
  split <;> rfl

private theorem skipTo_withNoLambda (recovery : KindSet) :
    (s.withNoLambda barred).skipTo env recovery = (s.skipTo env recovery).withNoLambda barred := by
  fun_induction skipTo env recovery s with
  | case1 s here =>
    rw [skipTo]
    exact if_pos here
  | case2 s away ih =>
    rw [skipTo, skipOne_withNoLambda]
    exact (if_neg away).trans ih

private theorem settleAt_withNoLambda (recovery : KindSet) :
    (s.withNoLambda barred).settleAt env recovery = (s.settleAt env recovery).map (·.withNoLambda barred) := by
  show (if s.current env = .eof ∧ ¬ recovery.contains .eof then _ else _) = _
  unfold settleAt
  rw [report_withNoLambda]
  split
  · rcases s.report env .recoveryRanOut with halt | told <;> rfl
  · rfl

private theorem recover_withNoLambda (recovery : KindSet) :
    (s.withNoLambda barred).recover env recovery = (s.recover env recovery).map (·.withNoLambda barred) := by
  show (if s.recovery = .abandoned ∨ s.atSync env recovery then _ else do
    let skipped ← (((s.withRecovery .recovering).start.withNoLambda barred).skipTo env recovery).complete s.mark .error
    (skipped.withRecovery .normal).settleAt env recovery) = _
  unfold recover
  rw [skipTo_withNoLambda, complete_withNoLambda]
  split
  · rfl
  · dsimp only
    rcases ((s.withRecovery .recovering).start.skipTo env recovery).complete s.mark .error with halt | skipped
    · rfl
    · show ((skipped.withRecovery .normal).withNoLambda barred).settleAt env recovery = _
      exact settleAt_withNoLambda barred recovery

private theorem abandonNested_withNoLambda :
    (s.withNoLambda barred).abandonNested env = (s.abandonNested env).map (·.withNoLambda barred) := by
  show (if s.recovery = .abandoned then _ else _) = _
  unfold abandonNested
  rw [report_withNoLambda]
  split
  · rfl
  · rcases s.report env (.nestingTooDeep env.options.maxDepth) with halt | told
    · rfl
    · exact abandon_withNoLambda barred

end State

variable {env : Env} {s t : State} {α β : Type}

/-- What a rule gives, with another setting of the restriction. -/
abbrev Result.withNoLambda (r : Result α) (barred : Bool) : Result α := changed (fun a t => (a, t.withNoLambda barred)) r

private theorem Result.done_withNoLambda {after other : Except Halt State} {barred : Bool}
    (same : other = after.map (·.withNoLambda barred)) : Result.done other = (Result.done after).withNoLambda barred := by
  rw [same]
  cases after <;> rfl

def Action.asks : {α : Type} → Action α → Bool
  | _, .noLambda => true
  | _, _ => false

private theorem Action.run_withNoLambda {action : Action α} (deaf : action.asks = false) (barred : Bool) :
    action.run env (s.withNoLambda barred) = (action.run env s).withNoLambda barred := by
  have given {γ : Type} {c : γ} {after other : Except Halt State} (same : other = after.map (·.withNoLambda barred)) :
      other.map (fun t => (c, t)) = Result.withNoLambda (after.map fun t => (c, t)) barred := by
    rw [same]
    cases after <;> rfl
  cases action with
  | noLambda => cases deaf
  | cursor | lookaheadLimit | allow | join | start => rfl
  | consume kind => exact Result.done_withNoLambda (State.consume_withNoLambda barred kind)
  | consumeAs keyword => exact Result.done_withNoLambda (State.consumeAs_withNoLambda barred keyword)
  | consumeAny => exact congrArg (fun t => Except.ok ((), t)) (State.consumeAny_withNoLambda barred)
  | report issue => exact Result.done_withNoLambda (State.report_withNoLambda barred issue)
  | reportAndSkip issue => exact Result.done_withNoLambda (State.reportAndSkip_withNoLambda barred issue)
  | recover recovery => exact Result.done_withNoLambda (State.recover_withNoLambda barred recovery)
  | complete mark kind => exact given (State.complete_withNoLambda barred mark kind)
  | release mark => exact Result.done_withNoLambda (State.release_withNoLambda barred mark)
  | precede first => exact given (State.precede_withNoLambda barred first)

private theorem State.noLambda_eq_of_map {after : State → Except Halt State}
    (same : after (s.withNoLambda s.noLambda) = (after s).map (·.withNoLambda s.noLambda)) (ran : after s = .ok t) :
    t.noLambda = s.noLambda := by
  have same : after s = (after s).map (·.withNoLambda s.noLambda) := same
  rw [ran] at same
  have kept := congrArg State.noLambda (Except.ok.inj same)
  exact kept

private theorem Action.run_noLambda {action : Action α} {a : α} (ran : action.run env s = .ok (a, t)) :
    t.noLambda = s.noLambda := by
  by_cases deaf : action.asks = false
  · have same : action.run env s = (action.run env s).withNoLambda s.noLambda := Action.run_withNoLambda deaf s.noLambda
    rw [ran] at same
    exact congrArg (fun result => State.noLambda (Prod.snd result)) (Except.ok.inj same)
  · cases action with
    | noLambda =>
      cases ran
      rfl
    | _ => exact absurd rfl deaf

namespace Program

open Grammar (Nonterminal Rule)

/-- A rule that is run from a state comes to a part of it in another state, with no brackets around the part that
lift the restriction. -/
inductive ComesOpenly (env : Env) (part : Rule β) (t : State) : {α : Type} → Rule α → State → Prop where
  | here : ComesOpenly env part t part t
  | first {α γ : Type} {rule : Rule γ} {next : γ → Rule α} {s} (comes : ComesOpenly env part t rule s) :
      ComesOpenly env part t (.bind rule next) s
  | next {α γ : Type} {rule : Rule γ} {next : γ → Rule α} {s u} {a : γ}
      (ran : rule.exec env Grammar.rule s = some (.ok (a, u))) (comes : ComesOpenly env part t (next a) u) :
      ComesOpenly env part t (.bind rule next) s
  | round {α : Type} {a : α} {step : α → Rule (Option α)} {s} (comes : ComesOpenly env part t (step a) s) :
      ComesOpenly env part t (.loopFrom a step) s
  | later {α : Type} {a b : α} {step : α → Rule (Option α)} {s u}
      (ran : (step a).exec env Grammar.rule s = some (.ok (some b, u)))
      (comes : ComesOpenly env part t (.loopFrom b step) u) : ComesOpenly env part t (.loopFrom a step) s
  | nested {α : Type} {otherwise : α} {rule : Rule α} {s} (room : s.depth < env.options.maxDepth)
      (comes : ComesOpenly env part t rule s.enter) : ComesOpenly env part t (.nested otherwise rule) s
  | speculate {rule : Rule (Option Completed)} {s} (comes : ComesOpenly env part t rule s) :
      ComesOpenly env part t (.speculate rule) s
  | call {α : Type} {name : Nonterminal α} {s} (comes : ComesOpenly env part t (Grammar.rule α name) s) :
      ComesOpenly env part t (.call name) s

/-- A run comes to a lambda that the restriction would forbid, or to brackets of which it takes too many tokens to tell
what they hold. -/
def Frees (env : Env) (rule : Rule α) (s : State) : Prop :=
  ∃ t, ComesOpenly env Grammar.lambdaExpr t rule s ∨ ComesOpenly env parenKindHere t rule s ∧
    ∃ kind, (Lookahead.parenKind false).decide (t.cursor env) env.options.lookaheadLimit = some (kind, true)

private theorem Frees.of_part {rule : Rule α} {part : Rule β} (frees : Frees env part s)
    (leads : ∀ {γ : Type} {inner : Rule γ} {u}, ComesOpenly env inner u part s → ComesOpenly env inner u rule t) :
    Frees env rule t :=
  frees.imp fun _ => Or.imp leads (And.imp_left leads)

/-- A rule that asks for the restriction only to do without a lambda. -/
inductive Heedless : {α : Type} → Rule α → Prop where
  | pure {α : Type} {a : α} : Heedless (.pure a)
  | act {α : Type} {action : Action α} (deaf : action.asks = false) : Heedless (.act action)
  | bind {α β : Type} {first : Rule β} {next : β → Rule α} (one : Heedless first) (two : ∀ b, Heedless (next b)) :
      Heedless (.bind first next)
  | loopFrom {α : Type} {a : α} {step : α → Rule (Option α)} (round : ∀ a, Heedless (step a)) :
      Heedless (.loopFrom a step)
  | nested {α : Type} {otherwise : α} {rule : Rule α} (inner : Heedless rule) : Heedless (.nested otherwise rule)
  | withNoLambda {α : Type} {noLambda : Bool} {rule : Rule α} : Heedless (.withNoLambda noLambda rule)
  | speculate {rule : Rule (Option Completed)} (inner : Heedless rule) : Heedless (.speculate rule)
  | call {α : Type} {name : Nonterminal α} (short : name.isShort = true) : Heedless (.call name)
  /-- Without the restriction, a lambda may follow at once. -/
  | asks {α : Type} {next : Bool → Rule α} (barred : Heedless (next true))
      (free : next false = next true ∨ ∀ env s, Frees env (next false) s) : Heedless (.bind (.act .noLambda) next)
  /-- Without the restriction, brackets may turn out to be those of a lambda. -/
  | looks {α : Type} {next : ParenKind → Rule α} (rest : ∀ kind, Heedless (next kind))
      (lambda : ∀ env s, Frees env (next .lambda) s) : Heedless (.bind parenKindHere next)

def heedless : Compositional Nonterminal where
  Holds _ _ _ rule := Heedless rule
  pure := .pure
  act {_ _ _ action} plain := .act (by cases action <;> first | rfl | cases plain)
  join _ := .act rfl
  consumeAs := .act rfl
  stands _ holds := holds
  bind _ _ one two := .bind one two
  look _ two := .bind (.act rfl) two
  precede two := .bind (.act rfl) two
  loopFrom := .loopFrom
  nested := .nested
  withNoLambda _ := .withNoLambda
  speculate := .speculate

end Program

section Grammar

open Grammar Program

instance : Callable heedless := ⟨.call⟩

private theorem nameExpr_heedless : Heedless nameExpr := by
  have kind : Has heedless .nothing 1 (nth 1) := inferInstance
  have rest (next : Kind) : Has heedless .nothing (0 + 28) (nameExprBefore next true) := inferInstance
  refine .bind kind.holds fun next => .asks (rest next).holds ?_
  by_cases arrow : next = .arrow
  · have lambda : nameExprBefore next false = (do return some (← lambdaExpr)) := if_pos ⟨arrow, Bool.false_ne_true⟩
    refine .inr fun env s => ⟨s, .inl ?_⟩
    show ComesOpenly env lambdaExpr s (nameExprBefore next false) s
    rw [lambda]
    exact .first .here
  · have away (barred : Bool) : ¬ (next = .arrow ∧ ¬ barred = true) := fun both => arrow both.1
    exact .inl ((if_neg (away false)).trans (if_neg (away true)).symm)

private theorem parenOperand_heedless : Heedless parenOperand := by
  have operand (kind : ParenKind) : Has heedless .nothing (0 + 65) (operandOf kind) := inferInstance
  exact .looks (fun kind => (operand kind).holds) fun env s => ⟨s, .inl (.first .here)⟩

instance : Links heedless where
  ifStmt := ifStmt_of_flat fun holds => holds
  nameExpr := nameExpr_heedless
  parenOperand := parenOperand_heedless

private theorem rule_heedless (name : Nonterminal α) (short : name.isShort = true) : Heedless (rule α name) :=
  (rule_has short : Has heedless .nothing (0 + 87) (rule α name)).holds

end Grammar

namespace Lookahead

variable {view : View}

/-- Where lambdas are not restricted and none is seen, nothing else is seen where they are. -/
theorem parenKind_restricted {kind : ParenKind} (clear : Clear view (parenKind false) kind) (other : kind ≠ .lambda) :
    Clear view (parenKind true) kind := by
  unfold parenKind at clear ⊢
  rcases clear_test.mp clear with ⟨-, same⟩ | ⟨-, rest⟩
  · exact absurd (clear_pure.mp same).symm other
  · exact clear_test.mpr (.inr ⟨clear_both.mpr (.inr ⟨clear_pure.mpr rfl, rfl⟩), rest⟩)

end Lookahead

/-- Where few enough tokens tell which brackets stand here, whatever it is but a lambda is decided so with lambdas
restricted as well. -/
theorem parenKindHere_restricted (free : s.noLambda = false)
    (near : ∀ kind, (Lookahead.parenKind false).decide (s.cursor env) env.options.lookaheadLimit ≠ some (kind, true)) :
    ∃ kind, parenKindHere.exec env Grammar.rule s = some (.ok (kind, s)) ∧ (kind = .lambda ∨
      parenKindHere.exec env Grammar.rule (s.withNoLambda true) = some (.ok (kind, s.withNoLambda true))) := by
  obtain ⟨decided, hits, ran⟩ := (Lookahead.Decision.paren false).ends (s.cursor env) env.options.lookaheadLimit
  obtain rfl : hits = false := Bool.eq_false_iff.mpr fun hit => near decided (hit ▸ ran)
  have asked (s : State) : parenKindHere.exec env Grammar.rule s =
      (decideBy "cast, lambda or parenthesized expression" (Lookahead.parenKind s.noLambda)).exec env Grammar.rule s := by
    unfold parenKindHere
    rw [Program.exec_bind, Program.exec_act]
    rfl
  refine ⟨decided, by rw [asked, free]; exact exec_decideBy ran, or_iff_not_imp_left.mpr fun other => ?_⟩
  have restricted : Lookahead.Clear ⟨s.cursor env, env.options.lookaheadLimit⟩ (Lookahead.parenKind true) decided :=
    Lookahead.parenKind_restricted ran other
  rw [asked]
  exact exec_decideBy restricted

namespace Program

open Grammar (Rule)

private theorem Evaluates.noLambda_eq {rule : Rule α} {a : α} {r : Result α} (run : Evaluates env Grammar.rule rule s r)
    (given : r = .ok (a, t)) : t.noLambda = s.noLambda := by
  induction run generalizing t with
  | pure =>
    cases given
    rfl
  | act => exact Action.run_noLambda given
  | bind _ _ first second => exact (second given).trans (first rfl)
  | bindHalt | loopHalt => cases given
  | loopEnd _ round =>
    cases given
    exact round rfl
  | loopNext _ _ round rest => exact (rest given).trans (round rfl)
  | tooDeep =>
    obtain ⟨u, abandoned, same⟩ := map_eq_ok.mp given
    cases same
    exact State.noLambda_eq_of_map (State.abandonNested_withNoLambda _) abandoned
  | nested _ _ inner =>
    obtain ⟨⟨b, u⟩, rfl, same⟩ := map_eq_ok.mp given
    cases same
    have kept : u.noLambda = _ := inner rfl
    exact kept
  | withNoLambda =>
    obtain ⟨⟨b, u⟩, rfl, same⟩ := map_eq_ok.mp given
    cases same
    rfl
  | @speculate rule s r _ inner =>
    obtain ⟨⟨b, u⟩, rfl, same⟩ := map_eq_ok.mp given
    have settled : settle s b u = (a, t) := same
    unfold settle at settled
    split at settled
    · cases settled
      exact inner rfl
    · cases settled
      rfl
  | call _ body => exact body given

/-- A tried rule is taken back, or not, with lambdas restricted as without. -/
theorem settle_withNoLambda (found : Option Completed) (barred : Bool) :
    settle (s.withNoLambda barred) found (t.withNoLambda barred) =
      ((settle s found t).1, (settle s found t).2.withNoLambda barred) := by
  show (if found.isSome ∧ t.errorCount = s.errorCount then _ else _) = _
  unfold settle
  split <;> rfl

/-- Where a run without the restriction comes outside of brackets to no lambda, and not to the limit of a decision about
one, the run with it does the same. -/
theorem Evaluates.restricted {rule : Rule α} {r : Result α} (run : Evaluates env Grammar.rule rule s r)
    (heedless : Heedless rule) (free : s.noLambda = false)
    (away : ¬ Frees env rule s) : Evaluates env Grammar.rule rule (s.withNoLambda true) (r.withNoLambda true) := by
  induction run with
  | pure => exact .pure
  | @act α action s =>
    cases heedless with
    | act deaf =>
      rw [← Action.run_withNoLambda deaf]
      exact .act
  | @bind α β rule next s a t r ran run first second =>
    have still : t.noLambda = false := (ran.noLambda_eq rfl).trans free
    have rest : ¬ Frees env (next a) t := fun frees => away (frees.of_part (.next ran.exec_eq))
    cases heedless with
    | bind one two => exact .bind (first one free fun frees => away (frees.of_part .first)) (second (two a) still rest)
    | asks barred lambda =>
      -- Here the two runs get different answers.
      cases Option.some.inj ((exec_act _ _).symm.trans ran.exec_eq)
      rw [free] at run second rest
      rcases lambda with same | lambda
      · exact .bind .act (same ▸ second (same ▸ barred) rfl rest)
      · exact absurd (lambda env s) rest
    | looks kinds lambda =>
      obtain ⟨kind, decided, other⟩ := parenKindHere_restricted free fun kind hits => away ⟨s, .inr ⟨.first .here, kind, hits⟩⟩
      cases Option.some.inj (decided.symm.trans ran.exec_eq)
      rcases other with rfl | decided
      · exact absurd (lambda env s) rest
      · exact .bind (evaluates_of_exec decided) (second (kinds _) still rest)
  | @bindHalt α β rule next s halt ran first =>
    cases heedless with
    | bind one _ => exact .bindHalt (first one free fun frees => away (frees.of_part .first))
    | asks => cases (exec_act _ _).symm.trans ran.exec_eq
    | looks =>
      obtain ⟨kind, decided, -⟩ := parenKindHere_restricted free fun kind hits => away ⟨s, .inr ⟨.first .here, kind, hits⟩⟩
      cases decided.symm.trans ran.exec_eq
  | loopEnd ran round =>
    cases heedless with
    | loopFrom step => exact .loopEnd (round (step _) free fun frees => away (frees.of_part .round))
  | @loopNext _ _ _ _ _ t _ ran _ round rest =>
    have still : t.noLambda = false := (ran.noLambda_eq rfl).trans free
    cases heedless with
    | loopFrom step =>
      exact .loopNext (round (step _) free fun frees => away (frees.of_part .round))
        (rest (.loopFrom step) still fun frees => away (frees.of_part (.later ran.exec_eq)))
  | loopHalt _ round =>
    cases heedless with
    | loopFrom step => exact .loopHalt (round (step _) free fun frees => away (frees.of_part .round))
  | @tooDeep _ otherwise _ s deep =>
    have same : ((s.withNoLambda true).abandonNested env).map (fun t => (otherwise, t)) =
        Result.withNoLambda ((s.abandonNested env).map fun t => (otherwise, t)) true := by
      rw [State.abandonNested_withNoLambda]
      cases s.abandonNested env <;> rfl
    exact same ▸ .tooDeep deep
  | @nested _ otherwise rule s r room _ inner =>
    cases heedless with
    | nested within =>
      have deeper := inner within free fun frees => away (frees.of_part (.nested room))
      have same : changed (fun a t => (a, t.leave)) (r.withNoLambda true) =
          Result.withNoLambda (changed (fun a t => (a, t.leave)) r) true := by cases r <;> rfl
      exact same ▸ .nested room deeper
  | @withNoLambda _ noLambda rule s r ran =>
    -- The rule itself is run in the same state.
    have same : changed (fun a t => (a, t.withNoLambda true)) r =
        Result.withNoLambda (changed (fun a t => (a, t.withNoLambda s.noLambda)) r) true := by cases r <;> rfl
    exact same ▸ .withNoLambda (s := s.withNoLambda true) ran
  | @speculate rule s r _ inner =>
    cases heedless with
    | speculate within =>
      have tried := inner within free fun frees => away (frees.of_part .speculate)
      have same : changed (settle (s.withNoLambda true)) (r.withNoLambda true) =
          Result.withNoLambda (changed (settle s) r) true := by
        rcases r with halt | ⟨found, t⟩
        · rfl
        · exact congrArg Except.ok (settle_withNoLambda found true)
      exact same ▸ .speculate tried
  | call _ body =>
    cases heedless with
    | call short => exact .call (body (rule_heedless _ short) free fun frees => away (frees.of_part .call))

end Program

end Parser

namespace Grammar

open LosslessJava.Parser Program

variable {env : Env} {s : State}

/-- What stands in braces that do not lift the restriction on lambdas. -/
inductive Braces where
  | classBody (kind : Kind)
  | block
  | switchBlock
  deriving DecidableEq

def Braces.rule : Braces → Rule Unit
  | classBody kind => Grammar.classBody kind
  | block => Grammar.block
  | switchBlock => Grammar.switchBlock

private theorem Braces.rule_heedless (braces : Braces) : Heedless braces.rule := by
  cases braces with
  | classBody kind => exact Parser.rule_heedless (.classBody kind) rfl
  | block => exact Parser.rule_heedless .block rfl
  | switchBlock => exact (inferInstance : Has heedless .nothing (0 + 40) Grammar.switchBlock).holds

/-- A node with brackets around all that it holds is the same with lambdas restricted as without. -/
theorem node_bracketed_withNoLambda {kind : Kind} {rule : Rule Unit} (barred : Bool) :
    (node kind (bracketed rule)).exec env Grammar.rule (s.withNoLambda barred) =
      ((node kind (bracketed rule)).exec env Grammar.rule s).map (·.withNoLambda barred) := by
  have run (s : State) : (node kind (bracketed rule)).exec env Grammar.rule s =
      andThen (rule.exec env Grammar.rule (s.start.withNoLambda false)) fun _ t =>
        some (((t.withNoLambda s.noLambda).complete s.mark kind).map fun t => (⟨s.mark.position, kind⟩, t)) := by
    unfold node nodeOf
    rw [exec_bind, Parser.start, exec_act]
    simp only [Action.run, andThen_ok]
    rw [exec_bind, exec_bind, bracketed, Parser.withNoLambda, exec_withNoLambda]
    rcases rule.exec env Grammar.rule (s.start.withNoLambda false) with _ | halt | ⟨a, t⟩
    · rfl
    · rfl
    · simp only [Option.map_some, changed, Except.map, andThen_ok, exec_return, Mark.complete, exec_act, Action.run]
      rfl
  rw [run, run]
  show andThen (rule.exec env Grammar.rule (s.start.withNoLambda false)) _ = _
  rcases rule.exec env Grammar.rule (s.start.withNoLambda false) with _ | halt | ⟨a, t⟩
  · rfl
  · rfl
  · show some ((((t.withNoLambda s.noLambda).withNoLambda barred).complete s.mark kind).map _) = _
    rw [State.complete_withNoLambda]
    simp only [andThen_ok, Option.map_some]
    cases (t.withNoLambda s.noLambda).complete s.mark kind <;> rfl

/-- The values of an array are read the same with lambdas restricted as without. -/
theorem arrayInitializer_withNoLambda (barred : Bool) :
    arrayInitializer.exec env rule (s.withNoLambda barred) =
      (arrayInitializer.exec env rule s).map (·.withNoLambda barred) := by
  unfold arrayInitializer
  by_cases deep : env.options.maxDepth ≤ s.depth
  · rw [Parser.nested, exec_nested_of_le (s := s.withNoLambda barred) deep, exec_nested_of_le deep,
      State.abandonNested_withNoLambda]
    cases s.abandonNested env <;> rfl
  · have room : s.depth < env.options.maxDepth := Nat.lt_of_not_le deep
    rw [Parser.nested, exec_nested_of_lt (s := s.withNoLambda barred) room, exec_nested_of_lt room]
    rw [exec_discard, exec_discard]
    show Option.map _ (andThen ((node _ (bracketed _)).exec env rule (s.enter.withNoLambda barred)) _) = _
    rw [node_bracketed_withNoLambda]
    rcases (node .arrayInitializer (bracketed _)).exec env rule s.enter with _ | halt | ⟨a, t⟩ <;> rfl

/-- The values of an array are read the same with lambdas restricted as without. A body, a block or the entries of a
switch are, too, unless the run without the restriction comes, outside of brackets, to a lambda or to brackets that take
too many tokens to tell whether they begin one. -/
theorem restriction_in_braces (env : Env) (s : State) :
    (∀ barred, arrayInitializer.exec env rule (s.withNoLambda barred) =
      (arrayInitializer.exec env rule s).map (·.withNoLambda barred)) ∧
    ∀ (braces : Braces) (r : Result Unit), s.noLambda = false → braces.rule.exec env rule s = some r →
      braces.rule.exec env rule (s.withNoLambda true) = some (r.withNoLambda true) ∨ Frees env braces.rule s := by
  refine ⟨arrayInitializer_withNoLambda, fun braces r free ran => or_iff_not_imp_right.mpr fun away => ?_⟩
  exact ((evaluates_of_exec ran).restricted braces.rule_heedless free away).exec_eq

def bodyComplaints (fuel : Nat) (text : String) (barred : Bool) : Option Nat :=
  match (classBody .classBody).execWithin { stream := .lex text, options := {} } rule fuel { noLambda := barred } with
  | some (.ok (_, t)) => some t.diagnostics.size
  | _ => none

private theorem exec_of_bodyComplaints {fuel : Nat} {text : String} {barred : Bool} {count : Nat}
    (counted : bodyComplaints fuel text barred = some count) :
    ∃ t, (classBody .classBody).exec { stream := .lex text, options := {} } rule { noLambda := barred } = some (.ok ((), t)) ∧
      t.diagnostics.size = count := by
  unfold bodyComplaints at counted
  split at counted
  · next a t ran => exact ⟨t, Program.exec_of_execWithin ran, Option.some.inj counted⟩
  · cases counted

/-- The lambda that is an argument in the body of a class stands in brackets of its own, and the body is read the same in
a label. -/
theorem restriction_in_braces_field :
    let env : Env := { stream := .lex "{R r=f(()->1);}", options := {} }
    ∃ t, (classBody .classBody).exec env rule {} = some (.ok ((), t)) ∧ t.diagnostics.size = 0 ∧
      ((classBody .classBody).exec env rule { noLambda := true } = some (.ok ((), t.withNoLambda true)) ∨
        Frees env (classBody .classBody) {}) := by
  intro env
  obtain ⟨t, ran, none⟩ := exec_of_bodyComplaints (show bodyComplaints 200 "{R r=f(()->1);}" false = some 0 by decide +kernel)
  exact ⟨t, ran, none, (restriction_in_braces env {}).2 (.classBody .classBody) _ rfl ran⟩

/-- The lambda that a field of an anonymous class starts with is none in a label: the arrow is an error there. -/
theorem restriction_leaks :
    ∃ t u, (classBody .classBody).exec { stream := .lex "{R r=()->1;}", options := {} } rule {} = some (.ok ((), t)) ∧
      (classBody .classBody).exec { stream := .lex "{R r=()->1;}", options := {} } rule { noLambda := true } =
        some (.ok ((), u)) ∧ t.diagnostics.size = 0 ∧ u.diagnostics.size = 2 := by
  obtain ⟨t, free, none⟩ := exec_of_bodyComplaints (show bodyComplaints 200 "{R r=()->1;}" false = some 0 by decide +kernel)
  obtain ⟨u, barred, two⟩ := exec_of_bodyComplaints (show bodyComplaints 200 "{R r=()->1;}" true = some 2 by decide +kernel)
  exact ⟨t, u, free, barred, none, two⟩

end Grammar

end LosslessJava
