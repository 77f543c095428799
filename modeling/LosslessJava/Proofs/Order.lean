import LosslessJava.Proofs.Invariants
import LosslessJava.Proofs.Lossless

/-! The order of the diagnostics. Each stands at a token of its own, in the order of the tokens. What
carries this through a run is that no more is told at a token an error was told at, until the position
has moved; and it moves with every token, for as long as there are any. -/

namespace LosslessJava

open LosslessJava.Parser

namespace Parser.State

variable {env : Env} {s t u : State}

/-- Tokens were recorded that the stream does not have: there are more of them, or one is made of none.
No run of a whole input comes here before its last step. -/
def Overrun (env : Env) (s : State) : Prop := env.stream.size ≤ s.taken ∨ 0 ∈ s.tokens.map Prod.snd

/-- Diagnostics stand in order at the tokens they tell of, and where no error is to be overcome, all of
these are behind. -/
structure Ordered (env : Env) (s : State) : Prop where
  ascending : s.diagnostics.toList.Pairwise fun d e => d.tokenIndex < e.tokenIndex
  range : ∀ d ∈ s.diagnostics.toList, d.range = (env.stream.tokenAt d.tokenIndex).range
  reached : ∀ d ∈ s.diagnostics.toList, d.tokenIndex ≤ s.position
  behind : s.recovery = .normal → ∀ d ∈ s.diagnostics.toList, d.tokenIndex < s.position

structure Orders (env : Env) (s t : State) : Prop extends Records env (fun _ => True) s t where
  ordered : Placed env s → ¬ Overrun env t → Ordered env s → Ordered env t

theorem Records.overrun (records : Records env (fun _ => True) s t) (overrun : Overrun env s) : Overrun env t := by
  refine overrun.imp (fun many => Nat.le_trans many records.taken_le) fun zero => ?_
  obtain ⟨more, same, -⟩ := records.tokens
  rw [same, List.map_append]
  exact List.mem_append_left _ zero

private theorem Records.position_le (records : Records env (fun _ => True) s t) (placed : Placed env s) :
    s.position ≤ t.position := by
  have later := records.placed placed
  have more := records.taken_le
  simp only [Placed] at placed later
  omega

namespace Ordered

theorem later (ordered : Ordered env s) (told : t.diagnostics = s.diagnostics)
    (moved : s.position ≤ t.position)
    (settled : t.recovery = .normal → s.recovery = .normal ∨ s.position < t.position) : Ordered env t where
  ascending := told ▸ ordered.ascending
  range := told ▸ ordered.range
  reached d member := Nat.le_trans (ordered.reached d (told ▸ member)) moved
  behind normal d member := by
    rw [told] at member
    rcases settled normal with before | moves
    · exact Nat.lt_of_lt_of_le (ordered.behind before d member) moved
    · exact Nat.lt_of_le_of_lt (ordered.reached d member) moves

/-- What is told where nothing was told yet comes behind all that was told. -/
theorem lt_position (ordered : Ordered env s) (untold : s.isTold = false) :
    ∀ d ∈ s.diagnostics.toList, d.tokenIndex < s.position := by
  intro d member
  cases recovery : s.recovery with
  | normal => exact ordered.behind recovery d member
  | abandoned => simp [isTold, recovery] at untold
  | recovering =>
    rcases List.eq_nil_or_concat' s.diagnostics.toList with none | ⟨front, last, split⟩
    · rw [none] at member
      cases member
    have away : last.tokenIndex ≠ s.position := by
      simpa [isTold, recovery, ← Array.getLast?_toList, split] using untold
    have most := ordered.reached last (by simp [split])
    have ascending := ordered.ascending
    rw [split, List.pairwise_append] at ascending
    rw [split, List.mem_append, List.mem_singleton] at member
    rcases member with earlier | rfl
    · have before := ascending.2.2 d earlier last (.head _)
      omega
    · omega

private theorem tell (ordered : Ordered env s) (inside : s.position < env.stream.size) (untold : s.isTold = false)
    (issue : Issue) : Ordered env (s.tell env issue) := by
  have before := ordered.lt_position untold
  have here : (s.cursor env).index 0 = s.position := by
    simp only [TokenCursor.index, cursor]
    omega
  have told : (s.tell env issue).diagnostics.toList = s.diagnostics.toList ++ [s.diagnose env issue] := by
    simp [State.tell]
  refine ⟨?_, ?_, ?_, fun normal => by cases normal⟩
  · rw [told, List.pairwise_append]
    refine ⟨ordered.ascending, List.pairwise_singleton _ _, fun d member e last => ?_⟩
    obtain rfl := List.mem_singleton.mp last
    exact before d member
  · rw [told]
    intro d member
    rcases List.mem_append.mp member with earlier | last
    · exact ordered.range d earlier
    · obtain rfl := List.mem_singleton.mp last
      simp only [diagnose, TokenCursor.nthToken, here]
      rfl
  · rw [told]
    intro d member
    rcases List.mem_append.mp member with earlier | last
    · exact ordered.reached d earlier
    · obtain rfl := List.mem_singleton.mp last
      exact Nat.le_refl _

end Ordered

namespace Orders

theorem refl : Orders env s s := ⟨.refl, fun _ _ => id⟩

theorem trans (first : Orders env s t) (second : Orders env t u) : Orders env s u where
  toRecords := first.toRecords.trans second.toRecords
  ordered placed short ordered :=
    second.ordered (first.placed placed) short (first.ordered placed (mt second.overrun short) ordered)

private theorem of_quiet (records : Records env (fun _ => True) s t) (quiet : Quiet s t)
    (settled : t.recovery = .normal → s.recovery = .normal) : Orders env s t where
  toRecords := records
  ordered placed _ ordered := ordered.later quiet.diagnostics (records.position_le placed) (.inl ∘ settled)

private theorem of_eq (events : t.events = s.events) (position : t.position = s.position)
    (diagnostics : t.diagnostics = s.diagnostics) (recovery : t.recovery = s.recovery) : Orders env s t where
  toRecords := .of_eq (by rw [tokens, events, tokens]) position
  ordered _ _ ordered := ordered.later diagnostics (Nat.le_of_eq position.symm) fun normal =>
    .inl (recovery ▸ normal)

end Orders

private theorem start_orders : Orders env s s.start := .of_quiet start_records ⟨rfl, rfl⟩ id

private theorem withRecovery_orders {recovery : RecoveryState} (lost : recovery ≠ .normal) :
    Orders env s (s.withRecovery recovery) :=
  .of_quiet (.of_eq rfl rfl) ⟨rfl, rfl⟩ fun normal => absurd normal lost

private theorem complete_orders {mark : Mark} {kind : Kind} (run : s.complete mark kind = .ok t) : Orders env s t :=
  .of_quiet (complete_records run) (complete_calm run).toQuiet fun normal => complete_recovery run ▸ normal

private theorem position_lt_pushToken {kind : Kind} {count : Nat} (placed : Placed env s)
    (short : ¬ Overrun env (s.pushToken env kind count)) :
    s.position < (s.pushToken env kind count).position := by
  have later : Placed env (s.pushToken env kind count) := pushToken_placed placed
  simp only [Overrun, Placed, State.taken, tokens_pushToken, List.map_append, List.map_cons, List.map_nil,
    List.sum_append, List.sum_singleton, List.mem_append, List.mem_singleton, not_or] at placed short later
  omega

private theorem pushToken_orders (kind : Kind) (count : Nat) : Orders env s (s.pushToken env kind count) where
  toRecords := pushToken_records (.inr trivial)
  ordered placed short ordered :=
    have moves := position_lt_pushToken placed short
    ordered.later rfl (Nat.le_of_lt moves) fun _ => .inr moves

private theorem consumeAny_orders : Orders env s (s.consumeAny env) := by
  unfold consumeAny
  split
  · exact .refl
  · exact pushToken_orders _ _

private theorem consumeRest_orders : Orders env s (s.consumeRest env) := by
  fun_induction consumeRest env s with
  | case1 => exact .refl
  | case2 s more ih => exact (pushToken_orders _ _).trans ih

private theorem abandon_orders (run : s.abandon env = .ok t) : Orders env s t := by
  have given : Orders env s (s.withRecovery .abandoned) := withRecovery_orders (by decide)
  unfold abandon at run
  split at run
  · cases run
    exact .refl
  · dsimp only at run
    split at run
    · cases run
      exact given
    · exact given.trans (start_orders.trans (consumeRest_orders.trans (complete_orders run)))

private theorem count_orders : Orders env s s.count where
  toRecords := .of_eq rfl rfl
  ordered _ _ ordered := ordered.later rfl (Nat.le_refl _) .inl

private theorem report_orders {issue : Issue} (run : s.report env issue = .ok t) : Orders env s t := by
  refine count_orders.trans ?_
  unfold report at run
  dsimp only at run
  split at run
  · cases run
    exact .refl
  · next untold =>
    have told : Orders env s.count (s.count.tell env issue) := by
      refine ⟨.of_eq rfl rfl, fun placed short ordered => ?_⟩
      refine ordered.tell ?_ (Bool.not_eq_true _ ▸ untold) issue
      have size := env.stream.size_pos
      simp only [Placed] at placed
      omega
    split at run
    · exact told.trans (abandon_orders run)
    · cases run
      exact told

private theorem settleAt_orders {recovery : KindSet} (run : s.settleAt env recovery = .ok u) : Orders env s u := by
  rcases settleAt_from run with rfl | ⟨t, told, rfl⟩
  · exact .refl
  · exact (report_orders told).trans (withRecovery_orders (by decide))

private theorem position_lt_skipTo {recovery : KindSet} (away : s.atSync env recovery = false) (placed : Placed env s) :
    s.position < (s.skipTo env recovery).position := by
  have more : s.current env ≠ .eof := by
    intro ended
    simp [atSync, ended] at away
  have one : Records env (fun _ => True) s (s.skipOne env) := by
    unfold skipOne
    split
    · exact growth.skipBraces 0
    · exact growth.skipToken
  rw [skipTo, if_neg (by simp [away])]
  exact Nat.lt_of_lt_of_le (position_lt_skipOne env s more)
    ((growth.skipTo recovery : Records env (fun _ => True) _ _).position_le (one.placed placed))

private theorem recover_orders {recovery : KindSet} (run : s.recover env recovery = .ok t) : Orders env s t := by
  unfold recover at run
  split at run
  · cases run
    exact .refl
  · next going =>
    obtain ⟨skipped, closed, run⟩ := bind_eq_ok.mp run
    refine Orders.trans ?_ (settleAt_orders run)
    let lost := (s.withRecovery .recovering).start
    have opened : Records env (fun _ => True) s lost :=
      Records.trans (t := s.withRecovery .recovering) (.of_eq rfl rfl) start_records
    have finished : Records env (fun _ => True) (lost.skipTo env recovery) skipped := complete_records closed
    have quiet : Quiet lost skipped := (skipTo_quiet recovery).trans (complete_calm closed).toQuiet
    have skips : Records env (fun _ => True) s (lost.skipTo env recovery) := opened.trans (growth.skipTo recovery)
    refine ⟨(skips.trans finished).trans (.of_eq rfl rfl), fun placed short ordered => ?_⟩
    have away : lost.atSync env recovery = false := by
      simp only [not_or, Bool.not_eq_true] at going
      exact going.2
    have moves : lost.position < skipped.position :=
      Nat.lt_of_lt_of_le (position_lt_skipTo away (opened.placed placed))
        (finished.position_le (skips.placed placed))
    exact ordered.later quiet.diagnostics (Nat.le_of_lt moves) fun _ => .inr moves

private theorem reportAndSkip_orders {issue : Issue} (run : s.reportAndSkip env issue = .ok u) : Orders env s u := by
  obtain ⟨t, told, run⟩ := bind_eq_ok.mp run
  refine (report_orders told).trans ?_
  split at run
  · cases run
    exact .refl
  · exact start_orders.trans (consumeAny_orders.trans (complete_orders run))

private theorem abandonNested_orders (run : s.abandonNested env = .ok t) : Orders env s t := by
  unfold abandonNested at run
  split at run
  · cases run
    exact .refl
  · obtain ⟨u, told, run⟩ := bind_eq_ok.mp run
    exact (report_orders told).trans (abandon_orders run)

end State

open State

private theorem Action.run_orders {env : Env} {α : Type} {action : Action α} {s t : State} {a : α}
    (run : action.run env s = .ok (a, t)) : s.Orders env t := by
  cases action with
  | cursor | noLambda | lookaheadLimit =>
    cases run
    exact .refl
  | allow =>
    cases run
    exact .of_quiet (.of_eq rfl rfl) ⟨rfl, rfl⟩ id
  | start =>
    cases run
    exact start_orders
  | join kind count =>
    cases run
    exact pushToken_orders _ _
  | consumeAny =>
    cases run
    exact consumeAny_orders
  | consume kind =>
    have run := Result.of_done run
    unfold State.consume at run
    split at run
    · cases run
      exact pushToken_orders _ _
    · cases run
  | consumeAs keyword =>
    have run := Result.of_done run
    unfold State.consumeAs at run
    split at run
    · cases run
      exact pushToken_orders _ _
    · cases run
  | report issue => exact report_orders (Result.of_done run)
  | reportAndSkip issue => exact reportAndSkip_orders (Result.of_done run)
  | recover recovery => exact recover_orders (Result.of_done run)
  | release mark =>
    have released := Result.of_done run
    exact .of_quiet (release_records released) (release_calm released).toQuiet fun normal =>
      release_recovery released ▸ normal
  | complete mark kind =>
    obtain ⟨u, closed, same⟩ := map_eq_ok.mp run
    cases same
    exact complete_orders closed
  | precede first =>
    obtain ⟨u, preceded, same⟩ := map_eq_ok.mp run
    cases same
    exact .of_quiet (precede_records preceded) (precede_calm preceded).toQuiet fun normal =>
      (precede_still preceded).2.1 ▸ normal

/-- Until the stream has no more tokens, the diagnostics of every run are in order. -/
theorem ordered_invariant (env : Env) :
    Invariant env (fun _ => True) fun s => s.Placed env ∧ (¬ s.Overrun env → s.Ordered env) := by
  have step {s t : State} (orders : s.Orders env t)
      (before : s.Placed env ∧ (¬ s.Overrun env → s.Ordered env)) :
      t.Placed env ∧ (¬ t.Overrun env → t.Ordered env) :=
    ⟨orders.placed before.1, fun short =>
      orders.ordered before.1 short (before.2 (mt orders.overrun short))⟩
  exact {
    act := fun _ before run => step (Action.run_orders run) before
    tooDeep := fun before run => step (abandonNested_orders run) before
    depth := fun {s} _ before => step (s := s) (.of_eq rfl rfl rfl rfl) before
    noLambda := fun {s} _ before => step (s := s) (.of_eq rfl rfl rfl rfl) before }

end Parser

namespace Grammar

open LosslessJava.Parser State

variable {env : Env} {s t : State}

private theorem initial_ordered : ({} : State).Placed env ∧ (¬ ({} : State).Overrun env → ({} : State).Ordered env) :=
  ⟨by simp [Placed, taken, State.tokens], fun _ => ⟨by simp, by simp, by simp, by simp⟩⟩

/-- In a state behind tokens of the stream, the diagnostics are in order. -/
theorem ordered_of_evaluates {α : Type} {rule : Rule α} {a : α}
    (run : rule.exec env Grammar.rule s = some (.ok (a, t)))
    (before : s.Placed env ∧ (¬ s.Overrun env → s.Ordered env)) (after : State.After env s t)
    (fresh : s.tokens = []) (first : s.position = 0) : t.Ordered env := by
  obtain ⟨-, ordered⟩ := (Program.evaluates_of_exec run).keeps (ordered_invariant env)
    (fun name _ => Program.uses_any (Grammar.rule _ name)) (Program.uses_any rule) rfl before
  obtain ⟨more, recorded, whole, moved⟩ := after.events
  have tokens : t.tokens = more.filterMap Event.token? := by
    rw [State.tokens, recorded, List.filterMap_append]
    simpa [State.tokens] using fresh
  refine ordered ?_
  rintro (many | none)
  · have inside := after.good.inside
    rw [taken, tokens, Event.sum_tokens] at many
    omega
  · obtain ⟨token, member, zero⟩ := List.mem_map.mp none
    obtain ⟨event, among, made⟩ := List.mem_filterMap.mp (tokens ▸ member)
    have proper := whole.proper event among
    cases event with
    | start => cases made
    | finish => cases made
    | token kind count =>
      cases made
      simp only [Event.Proper] at proper
      omega

def Sorts (env : Env) (t : State) : Prop :=
  ∃ u : State, u.Ordered env ∧ u.position < env.stream.size ∧ t.diagnostics = u.diagnostics

variable {scope : Scope}

private theorem compilationUnit_sorts (room : scope.Room 1 0) :
    scope.Settles compilationUnit {} fun _ t => Sorts scope.env t := by
  have good : ({} : State).Good scope.env := ⟨TokenStream.size_pos _, by simp, by simp⟩
  refine Program.Settles.discard (.actThen rfl (.bind
    (P := fun kind u => kind = .compilationUnit ∧ ∃ t : State, State.After scope.env ({} : State).start t ∧
      t.current scope.env = .eof ∧ t.Ordered scope.env ∧ u = t.pushToken scope.env .eof 1) ?_ ?_))
    fun _ _ sorts => sorts
  · refine ((topLevelItems_keeps room _ good.start rfl).bind fun _ t run ⟨after, ended⟩ => ?_).bind
      fun _ u _ last => .pure ⟨rfl, last⟩
    have started : Action.start.run scope.env {} = .ok (({} : State).mark, ({} : State).start) := rfl
    have before := (ordered_invariant scope.env).act trivial initial_ordered started
    have ordered := ordered_of_evaluates run before after rfl rfl
    exact .act (a := ()) (State.run_consume.mpr (if_pos ended)) ⟨t, after, ended, ordered, rfl⟩
  · rintro _ _ _ ⟨rfl, t, after, ended, ordered, rfl⟩
    obtain ⟨u, done, -⟩ := completeFile scope.regular after ended
      (show Kind.compilationUnit.isNode by decide) rfl rfl
    refine .act done ⟨t, ordered, after.good.inside, ?_⟩
    obtain ⟨v, closed, same⟩ := map_eq_ok.mp done
    cases same
    exact (complete_calm closed).diagnostics

private theorem expressionRoot_sorts (room : scope.Room 3 0) :
    scope.Settles expressionRoot {} fun _ t => Sorts scope.env t := by
  have good : ({} : State).Good scope.env := ⟨TokenStream.size_pos _, by simp, by simp⟩
  refine (expressionRoot_settles good room rfl rfl).weaken fun _ t run ⟨after, _⟩ => ?_
  exact ⟨t, ordered_of_evaluates run initial_ordered after rfl rfl, after.good.inside, rfl⟩

end Grammar

variable {entry : EntryPoint} {text : String} {options : ParseOptions} {parse : Parse}

theorem EntryPoint.sorts (entry : EntryPoint) (text : String) (options : ParseOptions) :
    (@Grammar.Scope.root (textEnv text options) (regular_lex text)).Settles entry.rule {} fun _ t =>
      Grammar.Sorts (textEnv text options) t := by
  have room (rank : Nat) (low : rank ≤ 4) :
      (@Grammar.Scope.root (textEnv text options) (regular_lex text)).Room rank 0 := by
    simp only [Grammar.Scope.Room, Grammar.Scope.root]
    omega
  cases entry with
  | file => exact Grammar.compilationUnit_sorts (room 1 (by decide))
  | expression => exact Grammar.expressionRoot_sorts (room 3 (by decide))

/-- Diagnostics come in the order of the tokens they stand at, at most one at each, and cover the token
they stand at. -/
theorem Parse.diagnostics_ascend (parsed : entry.parse text options = .ok parse) :
    (parse.diagnostics.Pairwise fun d e => d.tokenIndex < e.tokenIndex) ∧
      ∀ d ∈ parse.diagnostics, ∃ token, (tokenize text)[d.tokenIndex]? = some token ∧ d.range = token.range := by
  rw [EntryPoint.parse_eq] at parsed
  obtain ⟨t, ran, built⟩ := Parse.run_ok parsed
  obtain ⟨steps, tree, -, -, rfl⟩ := Parse.ofState_ok built
  cases entry.sorts text options with
  | gives ran' sorts =>
    cases ran.symm.trans ran'.exec_eq
    obtain ⟨u, ordered, inside, told⟩ := sorts
    rw [told]
    refine ⟨ordered.ascending, fun d member => ?_⟩
    have reached : d.tokenIndex < (tokenize text).length := by
      have before := ordered.reached d member
      have size := size_lex text
      simp only [textEnv] at inside
      omega
    refine ⟨(tokenize text)[d.tokenIndex], List.getElem?_eq_getElem reached, ?_⟩
    rw [ordered.range d member]
    exact congrArg Token.range (tokenAt_lex reached)
  | halts ran' => cases ran.symm.trans ran'.exec_eq
  | sticks cause => cases ran.symm.trans (Grammar.exec_eq_none_of_sticks cause)

/-- Two imports of nothing. -/
theorem Parse.diagnostics_ascend_twice :
    ∃ parse, EntryPoint.file.parse "import ; import ;" {} = .ok parse ∧
      2 ≤ parse.diagnostics.length ∧
      (parse.diagnostics.Pairwise fun d e => d.tokenIndex < e.tokenIndex) ∧
      ∀ d ∈ parse.diagnostics, ∃ token,
        (tokenize "import ; import ;")[d.tokenIndex]? = some token ∧ d.range = token.range := by
  have found : Parse.givesWithin 300 (fun parse => 2 ≤ parse.diagnostics.length) Grammar.compilationUnit
      (.lex "import ; import ;") {} = true := by decide +kernel
  obtain ⟨parse, ran, several⟩ := Parse.run_of_givesWithin found
  have parsed : EntryPoint.file.parse "import ; import ;" {} = .ok parse := ran
  exact ⟨parse, parsed, by simpa using several, Parse.diagnostics_ascend parsed⟩

end LosslessJava
