import LosslessJava.Parser.Program
import LosslessJava.Proofs.Events

/-! The steps on a parser's state. Each of them records a whole stretch of events that takes up as
many tokens as the position moved, and keeps what every state of a run has in common. -/

namespace LosslessJava

/-- The kinds in a stream are kinds of tokens, and only the last one is an end of input. -/
structure TokenStream.Regular (stream : TokenStream) : Prop where
  isToken : ∀ index, (stream.tokenAt index).kind.isToken
  last : ∀ index, (stream.tokenAt index).kind = .eof → stream.size ≤ index + 1

namespace Parser.State

open Event

/-- What every state of a run has in common. -/
structure Good (env : Env) (s : State) : Prop where
  inside : s.position < env.stream.size
  ended : s.recovery = .abandoned → s.current env = .eof
  strict : env.options.mode = .strict → s.recovery ≠ .recovering

structure Passes (s t : State) : Prop where
  depth : t.depth = s.depth
  noLambda : t.noLambda = s.noLambda
  events : ∃ more, t.events.toList = s.events.toList ++ more ∧ Segment more ∧
    t.position = s.position + rawCount more

/-- A state that a run may come to from another one. -/
structure After (env : Env) (s t : State) : Prop extends Passes s t where
  good : Good env t

/-- What was recorded since a state is one node, which a completed mark stands for. -/
def Heads (s : State) (first : Completed) (t : State) : Prop :=
  ∃ more head, t.events.toList = s.events.toList ++ more ∧
    first.position = s.events.size + head ∧ Headed more head

def Strays (s t : State) : Prop :=
  ∃ front back first second, t.events.toList = s.events.toList ++ (front ++ back) ∧
    Segment front ∧ Headed front first ∧ 0 < rawCount front ∧ Segment back ∧ Headed back second

variable {env : Env} {s t u : State}

theorem Heads.from {first : Completed} (heads : t.Heads first u) (kept : t.events = s.events) :
    s.Heads first u := by
  rw [Heads, ← kept]
  exact heads

theorem Heads.kept {first : Completed} (heads : s.Heads first t) (kept : u.events = t.events) :
    s.Heads first u := by
  rw [Heads, kept]
  exact heads

theorem Strays.kept (strays : s.Strays t) (kept : u.events = t.events) : s.Strays u := by
  rw [Strays, kept]
  exact strays

theorem Strays.from (strays : t.Strays u) (kept : t.events = s.events) : s.Strays u := by
  rw [Strays, ← kept]
  exact strays

theorem Passes.refl : Passes s s := ⟨rfl, rfl, [], by simp, .nil, by simp [rawCount]⟩

theorem Passes.trans (first : Passes s t) (second : Passes t u) : Passes s u := by
  obtain ⟨front, recorded, whole, moved⟩ := first.events
  obtain ⟨back, recorded', whole', moved'⟩ := second.events
  exact ⟨second.depth.trans first.depth, second.noLambda.trans first.noLambda, front ++ back,
    by rw [recorded', recorded, List.append_assoc], whole.append whole',
    by rw [moved', moved, rawCount_append]; omega⟩

theorem Passes.position_le (passes : Passes s t) : s.position ≤ t.position := by
  obtain ⟨_, _, _, moved⟩ := passes.events
  omega

theorem Passes.strays {first second : Completed} (passes : Passes s t) (heads : s.Heads first t)
    (moved : s.position < t.position) (later : Passes t u) (behind : t.Heads second u) :
    s.Strays u := by
  obtain ⟨front, recorded, whole, counted⟩ := passes.events
  obtain ⟨front', head, recorded', -, headed⟩ := heads
  obtain rfl := List.append_cancel_left (recorded.symm.trans recorded')
  obtain ⟨back, recorded, whole', -⟩ := later.events
  obtain ⟨back', head', recorded'', -, headed'⟩ := behind
  obtain rfl := List.append_cancel_left (recorded.symm.trans recorded'')
  refine ⟨front, back, head, head', ?_, whole, headed, by omega, whole', headed'⟩
  rw [recorded, recorded', List.append_assoc]

theorem After.refl (good : Good env s) : After env s s := ⟨.refl, good⟩

theorem After.trans (first : After env s t) (second : After env t u) : After env s u :=
  ⟨first.toPasses.trans second.toPasses, second.good⟩

/-- A state at the end of input is behind any other one. -/
theorem After.position_lt (after : After env s t) (ended : t.current env = .eof)
    (more : s.current env ≠ .eof) : s.position < t.position := by
  refine Nat.lt_of_le_of_ne after.position_le fun same => more ?_
  simpa [current, cursor, same] using ended

theorem After.position_le_of_eof (regular : env.stream.Regular) (after : After env s t)
    (ended : s.current env = .eof) : t.position ≤ s.position := by
  have last := regular.last _ ended
  have inside := after.good.inside
  simp only [TokenCursor.index, cursor] at last
  omega

theorem Good.position_of_eof (regular : env.stream.Regular) (good : Good env s)
    (ended : s.current env = .eof) : s.position + 1 = env.stream.size := by
  have last := regular.last _ ended
  have inside := good.inside
  simp only [TokenCursor.index, cursor] at last
  omega

theorem Good.not_abandoned (good : Good env s) (more : s.current env ≠ .eof) :
    s.recovery ≠ .abandoned := fun abandoned => more (good.ended abandoned)

/-- A state that differs in what no step reads but the messages passes for the other. -/
theorem Passes.of_eq (position : t.position = s.position) (events : t.events = s.events)
    (depth : t.depth = s.depth) (noLambda : t.noLambda = s.noLambda) : Passes s t :=
  ⟨depth, noLambda, [], by simp [events], .nil, by simp [rawCount, position]⟩

theorem position_add_lt (cursor : TokenCursor) {count : Nat}
    (more : ∀ n < count, cursor.nth n ≠ .eof) (inside : cursor.position < cursor.stream.size) :
    cursor.position + count < cursor.stream.size := by
  cases count with
  | zero => exact inside
  | succ count =>
    have last := more count (Nat.lt_succ_self _)
    refine Nat.lt_of_not_le fun behind => last (TokenStream.kind_tokenAt_of_le ?_)
    simp only [TokenCursor.index]
    omega

private theorem pushToken_passes {kind : Kind} {count : Nat} (proper : (Event.token kind count).Proper)
    (room : s.position + count < env.stream.size) : Passes s (s.pushToken env kind count) := by
  refine ⟨rfl, rfl, [.token kind count], by simp [pushToken], .token proper, ?_⟩
  simp only [pushToken, TokenCursor.advance, TokenCursor.index, cursor, rawCount]
  omega

theorem pushToken_after (good : Good env s) {kind : Kind} {count : Nat}
    (proper : (Event.token kind count).Proper) (room : s.position + count < env.stream.size)
    (more : s.current env ≠ .eof) : After env s (s.pushToken env kind count) where
  toPasses := pushToken_passes proper room
  good := by
    have going := good.not_abandoned more
    refine ⟨?_, ?_, ?_⟩
    · simp only [pushToken, TokenCursor.advance, TokenCursor.index, cursor]
      omega
    · intro abandoned
      simp only [pushToken] at abandoned
      split at abandoned
      · cases abandoned
      · exact absurd abandoned going
    · intro strict
      simp only [pushToken]
      split
      · simp
      · exact good.strict strict

private theorem isToken_current (regular : env.stream.Regular) : (s.current env).isToken := regular.isToken _

private theorem pushCurrent_proper (regular : env.stream.Regular) :
    (Event.token (s.current env) 1).Proper := ⟨isToken_current regular, .inl rfl⟩

theorem position_succ_lt (more : s.current env ≠ .eof) : s.position + 1 < env.stream.size :=
  (s.cursor env).position_lt_of_current more

theorem consume_misplaced {kind : Kind} (away : s.current env ≠ kind) :
    (Action.consume kind).run env s = .error (.misplaced kind (s.current env)) := by
  simp [Action.run, consume, away, Result.done, Except.map]

theorem consumeAs_misplaced {keyword : Kind} (unnamed : s.current env ≠ .identifier)
    (away : s.current env ≠ keyword) :
    (Action.consumeAs keyword).run env s = .error .misplacedWord := by
  simp [Action.run, consumeAs, unnamed, away, Result.done, Except.map]

theorem run_consume {kind : Kind} {a : Unit} :
    (Action.consume kind).run env s = .ok (a, t) ↔ s.consume env kind = .ok t := by
  simp only [Action.run]
  cases s.consume env kind <;> simp [Result.done, Except.map]

/-- A node can be completed, and all that was recorded since its start belongs to it. -/
theorem complete_ok {kind : Kind} (passes : Passes s.start t) (node : kind.isNode) :
    ∃ events more, t.complete s.mark kind = .ok { t with events } ∧
      events.toList = s.events.toList ++ more ∧ Headed more 0 ∧
      Passes s { t with events } := by
  obtain ⟨body, recorded, whole, moved⟩ := passes.events
  simp only [start, Array.toList_push, List.append_assoc] at recorded
  have found : t.events[s.mark.position]? = some .tombstone := by
    rw [← Array.getElem?_toList, recorded]
    simp [mark]
  have closed : Segment ([] ++ Event.start kind none :: (body ++ [Event.finish])) :=
    Segment.close .tombstone whole node
  have stretch : ((t.events.setIfInBounds s.mark.position (.start kind none)).push .finish).toList =
      s.events.toList ++ Event.start kind none :: (body ++ [Event.finish]) := by
    simp [recorded, mark, List.set_append_right]
  refine ⟨_, _, ?_, stretch, .single node whole, passes.depth, passes.noLambda, _, stretch, closed, ?_⟩
  · simp [complete, found, Event.tombstone]
  · simpa [rawCount, start] using moved

/-- To complete a node takes no heed of the position. -/
theorem complete_moveTo (mark : Mark) (kind : Kind) (position : Nat) :
    State.complete { s with position } mark kind =
      (s.complete mark kind).map fun t => { t with position } := by
  unfold complete
  dsimp only
  split <;> rfl

theorem Good.start (good : Good env s) : Good env s.start :=
  ⟨good.inside, good.ended, good.strict⟩

theorem complete_after {kind : Kind} (after : After env s.start t)
    (node : kind.isNode) :
    ∃ u, (Action.complete s.mark kind).run env t = .ok (⟨s.mark.position, kind⟩, u) ∧
      u.position = t.position ∧ After env s u ∧ s.Heads ⟨s.mark.position, kind⟩ u := by
  obtain ⟨events, more, done, recorded, headed, passes⟩ := complete_ok after.toPasses node
  refine ⟨{ t with events }, by simp only [Action.run, done]; rfl, rfl,
    ⟨passes, after.good.inside, after.good.ended, after.good.strict⟩, more, 0, recorded, rfl, headed⟩

/-- A node may be started behind its first child, and is around it once it is completed. -/
theorem precede_ok {first : Completed} (passes : Passes s t) (heads : Heads s first t) :
    ∃ events, t.precede first = .ok { t with events } ∧
      ∀ u kind, kind.isNode → Passes { t with events } u →
        ∃ events', u.complete t.mark kind = .ok { u with events := events' } ∧
          Passes s { u with events := events' } ∧
          Heads s ⟨t.mark.position, kind⟩ { u with events := events' } := by
  obtain ⟨more, head, recorded, place, headed⟩ := heads
  obtain ⟨more', recorded', whole, moved⟩ := passes.events
  obtain rfl : more = more' := List.append_cancel_left (recorded.symm.trans recorded')
  obtain ⟨kind, parent, body, found, named, last, closed⟩ := headed.last
  have bound : head < more.length := (List.getElem?_eq_some_iff.mp found).1
  have size : t.events.size = s.events.size + more.length := by
    simpa using congrArg List.length recorded
  have distance : t.events.size - first.position = more.length - head := by
    omega
  have there : (t.events.push .tombstone)[first.position]? = some (.start kind parent) := by
    rw [← Array.getElem?_toList, Array.toList_push, recorded, place, List.append_assoc,
      List.getElem?_append_right (by simp)]
    simpa [List.getElem?_append_left, bound] using (List.getElem?_eq_some_iff.mp found).2
  have stretch : ((t.events.push .tombstone).setIfInBounds first.position
      (.start kind (some (more.length - head)))).toList =
        s.events.toList ++ (more.set head (.start kind (some (more.length - head))) ++ [.tombstone]) := by
    simp [recorded, place, List.set_append_right, List.set_append_left, bound]
  have opened := whole.precede found named last closed
  refine ⟨(t.events.push .tombstone).setIfInBounds first.position
    (.start kind (some (more.length - head))), ?_, fun u outer node inner => ?_⟩
  · simp [precede, start, there, mark, distance]
  obtain ⟨body, recorded'', whole', moved''⟩ := inner.events
  simp only [stretch] at recorded''
  have at_mark : u.events[t.events.size]? = some .tombstone := by
    rw [← Array.getElem?_toList, recorded'', size, List.append_assoc,
      List.getElem?_append_right (by simp)]
    simp
  have closed := opened.close whole' node
  have stretch' : ((u.events.setIfInBounds t.events.size (.start outer none)).push .finish).toList =
      s.events.toList ++ (more.set head (.start kind (some (more.length - head))) ++
        .start outer none :: (body ++ [.finish])) := by
    simp [recorded'', size, List.set_append_right]
  have count : rawCount (more.set head (.start kind (some (more.length - head)))) = rawCount more :=
    rawCount_set found
  refine ⟨(u.events.setIfInBounds t.events.size (.start outer none)).push .finish,
    by simp [complete, mark, at_mark, Event.tombstone],
    ⟨inner.depth.trans passes.depth, inner.noLambda.trans passes.noLambda, _, stretch', closed, ?_⟩,
    _, more.length, stretch', by simp [mark, size], headed.around whole node found whole'⟩
  simp only [rawCount_append, count, rawCount] at moved'' ⊢
  omega

/-- A node that is given up leaves what it holds in its place. -/
theorem release_ok (passes : Passes s.start t) :
    ∃ events, t.release s.mark = .ok { t with events } ∧ Passes s { t with events } := by
  obtain ⟨body, recorded, whole, moved⟩ := passes.events
  simp only [start, Array.toList_push, List.append_assoc] at recorded
  have size : t.events.size = s.events.size + 1 + body.length := by
    rw [← Array.length_toList, recorded]
    simp
    omega
  by_cases empty : body = []
  · subst empty
    have pushed : t.events = s.events.push .tombstone := Array.ext' (by simpa using recorded)
    refine ⟨s.events, ?_, passes.depth, passes.noLambda, [], by simp, .nil, moved⟩
    simp [release, mark, pushed]
  · have long : body.length ≠ 0 := by simpa using empty
    refine ⟨t.events, ?_, passes.depth, passes.noLambda, .tombstone :: body, by simpa using recorded,
      Segment.tombstone.append whole, by simpa [rawCount, Event.tombstone, start] using moved⟩
    rw [release, if_neg (by simp only [mark]; omega)]

private theorem consumeRest_passes (regular : env.stream.Regular) (inside : s.position < env.stream.size) :
    Passes s (s.consumeRest env) ∧ (s.consumeRest env).current env = .eof ∧
      (s.consumeRest env).position < env.stream.size ∧
      (s.recovery = .abandoned → (s.consumeRest env).recovery = .abandoned) := by
  fun_induction consumeRest env s with
  | case1 s ended => exact ⟨.refl, ended, inside, id⟩
  | case2 s more ih =>
    have room := position_succ_lt more
    have first : Passes s (s.pushToken env (s.current env) 1) :=
      pushToken_passes (pushCurrent_proper regular) room
    obtain ⟨rest, ended, last, kept⟩ := ih (by rw [position_pushToken more]; exact room)
    exact ⟨first.trans rest, ended, last, fun abandoned => kept (by simp [pushToken, abandoned])⟩

theorem Passes.withRecovery (recovery : RecoveryState) : Passes s (s.withRecovery recovery) :=
  .of_eq rfl rfl rfl rfl

private theorem abandon_ok (regular : env.stream.Regular) (inside : s.position < env.stream.size)
    (going : s.recovery ≠ .abandoned) :
    ∃ t, s.abandon env = .ok t ∧ After env s t ∧ t.recovery = .abandoned ∧ t.current env = .eof ∧
      (s.current env = .eof → t.events = s.events) ∧
      (s.current env ≠ .eof → s.Heads ⟨s.mark.position, .error⟩ t) := by
  have given : Passes s (s.withRecovery .abandoned) := .withRecovery _
  by_cases ended : s.current env = .eof
  · refine ⟨s.withRecovery .abandoned, ?_, ⟨given, inside, fun _ => ended, by simp [State.withRecovery]⟩,
      rfl, ended, fun _ => rfl, fun more => absurd ended more⟩
    rw [abandon, if_neg going]
    exact if_pos ended
  · obtain ⟨rest, at_end, last, kept⟩ :=
      consumeRest_passes (s := (s.withRecovery .abandoned).start) regular inside
    obtain ⟨events, more, done, recorded, headed, passes⟩ :=
      complete_ok rest (show Kind.error.isNode by rfl)
    generalize same : (s.withRecovery .abandoned).start.consumeRest env = t at *
    have abandoned := kept rfl
    refine ⟨{ t with events }, ?_, ⟨given.trans passes, last, fun _ => at_end, ?_⟩, abandoned, at_end,
      fun atEnd => absurd atEnd ended, fun _ => ⟨more, 0, recorded, rfl, headed⟩⟩
    · rw [abandon, if_neg going]
      exact (if_neg ended).trans (by rw [same]; exact done)
    · simp [abandoned]

private theorem count_after (good : Good env s) : After env s s.count :=
  ⟨.of_eq rfl rfl rfl rfl, good.inside, good.ended, good.strict⟩

theorem isTold_of_abandoned (abandoned : s.recovery = .abandoned) : s.isTold = true := by
  simp [isTold, abandoned]

/-- In strict mode there is nothing to tell only once the parse is abandoned. -/
theorem Good.abandoned_of_isTold (good : Good env s) (strict : env.options.mode = .strict)
    (told : s.isTold) : s.recovery = .abandoned := by
  have quiet := good.strict strict
  simpa [isTold, quiet] using told

theorem report_lenient (good : Good env s) (lenient : env.options.mode = .lenient) (issue : Issue) :
    ∃ t, s.report env issue = .ok t ∧ After env s t ∧ t.position = s.position ∧
      t.events = s.events := by
  by_cases told : s.count.isTold
  · exact ⟨s.count, by simp only [report, told, if_true], count_after good, rfl, rfl⟩
  · refine ⟨s.count.tell env issue, by simp [report, told, lenient], ⟨.of_eq rfl rfl rfl rfl, ?_⟩,
      rfl, rfl⟩
    exact ⟨good.inside, by simp [tell], by simp [lenient]⟩

/-- A report in strict mode leads to the end of input, where the parse is abandoned. -/
theorem report_strict (regular : env.stream.Regular) (good : Good env s)
    (strict : env.options.mode = .strict) (issue : Issue) :
    ∃ t, s.report env issue = .ok t ∧ After env s t ∧ t.recovery = .abandoned ∧
      t.current env = .eof ∧ (s.current env = .eof → t.events = s.events) ∧
      (s.current env ≠ .eof → s.Heads ⟨s.mark.position, .error⟩ t) := by
  by_cases told : s.count.isTold
  · have abandoned := (count_after good).good.abandoned_of_isTold strict told
    exact ⟨s.count, by simp only [report, told, if_true], count_after good, abandoned,
      good.ended abandoned, fun _ => rfl, fun more => absurd (good.ended abandoned) more⟩
  · obtain ⟨t, run, after, abandoned, ended, kept, swallowed⟩ :=
      abandon_ok (s := s.count.tell env issue) regular good.inside (by simp [tell])
    have telling : Passes s (s.count.tell env issue) := .of_eq rfl rfl rfl rfl
    exact ⟨t, by simp [report, told, strict, run], ⟨telling.trans after.toPasses, after.good⟩,
      abandoned, ended, kept, swallowed⟩

theorem report_ok (regular : env.stream.Regular) (good : Good env s) (issue : Issue) :
    ∃ t, s.report env issue = .ok t ∧ After env s t := by
  cases mode : env.options.mode with
  | lenient =>
    obtain ⟨t, run, after, -⟩ := report_lenient good mode issue
    exact ⟨t, run, after⟩
  | strict =>
    obtain ⟨t, run, after, -⟩ := report_strict regular good mode issue
    exact ⟨t, run, after⟩

/-- To report a token and skip it gets past it. -/
theorem reportAndSkip_ok (regular : env.stream.Regular) (good : Good env s) (issue : Issue) :
    ∃ t, s.reportAndSkip env issue = .ok t ∧ After env s t ∧
      (s.current env ≠ .eof → s.position < t.position) := by
  cases mode : env.options.mode with
  | strict =>
    obtain ⟨t, run, after, -, ended, -⟩ := report_strict regular good mode issue
    refine ⟨t, ?_, after, after.position_lt ended⟩
    rw [reportAndSkip, run]
    exact if_pos (.inl ended)
  | lenient =>
    obtain ⟨t, run, after, still, -⟩ := report_lenient good mode issue
    have same : t.current env = s.current env := by simp [current, cursor, still]
    by_cases more : s.current env = .eof
    · refine ⟨t, ?_, after, fun away => absurd more away⟩
      rw [reportAndSkip, run]
      exact if_pos (.inl (same.trans more))
    · have going : t.recovery ≠ .abandoned := after.good.not_abandoned (same ▸ more)
      have room := position_succ_lt (s := t) (same ▸ more)
      have skip : t.start.consumeAny env = t.start.pushToken env (t.current env) 1 :=
        if_neg (show t.start.current env ≠ .eof from same ▸ more)
      have passes : Passes t.start (t.start.consumeAny env) :=
        skip ▸ pushToken_passes (pushCurrent_proper regular) room
      obtain ⟨events, record, done, -, -, whole⟩ := complete_ok passes (show Kind.error.isNode by rfl)
      have stepped : (t.start.consumeAny env).position = t.position + 1 := by
        rw [skip]
        exact position_pushToken (s := t.start) (same ▸ more) _
      refine ⟨_, ?_, after.trans ⟨whole, ?_, ?_, ?_⟩, fun _ => ?_⟩
      · rw [reportAndSkip, run]
        exact (if_neg (by simp [same, more, going])).trans done
      · simp only [stepped]
        exact room
      · intro abandoned
        simp only [skip, pushToken] at abandoned
        split at abandoned
        · cases abandoned
        · exact absurd abandoned going
      · simp [mode]
      · simp only [stepped]
        omega

private theorem skipToken_passes (regular : env.stream.Regular) (more : s.current env ≠ .eof) :
    Passes s (s.skipToken env) ∧ (s.skipToken env).position < env.stream.size ∧
      (s.skipToken env).recovery = .recovering := by
  have room := position_succ_lt more
  have first : Passes s (s.pushToken env (s.current env) 1) :=
    pushToken_passes (pushCurrent_proper regular) room
  refine ⟨first.trans (.withRecovery _), ?_, rfl⟩
  have stepped := position_pushToken more (s.current env)
  simp only [skipToken, State.withRecovery, stepped]
  exact room

private theorem skipBraces_passes (regular : env.stream.Regular) (depth : Nat)
    (inside : s.position < env.stream.size) (recovering : s.recovery = .recovering) :
    Passes s (s.skipBraces env depth) ∧ (s.skipBraces env depth).position < env.stream.size ∧
      (s.skipBraces env depth).recovery = .recovering := by
  fun_induction skipBraces env depth s with
  | case1 => exact ⟨.refl, inside, recovering⟩
  | case2 depth s more => exact skipToken_passes regular more
  | case3 depth s more inner deeper ih =>
    obtain ⟨first, room, still⟩ := skipToken_passes regular more
    obtain ⟨rest, last, kept⟩ := ih room still
    exact ⟨first.trans rest, last, kept⟩

private theorem skipTo_passes (regular : env.stream.Regular) (recovery : KindSet)
    (inside : s.position < env.stream.size) (recovering : s.recovery = .recovering) :
    Passes s (s.skipTo env recovery) ∧ (s.skipTo env recovery).position < env.stream.size := by
  fun_induction skipTo env recovery s with
  | case1 => exact ⟨.refl, inside⟩
  | case2 s away ih =>
    have more : s.current env ≠ .eof := by
      intro ended
      simp [atSync, ended] at away
    have one : Passes s (s.skipOne env) ∧ (s.skipOne env).position < env.stream.size ∧
        (s.skipOne env).recovery = .recovering := by
      unfold skipOne
      split
      · exact skipBraces_passes regular 0 inside recovering
      · exact skipToken_passes regular more
    obtain ⟨rest, last⟩ := ih one.2.1 one.2.2
    exact ⟨one.1.trans rest, last⟩

/-- Skipping keeps to the tokens, and abandons the parse only at the end of input. -/
theorem settleAt_ok (regular : env.stream.Regular) (good : Good env s) (recovery : KindSet) :
    ∃ t, s.settleAt env recovery = .ok t ∧ After env s t := by
  unfold settleAt
  split
  · next ended =>
    obtain ⟨t, run, after⟩ := report_ok regular good .recoveryRanOut
    have at_end : t.current env = .eof := by
      cases mode : env.options.mode with
      | strict =>
        obtain ⟨u, run', -, -, at_end, -⟩ := report_strict regular good mode .recoveryRanOut
        cases run.symm.trans run'
        exact at_end
      | lenient =>
        obtain ⟨u, run', -, still, -⟩ := report_lenient good mode .recoveryRanOut
        cases run.symm.trans run'
        simpa [current, cursor, still] using ended.1
    refine ⟨t.withRecovery .abandoned, by rw [run]; rfl, after.toPasses.trans (.withRecovery _), ?_⟩
    exact ⟨after.good.inside, fun _ => at_end, by simp [State.withRecovery]⟩
  · exact ⟨s, rfl, .refl good⟩

theorem recover_ok (regular : env.stream.Regular) (good : Good env s) (recovery : KindSet) :
    ∃ t, s.recover env recovery = .ok t ∧ After env s t := by
  unfold recover
  split
  · exact ⟨s, rfl, .refl good⟩
  · have lost : Passes s (s.withRecovery .recovering) := .withRecovery _
    obtain ⟨passes, inside⟩ := skipTo_passes (s := (s.withRecovery .recovering).start) regular
      recovery good.inside rfl
    obtain ⟨events, record, done, -, -, whole⟩ := complete_ok passes (show Kind.error.isNode by rfl)
    generalize same : (s.withRecovery .recovering).start.skipTo env recovery = t at *
    have settled : Good env (State.withRecovery { t with events } .normal) :=
      ⟨inside, by simp [State.withRecovery], by simp [State.withRecovery]⟩
    obtain ⟨u, run, after⟩ := settleAt_ok regular settled recovery
    refine ⟨u, ?_, (lost.trans whole).trans ((Passes.withRecovery .normal).trans after.toPasses),
      after.good⟩
    have done' : ((s.withRecovery .recovering).start.skipTo env recovery).complete s.mark .error =
        .ok { t with events } := by
      rw [same]
      exact done
    simp only [done']
    exact run

/-- Beyond the deepest level the parse is abandoned, at the end of input. -/
theorem abandonNested_ok (regular : env.stream.Regular) (good : Good env s) :
    ∃ t, s.abandonNested env = .ok t ∧ After env s t ∧ t.current env = .eof := by
  unfold abandonNested
  split
  · next abandoned => exact ⟨s, rfl, .refl good, good.ended abandoned⟩
  · next going =>
    obtain ⟨t, run, after⟩ := report_ok regular good (.nestingTooDeep env.options.maxDepth)
    by_cases abandoned : t.recovery = .abandoned
    · refine ⟨t, ?_, after, after.good.ended abandoned⟩
      rw [run]
      exact if_pos abandoned
    · obtain ⟨u, run', after', -, ended, -⟩ := abandon_ok regular after.good.inside abandoned
      refine ⟨u, ?_, after.trans after', ended⟩
      rw [run]
      exact run'

theorem Good.enter (good : Good env s) : Good env s.enter := ⟨good.inside, good.ended, good.strict⟩

theorem Good.withNoLambda (good : Good env s) (noLambda : Bool) : Good env (s.withNoLambda noLambda) :=
  ⟨good.inside, good.ended, good.strict⟩

theorem After.leave (after : After env s.enter t) : After env s t.leave where
  depth := by simp [State.leave, after.depth, State.enter]
  noLambda := after.noLambda
  events := after.events
  good := ⟨after.good.inside, after.good.ended, after.good.strict⟩

theorem After.withNoLambda {noLambda : Bool} (after : After env (s.withNoLambda noLambda) t) :
    After env s (t.withNoLambda s.noLambda) where
  depth := after.depth
  noLambda := rfl
  events := after.events
  good := ⟨after.good.inside, after.good.ended, after.good.strict⟩

end Parser.State

end LosslessJava
