import LosslessJava.Proofs.Soundness

/-! The rules for a whole input. A file records one tree of all tokens. An expression records one
tree of all tokens but the end of input, unless it is a type that stands by itself and a report has
swallowed what follows it: then there are two. -/

namespace LosslessJava.Grammar

open LosslessJava.Parser Event

variable {scope : Scope} {i rank : Nat}

theorem Keeps.loopToEnd {rule : Rule Unit} (room : scope.Room rank i)
    (each : ∀ j, scope.Room rank j → (scope.cursor j).current ≠ .eof →
      Keeps scope j rule fun _ k => j < k) :
    Keeps scope i (loop do if ← Parser.sees .eof then return false else rule; return true)
      fun _ j => (scope.cursor j).current = .eof := by
  refine .loopFrom (fun _ _ => True) trivial fun _ j later _ => ?_
  refine (Keeps.stepTo (fun k => j < k) (fun k => (scope.cursor k).current = .eof) ?_).weaken ?_
  · refine .sees (fun ended => .pure (by simpa using ended)) fun more => ?_
    exact (each j (room.later later (by omega)) more).bind fun _ _ _ _ moved => .pure (by simpa using moved)
  · intro next k _ holds
    cases next with
    | some => exact .inl ⟨trivial, holds.2⟩
    | none => exact holds

private theorem importRest_keeps (room : scope.Room rank i) (here : (scope.cursor i).current = .importKw) :
    Keeps scope i importRest fun _ _ => True :=
  (Keeps.moved room (.consume_moves here (by decide)) fun _ => .bind (Steady.accept (by decide)).discard fun _ =>
    .bind qualifiedName_steady fun _ => fun _ _ => .test (.and (.sees _) (.nthIs _ _))
      (fun star => by
        simp only [Bool.and_eq_true, beq_iff_eq] at star
        refine .consumeThen star.1 (by decide) fun _ => ?_
        refine (Keeps.consume ?_ (by decide)).weaken fun _ _ _ _ => trivial
        exact (scope.nth_cursor_add _ _ _).trans star.2)
      fun _ => .pure trivial).weaken fun _ _ _ _ => trivial

private theorem topLevelRest_answers (modified : Bool) : Answers scope 1 (topLevelRest modified) NodeKind :=
  fun i room => .look .cursor <| by
    dsimp only
    split
    · next here =>
      have rest : Answers scope 1 (do qualifiedName; semicolon Sync.item; return some .packageDecl)
          NodeKind :=
        .bind qualifiedName_steady fun _ => .bind (.semicolon _) fun _ => .pure (.some rfl)
      exact (Keeps.consume here (by decide)).bind fun _ j later _ _ => rest j (room.later later (by omega))
    split
    · next here =>
      exact (importRest_keeps room here.1).bind fun _ _ _ _ _ => (Keeps.semicolon _).bind
        fun _ _ _ _ _ => .pure (.some rfl)
    split
    · next here => exact (Keeps.consume here.1 (by decide)).bind fun _ _ _ _ _ => .pure (.some rfl)
    split
    · next here =>
      exact (moduleDecl_keeps (room.later (Nat.le_refl _) (by omega)) here).bind fun _ _ _ _ _ => .pure (.some rfl)
    · exact typeDeclRest_answers i room

theorem topLevelItem_steady : Steady scope 1 topLevelItem :=
  .discardNodeIf <| .bind (modifiers_yields.steady.lower (by decide)) topLevelRest_answers

theorem topLevelItems_keeps (room : scope.Room 1 i) :
    Keeps scope i (loop do
      if ← Parser.sees .eof then
        return false
      else
        skipUnmoved topLevelItem (.expected "a declaration")
        return true) fun _ j => (scope.cursor j).current = .eof :=
  .loopToEnd room fun j room more =>
    (Keeps.skipUnmoved (topLevelItem_steady j room)).weaken fun _ _ _ moves => moves more

/-- The end of input, which no token follows, may be put into a node with all that came before. -/
theorem completeFile {env : Env} {s t : State} {kind : Kind} (regular : env.stream.Regular)
    (after : State.After env s.start t) (ended : t.current env = .eof) (node : kind.isNode)
    (fresh : s.events = #[]) (first : s.position = 0) :
    ∃ u, (Action.complete s.mark kind).run env (t.pushToken env .eof 1) =
      .ok (⟨s.mark.position, kind⟩, u) ∧ OneTree u.events.toList env.stream.size := by
  have last : Event.Proper (.token .eof 1) := ⟨by decide, .inl rfl⟩
  -- For the sake of the count, the position behind the last token.
  let behind : State := { t.pushToken env .eof 1 with position := t.position + 1 }
  have passes : State.Passes t behind :=
    ⟨rfl, rfl, [.token .eof 1], by simp [behind, State.pushToken], .token last, by simp [behind, rawCount]⟩
  obtain ⟨events, tree, done, recorded, headed, whole⟩ :=
    State.complete_ok (after.toPasses.trans passes) node
  have moved := State.complete_moveTo (s := behind) s.mark kind (t.pushToken env .eof 1).position
  obtain ⟨tree', recorded', segment, counted⟩ := whole.events
  obtain rfl := List.append_cancel_left (recorded.symm.trans recorded')
  refine ⟨{ t.pushToken env .eof 1 with events }, ?_, [], tree, 0, ?_, by simp, segment, headed, ?_⟩
  · rw [done] at moved
    simp only [Action.run]
    exact congrArg (Except.map _) moved
  · simpa [fresh] using recorded
  · have end_of_input := after.good.position_of_eof regular ended
    simp only [behind, first] at counted
    omega

theorem compilationUnit_settles {s : State} (good : s.Good scope.env)
    (room : scope.Room 1 s.position) (fresh : s.events = #[]) (first : s.position = 0) :
    scope.Settles compilationUnit s fun _ t => OneTree t.events.toList scope.env.stream.size := by
  refine Program.Settles.discard (.actThen rfl (.bind
    (P := fun kind u => kind = .compilationUnit ∧ ∃ t : State, State.After scope.env s.start t ∧
      t.current scope.env = .eof ∧ u = t.pushToken scope.env .eof 1) ?_ ?_)) fun _ _ whole => whole
  · refine ((topLevelItems_keeps room s.start good.start rfl).bind fun _ t _ ⟨after, ended⟩ => ?_).bind
      fun _ u _ last => .pure ⟨rfl, last⟩
    exact .act (a := ()) (State.run_consume.mpr (if_pos ended)) ⟨t, after, ended, rfl⟩
  · rintro _ _ _ ⟨rfl, t, after, ended, rfl⟩
    obtain ⟨u, done, whole⟩ := completeFile scope.regular after ended
      (show Kind.compilationUnit.isNode by decide) fresh first
    exact .act done whole

private theorem restOfInput_keeps (room : scope.Room rank i) :
    Keeps scope i restOfInput fun _ j => (scope.cursor j).current = .eof :=
  .sees (fun ended => .pure ended) fun _ => (Keeps.expectedHere _).bind fun _ _ later _ _ =>
    .loopToEnd (room.later later (Nat.le_refl _)) fun _ _ more => .consumeAny_moves more

/-- A start that is given up stays where something was recorded behind it. -/
theorem release_given {env : Env} {s t : State} (more : t.events.size ≠ s.events.size + 1) :
    (Action.release s.mark).run env t = .ok ((), t) := by
  have away : ¬ s.mark.position + 1 = t.events.size := fun same => more same.symm
  simp only [Action.run, State.release, if_neg away]
  rfl

section

variable {env : Env} {s t : State}

private theorem oneTree_of_heads {first : Completed} (given : ∀ event ∈ s.events.toList, event = .tombstone)
    (start : s.position = 0) (after : State.After env s t) (heads : s.Heads first t) :
    OneTree t.events.toList t.position := by
  obtain ⟨tree, head, recorded, -, headed⟩ := heads
  obtain ⟨tree', recorded', whole, counted⟩ := after.events
  obtain rfl := List.append_cancel_left (recorded.symm.trans recorded')
  exact ⟨_, tree, head, recorded, given, whole, headed, by omega⟩

private theorem twoTrees_of_strays (given : ∀ event ∈ s.events.toList, event = .tombstone)
    (strays : s.Strays t) : TwoTrees t.events.toList := by
  obtain ⟨front, back, first, second, recorded, strays⟩ := strays
  exact ⟨_, front, back, first, second, recorded, given, strays⟩

/-- Behind a start that was given up, a led operand is at least one tree. -/
theorem Led.size_ne {stray : Prop} {first : Completed} (led : Led env s.start stray first t) :
    t.events.size ≠ s.events.size + 1 := by
  have longer {more : List Event} (recorded : t.events.toList = s.start.events.toList ++ more) :
      t.events.size = s.events.size + 1 + more.length := by
    have length := congrArg List.length recorded
    simp [State.start] at length
    omega
  rcases led with ⟨-, more, head, recorded, -, headed⟩ | ⟨-, -, front, back, one, two, recorded, -, headed, -⟩
  · obtain ⟨front, kind, parent, body, rfl, -⟩ := headed
    simp [longer recorded]
  · obtain ⟨front, kind, parent, body, rfl, -⟩ := headed
    simp [longer recorded]

end

/-- What stands behind an expression at the end of input, with the kind of a node around all of it if
there is to be one. -/
def Ends (env : Env) (s : State) (kind : Option Kind) (t : State) : Prop :=
  State.After env s.start t ∧ t.current env = .eof ∧
    ((kind = some .error ∧ ¬ BareExpression env s.start) ∨
      kind = none ∧ ∃ first, Led env s.start (BareExpression env s.start) first t)

/-- An expression is one tree of all tokens but the end of input, unless it is a bare type. -/
theorem expressionRoot_settles {s : State} (good : s.Good scope.env)
    (room : scope.Room 3 s.position) (fresh : s.events = #[]) (first : s.position = 0) :
    scope.Settles expressionRoot s fun _ t => State.After scope.env s t ∧
      (¬ BareExpression scope.env s.start ∧ OneTree t.events.toList (scope.env.stream.size - 1) ∨
        BareExpression scope.env s.start ∧ TwoTrees t.events.toList) := by
  refine Program.Settles.discard (.actThen rfl (.bind (P := Ends scope.env s) ?_ ?_))
    fun _ _ whole => whole
  · have rest {u : State} (after : State.After scope.env s.start u)
        (joined : ¬ BareExpression scope.env s.start) :
        scope.Settles (do restOfInput; return some Kind.error) u (Ends scope.env s) :=
      (restOfInput_keeps (room.later after.position_le (Nat.le_refl _)) u after.good rfl).bind
        fun _ _ _ last => .pure ⟨after.trans last.1, last.2, .inl ⟨rfl, joined⟩⟩
    refine (settles_call (.expression .assignment) (by decide) good.start room trivial).bind
      fun found t _ gives => ?_
    obtain ⟨after, -, finds, lacks⟩ := gives
    cases found with
    | none =>
      exact settles_look after.good (.and (.pure false) (.sees _)) fun u _ tried =>
        rest (after.trans (tried.after after.good)) (lacks rfl)
    | some top =>
      obtain ⟨-, led⟩ := finds top rfl
      refine settles_look after.good (.and (.pure true) (.sees _)) fun u _ tried => ?_
      have after' := after.trans (tried.after after.good)
      split
      · next ended =>
        simp only [Bool.true_and, beq_iff_eq] at ended
        exact .pure ⟨after', tried.current.trans ended, .inr ⟨rfl, top, led.tried tried⟩⟩
      · next more =>
        simp only [Bool.true_and, beq_iff_eq] at more
        exact rest after' (led.heads more).1
  · rintro kind t _ ⟨after, ended, ⟨rfl, joined⟩ | ⟨rfl, top, led⟩⟩
    · obtain ⟨u, done, still, after, heads⟩ :=
        State.complete_after after (show Kind.error.isNode by decide)
      refine .actThen done (.pure ⟨after, .inl ⟨joined, ?_⟩⟩)
      have last := after.good.position_of_eof scope.regular
        (by simpa [State.current, State.cursor, still] using ended)
      rw [← last]
      exact oneTree_of_heads (by simp [fresh]) first after heads
    · have given : ∀ event ∈ s.start.events.toList, event = .tombstone := by simp [State.start, fresh]
      have last := after.good.position_of_eof scope.regular ended
      have released := @release_given scope.env _ _ led.size_ne
      have kept : State.After scope.env s t := by
        obtain ⟨events, done, passes⟩ := State.release_ok after.toPasses
        rw [Action.run, done] at released
        have same : { t with events } = t := congrArg Prod.snd (Except.ok.inj released)
        exact ⟨same ▸ passes, after.good⟩
      refine .actThen released (.pure ⟨kept, led.imp ?_ ?_⟩)
      · rw [← last]
        exact fun one => ⟨one.1, oneTree_of_heads given first after one.2⟩
      · exact fun two => ⟨two.1, twoTrees_of_strays given two.2.2⟩

end LosslessJava.Grammar
