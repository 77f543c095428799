import LosslessJava.Proofs.Grammar.Modifiers

/-! Types, type arguments and type parameters. A wildcard is made out by a look ahead that takes an
annotation to be simpler than it is, so its `?` may be missing where its annotations end. -/

namespace LosslessJava.Grammar

open LosslessJava.Parser

variable {scope : Scope} {i rank : Nat}

section TypeArguments

private theorem seesDims_looks : Looks scope i seesDims
    ((scope.cursor i).current == .leftBracket && (scope.cursor i).nth 1 == .rightBracket) :=
  .and (.sees _) (.nthIs _ _)

private theorem emptyBrackets_moves (first : (scope.cursor i).current = .leftBracket)
    (second : (scope.cursor i).nth 1 = .rightBracket) :
    Keeps scope i emptyBrackets fun _ j => i < j := by
  refine .consumeThen first (by decide) fun _ => (Keeps.consume_moves ?_ (by decide)).weaken fun _ _ _ moved => by omega
  exact (scope.nth_cursor_add _ _ _).trans second

def wildcardAt (scope : Scope) (i : Nat) : Bool :=
  let cursor := scope.cursor i
  cursor.current == .question ||
    cursor.current == .atSign && annotationsThen cursor .question 0

private theorem seesWildcard_looks : Looks scope i seesWildcard (wildcardAt scope i) := by
  refine .bind (.sees _) ?_
  unfold wildcardAt
  split
  · next here =>
    simp only [here, Bool.true_or]
    exact .pure _
  · next away =>
    simp only [away, Bool.false_or]
    refine .bind (.sees _) ?_
    split
    · next here =>
      simp only [here, Bool.true_and]
      exact .bind .cursor (.pure _)
    · next away =>
      simp only [away, Bool.false_and]
      exact .pure _

private theorem wildcardBound_steady : Steady scope 4 wildcardBound :=
  .test (fun _ => (Looks.sees _).or (Looks.sees _)) (fun i room here => by
    have more : (scope.cursor i).current ≠ .eof := by
      intro ended
      simp [ended] at here
    exact (Keeps.consumeAny more).bind fun _ j later _ _ =>
      type_steady.discard j (room.later later (by omega))) (.pure ())

/-- A type argument moves if there is one; the look ahead for a wildcard may be wrong. -/
theorem typeArg_settles {s : State} (good : s.Good scope.env) (room : scope.Room 1 s.position)
    (own : MisledWildcard scope.env s → scope.own.halts) :
    scope.Settles typeArg s fun found t =>
      State.After scope.env s t ∧ (found = true → s.position < t.position) := by
  refine settles_look good seesWildcard_looks fun seen ran tried => ?_
  have after := tried.after good
  have here := tried.position
  split
  · next wild =>
    rw [wild] at ran
    have committed : scope.Settles wildcard seen fun _ t =>
        State.After scope.env seen t ∧ s.position < t.position := by
      refine settles_discardNode (by decide) ?_
      have passed : scope.Settles (Functor.discard annotations) seen.start fun _ t =>
          State.After scope.env seen.start t ∧
            ∃ found, annotations.exec scope.env rule seen.start = some (.ok (found, t)) :=
        (annotations_yields.steady seen.position (here ▸ room.later (Nat.le_refl _) (by omega))
          seen.start after.good.start rfl).bind fun found _ ran ⟨later, _⟩ => .pure ⟨later, found, ran⟩
      refine passed.bind fun _ t _ ⟨later, found, ran'⟩ => ?_
      have reached : s.position ≤ t.position := by
        have := later.position_le
        simpa [here, State.start] using this
      by_cases question : t.current scope.env = .question
      · exact Keeps.goOn (P := fun _ j => s.position < j) later <| .consumeThen question (by decide) fun inside =>
          (wildcardBound_steady _ (room.moved (by omega) inside)).weaken fun _ _ _ _ => by omega
      · exact .actHaltThen (State.consume_misplaced question)
          (own ⟨seen, found, t, ran, ran', question⟩)
    exact committed.bind fun _ t _ passed => .pure ⟨after.trans passed.1, fun _ => passed.2⟩
  · exact Keeps.goOn (P := fun found j => found = true → s.position < j) after <|
      (type_finds (here ▸ room)).keeps.bind fun _ _ _ _ moves => .pure fun some => here ▸ moves some

theorem typeArgs_moves (room : scope.Room 0 i) (here : (scope.cursor i).current = .lt) :
    Keeps scope i typeArgs fun _ j => i < j :=
  .discardNode (by decide) <| .test (Looks.nthIs _ _)
    (fun closed => .consumeThen here (by decide) fun _ =>
      have there := (scope.nth_cursor_add _ _ _).trans (by simpa using closed)
      (Keeps.consume_moves there (by decide)).weaken fun _ _ _ moved => by omega)
    fun _ => delimited_keeps room here (by decide) fun _ room => typeArg_yields _ (room.later (Nat.le_refl _) (by omega))

theorem someTypeArgs_steady : Steady scope 0 (whenSees .lt typeArgs) :=
  .whenSees fun _ room here => (typeArgs_moves room here).weaken fun _ _ _ _ => trivial

end TypeArguments

section ElementTypes

private theorem classTypeSegment_yields : Yields scope 0 classTypeSegment id := fun i room => by
  refine (someTypeArgs_steady i room).bind fun _ j later _ _ => .look (.nth 1) (.look (.nth 2) ?_)
  refine .test (.and (.sees _) (.pure _)) (fun here => ?_) fun _ => .pure (by simp)
  simp only [Bool.and_eq_true, beq_iff_eq] at here
  refine (Keeps.consume_moves here.1 (by decide)).bind fun _ k _ inside moved => ?_
  refine (annotations_steady k (room.moved (by omega) inside)).bind fun _ l _ _ _ => ?_
  exact .acceptThen (by decide) (fun _ => .pure fun _ => by omega)
    fun _ => (Keeps.expectedHere _).bind fun _ _ _ _ _ => .pure (by simp)

private theorem classTypeSegments_moves (room : scope.Room 0 i)
    (here : (scope.cursor i).current = .identifier) :
    Keeps scope i classTypeSegments fun _ j => i < j :=
  .moved room (.consume_moves here (by decide)) fun _ => .loop fun _ room =>
    classTypeSegment_yields _ (room.later (Nat.le_refl _) (by omega))

private theorem annotations_keeps (room : scope.Room 0 i) :
    Keeps scope i annotations fun found j =>
      if found then i < j else j = i ∧ annotationAt (scope.cursor i) = false := by
  refine .loopFrom (fun found j => scope.Room 0 j ∧ if found then i < j else j = i) ⟨room, rfl⟩
    fun found j _ ⟨room, reached⟩ => ?_
  refine Keeps.weaken (.stepTo (fun k => j < k)
    (fun k => k = j ∧ annotationAt (scope.cursor j) = false) ?_) ?_
  · refine .test seesAnnotation_looks (fun here => ?_) fun away => .pure ⟨rfl, away⟩
    exact (annotation_moves room (annotationAt_here here)).bind fun _ _ _ _ moved => .pure moved
  · intro next k on kept
    cases next with
    | some next =>
      obtain ⟨rfl, moved⟩ := kept
      refine .inl ⟨⟨room.later on (by omega), ?_⟩, moved⟩
      cases found <;> simp at reached ⊢ <;> omega
    | none =>
      obtain ⟨rfl, away⟩ := kept
      cases found
      · simp at reached ⊢
        exact ⟨reached, reached ▸ away⟩
      · exact reached

/-- An element type moves if it is one, and also if it is none, unless none can stand there. -/
theorem elementType_finds (room : scope.Room 0 i) :
    Finds scope i elementType fun found j =>
      i < j ∨ found = false ∧ ((scope.cursor i).current = .eof ∨ Untypable scope.env (scope.cursor i)) := by
  refine .filter (.nodeIf ?_) fun _ holds => .inl (by simpa using holds)
  refine (annotations_keeps room).bind fun annotated j later inside reached => ?_
  refine .test (.seesAny _) (fun primitive => ?_) fun notPrimitive => .sees (fun named => ?_) fun unnamed => ?_
  · have more : (scope.cursor j).current ≠ .eof := by
      intro ended
      rw [ended] at primitive
      exact absurd primitive (by decide +kernel)
    exact (Keeps.consumeAny more).bind fun _ _ _ _ moved => .pure ⟨.some rfl, .inl (by omega)⟩
  · exact (classTypeSegments_moves (room.later later (by omega)) named).bind fun _ _ _ _ moved =>
      .pure ⟨.some rfl, .inl (by omega)⟩
  · refine (Keeps.expectedHere _).bind fun _ k on _ reported => .pure ?_
    cases annotated with
    | true => exact ⟨.some rfl, .inl (Nat.lt_of_lt_of_le reached on)⟩
    | false =>
      obtain ⟨rfl, bare⟩ := reached
      refine ⟨.none, ?_⟩
      rcases reported with ⟨-, lenient⟩ | ⟨ended, -⟩
      · exact .inr ⟨rfl, .inr ⟨lenient, notPrimitive, unnamed, bare⟩⟩
      · by_cases still : j = k
        · exact .inr ⟨rfl, .inl (still ▸ ended)⟩
        · exact .inl (by omega)

end ElementTypes

section Types

private theorem settles_arraySuffix {s t : State} {first : Completed} (after : State.After scope.env s t)
    (heads : s.Heads first t) :
    scope.Settles (arraySuffix first) t fun outer u =>
      State.After scope.env s u ∧ s.Heads outer u ∧ t.position ≤ u.position := by
  have led : Led scope.env s False first t := .inl ⟨id, heads⟩
  refine (settles_chain after led fun outer u after led _ =>
    settles_lookThen after led seesDims_looks fun v after led same => ?_).weaken
      fun outer u _ ⟨after, led, later⟩ => ⟨after, (led.resolve_right (by simp)).2, later⟩
  split
  · next here =>
    simp only [Bool.and_eq_true, beq_iff_eq] at here
    rw [← same] at here
    refine settles_attach after led (by simp [here.1]) ?_
    exact (emptyBrackets_moves here.1 here.2).bind fun _ _ _ _ moved => .pure ⟨rfl, moved⟩
  · exact settles_unattached after led

/-- A type moves if it is one, and also if it is none, unless none can stand there. -/
theorem type_settles {s : State} (good : s.Good scope.env) (room : scope.Room 0 s.position) :
    scope.Settles type s fun found t =>
      State.After scope.env s t ∧ Nonterminal.type.Post scope.env s found t := by
  by_cases inside : s.depth < scope.env.options.maxDepth
  · refine .nested inside ((elementType_finds room s.enter good.enter rfl).bind
      fun found t _ ⟨after, heads, moves⟩ => ?_)
    cases found with
    | some first =>
      have moved : s.position < t.position := by simpa using moves
      refine (settles_arraySuffix after (heads first rfl)).bind fun outer u _ ⟨later, heads, on⟩ =>
        .pure ⟨later.leave, fun _ same => ?_, by simp⟩
      cases same
      exact ⟨Nat.lt_of_lt_of_le moved on, heads⟩
    | none =>
      refine .pure ⟨after.leave, by simp, fun _ => moves.imp_right fun ⟨_, stands⟩ => ?_⟩
      exact stands.imp_right fun untypable => ⟨inside, untypable⟩
  · obtain ⟨t, run, after, ended⟩ := State.abandonNested_ok scope.regular good
    exact .tooDeep (by omega) run ⟨after, by simp, fun _ => by
      by_cases atEnd : s.current scope.env = .eof
      · exact .inr (.inl atEnd)
      · exact .inl (after.position_lt ended atEnd)⟩

theorem dims_steady : Steady scope rank dims :=
  .test (fun _ => seesDims_looks) (fun i room _ => Steady.discardNode (by decide) (.loop fun _ _ =>
    .test seesDims_looks (fun here => by
      simp only [Bool.and_eq_true, beq_iff_eq] at here
      exact (emptyBrackets_moves here.1 here.2).bind fun _ _ _ _ moved => .pure fun _ => moved)
      fun _ => .pure (by simp)) i room) (.pure ())

theorem resultType_finds (room : scope.Room 1 i) :
    Finds scope i resultType fun found j => found = true → i < j :=
  .sees (fun here => (Builds.node (by decide) (.consume_moves here (by decide))).finds.weaken fun _ _ _ moved _ => moved)
    fun _ => type_finds room

theorem resultType_steady : Steady scope 1 (discard resultType) :=
  fun _ room => (resultType_finds room).keeps.discard fun _ _ _ => trivial

private theorem typesAfter_steady {operator : Kind} (more : operator ≠ .eof) :
    Steady scope 1 (typesAfter operator) :=
  .loop fun i room => .acceptThen more
    (fun _ => (type_steady.discard (i + 1) (room.later (Nat.le_succ i) (Nat.le_refl 1))).bind
      fun _ _ _ _ _ => .pure fun _ => by omega)
    fun _ => .pure (by simp)

private theorem typeBound_steady : Steady scope 0 typeBound :=
  .whenSees fun _ room here => .discardNode (by decide) <|
    (Keeps.moved room (.consume_moves here (by decide)) fun _ =>
      .bind (type_steady.discard.lower (by decide)) fun _ => (typesAfter_steady (by decide)).lower (by decide)).weaken
        fun _ _ _ _ => trivial

private theorem typeParam_yields : Yields scope 0 typeParam id := fun i room =>
  .someNode <| (annotations_steady i room).bind fun _ j later _ _ => .sees
    (fun here => (Keeps.consume_moves here (by decide)).bind fun _ k on inside moved =>
      (typeBound_steady k (room.later (by omega) (by omega))).bind fun _ _ _ _ _ =>
        .pure ⟨.some rfl, fun _ => by omega⟩)
    fun _ => (Keeps.expectedHere _).bind fun _ _ _ _ _ => .pure ⟨.none, by simp⟩

theorem typeParams_moves (room : scope.Room 0 i) (here : (scope.cursor i).current = .lt) :
    Keeps scope i typeParams fun _ j => i < j :=
  .discardNode (by decide) <| delimited_keeps room here (by decide) fun _ room =>
    typeParam_yields _ (room.later (Nat.le_refl _) (by omega))

theorem someTypeParams_steady : Steady scope 0 (whenSees .lt typeParams) :=
  .whenSees fun _ room here => (typeParams_moves room here).weaken fun _ _ _ _ => trivial

end Types

section Clauses

def keywordAt (cursor : TokenCursor) (keyword : Kind) : Bool :=
  if keyword.isContextualKeyword then isWordAt cursor 0 keyword else cursor.current == keyword

private theorem consumeKeyword_moves {keyword : Kind} (here : keywordAt (scope.cursor i) keyword)
    (token : keyword.isToken) (more : keyword ≠ .eof) :
    Keeps scope i (consumeKeyword keyword) fun _ j => i < j := by
  unfold consumeKeyword
  unfold keywordAt at here
  split at here
  · next contextual =>
    simp only [isWordAt, Bool.and_eq_true, beq_iff_eq] at here
    rw [if_pos contextual]
    exact (Keeps.consumeAs here.1 token).weaken fun _ _ _ moved => by omega
  · next plain =>
    rw [if_neg plain]
    exact .consume_moves (by simpa using here) more

theorem clause_moves {keyword kind : Kind} (room : scope.Room 0 i)
    (here : keywordAt (scope.cursor i) keyword) (token : keyword.isToken) (more : keyword ≠ .eof)
    (node : kind.isNode) : Keeps scope i (clause keyword kind) fun _ j => i < j :=
  .discardNode node <| .moved room (consumeKeyword_moves here token more) fun _ =>
    .commaSeparated (type_steady.discard.lower (by decide))

theorem compoundType_steady {operator kind : Kind} (node : kind.isNode)
    (more : operator ≠ .eof) : Steady scope 1 (compoundType operator kind) := by
  intro i room s good here
  subst here
  refine (type_finds room s good rfl).bind fun found t _ ⟨after, heads, _⟩ => ?_
  cases found with
  | none => exact .pure ⟨after, trivial⟩
  | some type =>
    refine Program.Settles.weaken (settles_aroundWhenSees after (heads type rfl) fun _ => ?_)
      fun _ _ _ after => ⟨after, trivial⟩
    exact (typesAfter_steady more t.position (room.later after.position_le (by omega))).bind
      fun _ _ _ _ _ => .pure node

end Clauses

end LosslessJava.Grammar
