import LosslessJava.Proofs.Grammar.Switch

/-! Expressions. An operand that is found has moved, and it is the first of what was recorded, with
one exception: a type of which nothing makes an expression, when the report of that gives the input
up. -/

namespace LosslessJava.Grammar

open LosslessJava.Parser

variable {scope : Scope} {i rank : Nat}

section Arguments

private theorem argList_moves (room : scope.Room 0 i) (here : (scope.cursor i).current = .leftParen) :
    Keeps scope i argList fun _ j => i < j :=
  .discardNode (by decide) <| .bracketed <| delimited_keeps room here (by decide) fun _ room =>
    (anyExpression_yields _ (room.later (Nat.le_refl _) (by omega))).bind fun _ _ _ _ moves => .pure moves

theorem someArgList_steady : Steady scope 0 (whenSees .leftParen argList) :=
  .whenSees fun _ room here => (argList_moves room here).weaken fun _ _ _ _ => trivial

theorem variableInitializer_yields : Yields scope 3 variableInitializer id := fun i room =>
  .sees (fun here => (arrayInitializer_moves (room.later (Nat.le_refl _) (by omega)) here).bind
      fun _ _ _ _ moved => .pure fun _ => moved)
    fun _ => (anyExpression_yields i room).bind fun _ _ _ _ moves => .pure moves

theorem arrayInitializer_keeps (room : scope.Room 0 i)
    (here : (scope.cursor i).current = .leftBrace) :
    Keeps scope i arrayInitializer fun _ j => i < j :=
  .nested (.discardNode (by decide) <| .bracketed <| delimited_keeps room here (by decide) fun _ room =>
    variableInitializer_yields _ (room.later (Nat.le_refl _) (by omega)))
    fun _ _ moves => moves (by simp [here])

private theorem someArrayInitializer_steady : Steady scope 1 (whenSees .leftBrace (call .arrayInitializer)) :=
  .whenSees fun _ room here => (arrayInitializer_moves room here).weaken fun _ _ _ _ => trivial

theorem someClassBody_steady {kind : Kind} (node : kind.isNode) :
    Steady scope 1 (whenSees .leftBrace (call (.classBody kind))) :=
  .whenSees fun i room _ => classBody_steady node i room

private theorem callOr_keeps {plain : Kind} (room : scope.Room 0 i) (node : plain.isNode) :
    Keeps scope i (callOr plain) fun kind _ => kind.isNode :=
  .sees (fun here => (argList_moves room here).bind fun _ _ _ _ _ => .pure rfl) fun _ => .pure node

end Arguments

section Lambdas

private theorem lambdaParams_moves (room : scope.Room 1 i)
    (here : (scope.cursor i).current = .leftParen ∨ (scope.cursor i).current = .identifier) :
    Keeps scope i lambdaParams fun _ j => i < j :=
  .sees (fun paren => lambdaParamList_moves room paren) fun away =>
    .discardNode (by decide) <| .consume_moves (here.resolve_left away) (by decide)

private theorem lambdaExpr_builds (room : scope.Room 1 i)
    (here : (scope.cursor i).current = .leftParen ∨ (scope.cursor i).current = .identifier) :
    Builds scope i lambdaExpr fun j => i < j :=
  .node (by decide) <| .moved room (lambdaParams_moves room here) fun _ => .bind (.require (by decide)) fun _ =>
    .sees (fun i room _ => block_steady i (room.later (Nat.le_refl _) (by omega)))
      (anyExpression_steady.lower (by decide))

/-- A parameter that was looked for in state `s` has moved to `j`, or none could start there, or it
was looked for at `@interface`. -/
def PastParam (env : Env) (s : State) (j : Nat) : Prop :=
  s.position < j ∨ First.type.contains (s.current env) = false ∨ StuckParam env s

private theorem PastParam.later {env : Env} {s : State} {j k : Nat} (past : PastParam env s j) (later : j ≤ k) :
    PastParam env s k := past.imp_left fun moved => Nat.lt_of_lt_of_le moved later

/-- A type that a parameter needs moves where a parameter can start, except at `@interface`. -/
theorem pastParam_of_type {env : Env} {s t u : State} {found : Option Completed} (good : s.Good env)
    (reached : s.position ≤ t.position) (depth : t.depth = s.depth) (later : State.After env t u)
    (post : Nonterminal.type.Post env t found u) : PastParam env s u.position := by
  have on := later.position_le
  by_cases moved : s.position < t.position
  · exact .inl (by omega)
  have still : t.position = s.position := by omega
  cases found with
  | some type =>
    have moved := (post.1 type rfl).1
    exact .inl (by omega)
  | none =>
    have current : t.current env = s.current env := by simp [State.current, State.cursor, still]
    have cursor : t.cursor env = s.cursor env := by simp [State.cursor, still]
    rcases post.2 rfl with moved | ended | ⟨inside, none⟩
    · exact .inl (by omega)
    · refine .inr (.inl ?_)
      rw [← current, ended]
      decide +kernel
    · rw [cursor] at none
      cases starts : First.type.contains (s.current env) with
      | false => exact .inr (.inl starts)
      | true =>
        have primitive := none.primitive
        have named := none.named
        have bare := none.annotated
        have sign : s.current env = .atSign := by
          simp only [First.type, KindSet.union_eq, KindSet.contains_union, KindSet.ofList] at starts
          simp [show (s.cursor env).current = s.current env from rfl] at primitive named
          simpa [primitive, Ne.symm named, eq_comm] using starts
        simp only [annotationAt, show (s.cursor env).current = .atSign from sign] at bare
        exact .inr (.inr ⟨none.lenient, good, sign, by simpa using bare, depth ▸ inside⟩)

private theorem settles_lambdaParam {s : State} (good : s.Good scope.env) (room : scope.Room 1 s.position) :
    scope.Settles lambdaParam s fun _ t =>
      State.After scope.env s t ∧ PastParam scope.env s t.position := by
  refine settles_discardNode (by decide) (P := PastParam scope.env s) ?_
  refine settles_look good.start (.nth 1) fun t _ tried => ?_
  have after := tried.after good.start
  have same : t.position = s.position := tried.position
  refine settles_look after.good (.and (.sees _) (.pure _)) fun u _ tried' => ?_
  have after := after.trans (tried'.after after.good)
  replace same := tried'.position.trans same
  split
  · next bare =>
    simp only [Bool.and_eq_true, beq_iff_eq, ← tried'.position] at bare
    exact Keeps.goOn (P := fun _ j => PastParam scope.env s j) after <|
      (Keeps.consume_moves bare.1 (by decide)).weaken fun _ _ _ moved => .inl (by omega)
  · have here : scope.Room 1 u.position := room.later (by omega) (by omega)
    refine (modifiers_steady u.position here u after.good rfl).bind fun _ v _ ⟨later, _⟩ => ?_
    have after := after.trans later
    have there : scope.Room 1 v.position := here.later later.position_le (Nat.le_refl 1)
    have reached : s.position ≤ v.position := after.position_le
    refine ((settles_call .type (by decide) after.good there trivial).discard fun found w ⟨later, post⟩ =>
      And.intro later (pastParam_of_type good reached after.depth later post)).bind
        fun _ w _ ⟨later, past⟩ => ?_
    have rest : Steady scope 1 (do
        discard <| accept .ellipsis
        require .identifier) := .bind (Steady.accept (by decide)).discard fun _ => .require (by decide)
    exact Keeps.goOn (P := fun _ j => PastParam scope.env s j) (after.trans later) <|
      (rest w.position (there.later later.position_le (Nat.le_refl 1))).weaken fun _ _ on _ => past.later on

private theorem StuckParam.tried {env : Env} {s t : State} (stuck : StuckParam env t) (good : s.Good env)
    (tried : Tried s t) : StuckParam env s := by
  obtain ⟨lenient, -, sign, interface, inside⟩ := stuck
  rw [tried] at sign interface inside
  exact ⟨lenient, good, sign, interface, inside⟩

/-- A round of a list of parameters that goes on has moved, or it cannot. -/
theorem settles_lambdaRound {s : State} (good : s.Good scope.env) (room : scope.Room 1 s.position) :
    scope.Settles lambdaRound s fun b t => State.After scope.env s t ∧
      (b = true → s.position < t.position ∨ StuckParam scope.env s) := by
  refine settles_delimitedRound good (by decide) fun t tried => ?_
  have good' := (tried.after good).good
  refine (settles_lambdaParam good' (tried.position ▸ room)).bind fun _ u _ ⟨after, past⟩ =>
    .pure ⟨after, fun _ => ?_⟩
  rw [PastParam, tried.position, tried.current] at past
  exact past.imp_right fun other => other.imp_right fun stuck => stuck.tried good tried

/-- A list of parameters moves, unless it comes to a place where it goes round without end. -/
theorem lambdaParamList_settles {s : State} (good : s.Good scope.env)
    (room : scope.Room 0 s.position) (here : s.current scope.env = .leftParen)
    (own : StuckParamList scope.env s → scope.own.sticks) :
    scope.Settles lambdaParamList s fun _ t =>
      State.After scope.env s t ∧ s.position < t.position := by
  refine settles_discardNode (by decide) (P := fun j => s.position < j) ?_
  refine (Keeps.consume_moves here (by decide) s.start good.start rfl).bind
    fun _ t ran ⟨after, moved⟩ => ?_
  have consumed : s.start.consume scope.env .leftParen = .ok t := by
    simpa [State.run_consume] using (Program.exec_act _ _).symm.trans ran
  have behind : scope.Room 1 t.position := (room.moved moved after.good.inside).later (Nat.le_refl _) (by omega)
  have looped : scope.Settles (loop lambdaRound) t fun _ u =>
      State.After scope.env s.start u ∧ s.position < u.position := by
    refine .loopFrom (fun _ u => State.After scope.env t u ∧
      Program.Rounds scope.env rule (fun _ => stepTo () lambdaRound) () t () u)
      ⟨.refl after.good, .refl⟩ (fun _ _ ⟨after, _⟩ => after.good.inside) fun _ u ⟨later, rounds⟩ => ?_
    have on := later.position_le
    have round : scope.Settles (stepTo () lambdaRound) u fun next v => State.After scope.env u v ∧
        (next.isSome = true → u.position < v.position ∨ StuckParam scope.env u) :=
      (settles_lambdaRound later.good (behind.later on (by omega))).bind fun again v _ ⟨last, moves⟩ => .pure <| by
        cases again with
        | true => exact ⟨last, fun _ => moves rfl⟩
        | false => exact ⟨last, by simp⟩
    refine round.weaken fun next v ran ⟨last, moves⟩ => ?_
    cases next with
    | some next =>
      refine (moves rfl).imp (fun moved => ⟨⟨later.trans last, rounds.next ran⟩, moved⟩) fun stuck => ?_
      exact own ⟨t, u, consumed, rounds, stuck⟩
    | none =>
      have := last.position_le
      exact ⟨after.trans (later.trans last), by omega⟩
  exact looped.bind fun _ u _ ⟨after, moved⟩ => Keeps.goOn (P := fun _ j => s.position < j) after <|
    (Keeps.require (by decide)).weaken fun _ _ later _ => by omega

end Lambdas

section Suffixes

private theorem reference_keeps (room : scope.Room 0 i) (here : (scope.cursor i).current = .colonColon) :
    Keeps scope i reference fun kind j => kind.isNode ∧ i < j :=
  (Keeps.consume_moves here (by decide)).bind fun _ j _ inside moved =>
    (someTypeArgs_steady j ((room.moved moved inside).later (Nat.le_refl _) (by omega))).bind fun _ k _ _ _ =>
      .test (.or (.sees _) (.sees _)) (fun name => by
        have more : (scope.cursor k).current ≠ .eof := by
          intro ended
          simp [ended] at name
        exact (Keeps.consumeAny more).bind fun _ _ _ _ _ => .pure ⟨rfl, by omega⟩)
      fun _ => (Keeps.expectedHere _).bind fun _ _ _ _ _ => .pure ⟨rfl, by omega⟩

private theorem settles_typeLiteralSuffix {s t : State} {type : Completed} {stray : Prop}
    (after : State.After scope.env s t) (room : scope.Room 0 t.position) (heads : s.Heads type t)
    (moved : s.position < t.position)
    (bare : stray ↔ scope.env.options.mode = .strict ∧ Unsuffixed scope.env t) :
    scope.Settles (typeLiteralSuffix type) t fun outer u => State.After scope.env s u ∧
      Led scope.env s stray outer u ∧ t.position ≤ u.position := by
  refine settles_look after.good (.and (.sees _) (.nthIs _ _)) fun u _ tried => ?_
  have same := tried.position
  have after' := after.trans (tried.after after.good)
  have heads' := tried.heads heads
  split
  · next literal =>
    simp only [Bool.and_eq_true, beq_iff_eq] at literal
    have joined : ¬ stray := fun lone => (bare.mp lone).2.2.2 literal
    rw [← same] at literal
    refine (settles_around (P := fun j => t.position ≤ j) after' heads' ?_).weaken
      fun _ _ _ ⟨after, heads, later⟩ => ⟨after, .inl ⟨joined, heads⟩, later⟩
    refine .consumeThen literal.1 (by decide) fun _ => .consumeThen ?_ (by decide) fun _ => .pure ⟨rfl, by omega⟩
    exact (scope.nth_cursor_add _ _ _).trans literal.2
  · next noLiteral =>
    simp only [Bool.and_eq_true, beq_iff_eq] at noLiteral
    refine settles_look after'.good (.sees _) fun v _ tried' => ?_
    have after'' := after'.trans (tried'.after after'.good)
    have heads'' := tried'.heads heads'
    have same' := tried'.position.trans same
    split
    · next reference =>
      rw [beq_iff_eq, same] at reference
      have joined : ¬ stray := fun lone => (bare.mp lone).2.2.1 reference
      rw [← same'] at reference
      have room : scope.Room 0 v.position := room.later (by omega) (by omega)
      exact (settles_around (P := fun j => v.position < j) after'' heads''
        (reference_keeps room reference)).weaken
          fun _ _ _ ⟨after, heads, moved⟩ => ⟨after, .inl ⟨joined, heads⟩, by omega⟩
    · next noReference =>
      rw [same, beq_iff_eq] at noReference
      have current : v.current scope.env = t.current scope.env := tried'.current.trans tried.current
      refine (settles_expectedBehind after'' heads'' (same' ▸ moved) ?_).bind
        fun _ _ _ ⟨after, led, later⟩ => .pure ⟨after, led, by omega⟩
      rw [bare, current]
      exact and_congr_right fun _ =>
        ⟨fun unsuffixed => unsuffixed.1, fun more => ⟨more, noReference, noLiteral⟩⟩

end Suffixes

section Creation

private theorem dimExpr_moves (room : scope.Room 0 i) (here : (scope.cursor i).current = .leftBracket) :
    Keeps scope i dimExpr fun _ j => i < j :=
  .discardNode (by decide) <| .moved room (.consume_moves here (by decide)) fun _ =>
    .bind (anyExpression_yields.steady.bracketed.discard.lower (by decide)) fun _ => .require (by decide)

private theorem arrayCreationRest_steady : Steady scope 1 arrayCreationRest :=
  .bind (.loop fun i room => .look (.nth 1) <| .test (.and (.sees _) (.pure _))
      (fun here => by
        simp only [Bool.and_eq_true, beq_iff_eq] at here
        exact (dimExpr_moves (room.later (Nat.le_refl _) (by omega)) here.1).bind
          fun _ _ _ _ moved => .pure fun _ => moved)
      fun _ => .pure (by simp))
    fun _ => .bind dims_steady fun _ => someArrayInitializer_steady

private theorem objectCreationRest_steady : Steady scope 1 objectCreationRest :=
  .sees (fun _ room here => (argList_moves (room.later (Nat.le_refl _) (by omega)) here).bind
      fun _ j later _ _ => someClassBody_steady (by decide) j (room.later later (by omega)))
    (.bind (.expectedHere _) fun _ => someClassBody_steady (by decide))

private theorem creation_keeps (room : scope.Room 0 i) (here : (scope.cursor i).current = .newKw) :
    Keeps scope i creation fun kind j => kind.isNode ∧ i < j := by
  refine (Keeps.consume_moves here (by decide)).bind fun _ j _ inside moved => ?_
  have behind := room.moved moved inside
  refine (someTypeArgs_steady j (behind.later (Nat.le_refl _) (by omega))).bind fun _ k on _ _ => ?_
  refine (elementType_finds (behind.later on (by omega))).keeps.bind fun found l later _ _ => ?_
  have room : scope.Room 1 l := behind.later (by omega) (by omega)
  split
  · refine .sees (fun _ => ?_) fun _ => ?_
    · exact (arrayCreationRest_steady l room).bind fun _ _ _ _ _ => .pure ⟨rfl, by omega⟩
    · exact (objectCreationRest_steady l room).bind fun _ _ _ _ _ => .pure ⟨rfl, by omega⟩
  · exact .pure ⟨rfl, by omega⟩

end Creation

section Selection

private theorem genericCallName_keeps : Keeps scope i genericCallName fun _ _ => True := .look .current <| by
  split
  all_goals first
    | exact (Keeps.expectedHere _).weaken fun _ _ _ _ => trivial
    | exact (Keeps.consumeAny (by simp_all)).weaken fun _ _ _ _ => trivial

private theorem genericCallRest_keeps (room : scope.Room 0 i) (here : (scope.cursor i).current = .lt) :
    Keeps scope i genericCallRest fun _ _ => True :=
  (typeArgs_moves room here).bind fun _ j later _ _ =>
    genericCallName_keeps.bind fun _ k on _ _ =>
      .sees (fun paren => (argList_moves (room.later (by omega) (by omega)) paren).weaken fun _ _ _ _ => trivial)
        fun _ => (Keeps.expectedHere _).weaken fun _ _ _ _ => trivial

private theorem selected_keeps (room : scope.Room 0 i) :
    Keeps scope i selected fun kind _ => kind.isNode := .look .current <| by
  split
  · next here => exact .consumeThen here (by decide) fun _ => callOr_keeps (room.later (Nat.le_succ _) (by omega)) (by decide)
  · next here => exact (genericCallRest_keeps room here).bind fun _ _ _ _ _ => .pure rfl
  · next here => exact .consumeThen here (by decide) fun _ => .pure rfl
  · next here => exact .consumeThen here (by decide) fun _ => callOr_keeps (room.later (Nat.le_succ _) (by omega)) (by decide)
  · next here => exact (creation_keeps room here).weaken fun _ _ _ ⟨node, _⟩ => node
  · next here => exact .consumeThen here (by decide) fun _ => .pure rfl
  · exact (Keeps.expectedHere _).bind fun _ _ _ _ _ => .pure rfl

private theorem subscript_keeps (room : scope.Room 0 i)
    (here : (scope.cursor i).current = .leftBracket) :
    Keeps scope i subscript fun kind j => kind.isNode ∧ i < j :=
  (Keeps.consume_moves here (by decide)).bind fun _ j _ inside moved =>
    (anyExpression_yields.steady.bracketed.discard j
      ((room.moved moved inside).later (Nat.le_refl _) (by omega))).bind fun _ _ _ _ _ =>
        (Keeps.require (by decide)).bind fun _ _ _ _ _ => .pure ⟨rfl, by omega⟩

private theorem settles_postfixExpr {s t : State} {stray : Prop} {operand : Completed}
    (after : State.After scope.env s t) (room : scope.Room 0 t.position)
    (led : Led scope.env s stray operand t) :
    scope.Settles (postfixExpr operand) t fun outer u =>
      State.After scope.env s u ∧ Led scope.env s stray outer u ∧ t.position ≤ u.position := by
  refine (settles_chain after led fun first u after led later => ?_).bind
    fun outer u _ ⟨after, led, later⟩ => (settles_chain after led fun first v after led on => ?_).weaken
      fun _ _ _ ⟨after, led, on⟩ => ⟨after, led, Nat.le_trans later on⟩
  · have room : scope.Room 0 u.position := room.later later (by omega)
    refine settles_lookThen after led .current fun v after led same => ?_
    rw [← same] at room ⊢
    split
    · next here =>
      refine settles_attach after led (by simp [here]) <| (Keeps.consume_moves here (by decide)).bind
        fun _ j _ _ moved => (selected_keeps (room.later (Nat.le_of_lt moved) (by omega))).weaken ?_
      exact fun _ _ _ node => ⟨node, by omega⟩
    · next here => exact settles_attach after led (by simp [here]) (subscript_keeps room here)
    · next here => exact settles_attach after led (by simp [here]) (reference_keeps room here)
    · exact settles_unattached after led
  · refine settles_lookThen after led .current fun v after led same => ?_
    rw [← same]
    split
    all_goals first
      | exact settles_unattached after led
      | refine settles_attach after led (by simp_all) <|
          (Keeps.consumeAny (by simp_all)).bind fun _ _ _ _ moved => .pure ⟨rfl, by omega⟩

end Selection

section Operands

variable {s : State} {stray : Prop}

theorem Builds.operand {rule : Rule Completed} (good : s.Good scope.env)
    (builds : Builds scope s.position rule fun j => s.position < j) (joined : ¬ stray) :
    scope.Settles (rule >>= fun first => return some first) s (Operand scope.env s stray) :=
  (builds s good rfl).bind fun _ _ _ ⟨after, heads, moved⟩ =>
    .pure ⟨after, fun _ same => by cases same; exact ⟨moved, .inl ⟨joined, heads⟩⟩, by simp⟩

theorem Operand.from {env : Env} {t u : State} {found : Option Completed}
    (operand : Operand env t stray found u) (after : State.After env s t)
    (still : t.position = s.position) (kept : t.events = s.events) : Operand env s stray found u := by
  refine ⟨after.trans operand.1, fun first same => ?_, operand.2.2⟩
  obtain ⟨moved, led⟩ := operand.2.1 first same
  rw [still] at moved
  exact ⟨moved, led.imp (.imp_right (·.from kept)) (.imp_right (.imp_right (·.from kept)))⟩

/-- Only at a type, or at a name with something behind it, may a type stand by itself. -/
theorem BareType.current {env : Env} (bare : BareType env s) :
    s.current env = .voidKw ∨ (s.current env).isPrimitiveType ∨ s.current env = .identifier ∧
      ((s.cursor env).nth 1 = .leftBracket ∨ (s.cursor env).nth 1 = .dot) := by
  obtain ⟨-, type, t, -, ⟨void | primitive, -⟩ | ⟨name, brackets, -⟩⟩ := bare
  · exact .inl void
  · exact .inr (.inl primitive)
  · exact .inr (.inr ⟨name, brackets⟩)

private theorem not_bareType {env : Env} {kind : Kind} (here : s.current env = kind)
    (away : ¬ (kind = .voidKw ∨ kind.isPrimitiveType ∨ kind = .identifier)) :
    ¬ BareType env s := fun bare =>
  away (here ▸ bare.current.imp_right (.imp_right And.left))

private theorem bareType_iff_of_resultType {env : Env} {found : Option Completed} {t : State}
    (here : s.current env = .voidKw ∨ (s.current env).isPrimitiveType)
    (ran : resultType.exec env rule s = some (.ok (found, t))) :
    BareType env s ↔ env.options.mode = .strict ∧ found.isSome ∧ Unsuffixed env t := by
  refine and_congr_right fun _ => ⟨?_, fun ⟨given, unsuffixed⟩ => ?_⟩
  · rintro ⟨type, t', unsuffixed, ⟨-, ran'⟩ | ⟨name, -⟩⟩
    · cases ran.symm.trans ran'
      exact ⟨rfl, unsuffixed⟩
    · rw [name] at here
      exact absurd here (by decide)
  · obtain ⟨type, rfl⟩ := Option.isSome_iff_exists.mp given
    exact ⟨type, t, unsuffixed, .inl ⟨here, ran⟩⟩

private theorem bareType_iff_of_arrayType {env : Env} {found : Option Completed} {seen t : State}
    (here : s.current env = .identifier)
    (brackets : (s.cursor env).nth 1 = .leftBracket ∨ (s.cursor env).nth 1 = .dot)
    (sees : seesArrayTypeLiteral.exec env rule s = some (.ok (true, seen)))
    (ran : (call .type : Rule (Option Completed)).exec env rule seen = some (.ok (found, t))) :
    BareType env s ↔ env.options.mode = .strict ∧ found.isSome ∧ Unsuffixed env t := by
  refine and_congr_right fun _ => ⟨?_, fun ⟨given, unsuffixed⟩ => ?_⟩
  · rintro ⟨type, t', unsuffixed, ⟨literal, -⟩ | ⟨-, -, seen', sees', ran'⟩⟩
    · rw [here] at literal
      exact absurd literal (by decide)
    · cases sees.symm.trans sees'
      cases ran.symm.trans ran'
      exact ⟨rfl, unsuffixed⟩
  · obtain ⟨type, rfl⟩ := Option.isSome_iff_exists.mp given
    exact ⟨type, t, unsuffixed, .inr ⟨here, brackets, seen, sees, ran⟩⟩

private theorem settles_typeThenSuffix {t : State} {type : Completed} (after : State.After scope.env s t)
    (room : scope.Room 0 s.position) (heads : s.Heads type t) (moved : s.position < t.position)
    (bare : stray ↔ scope.env.options.mode = .strict ∧ Unsuffixed scope.env t) :
    scope.Settles (typeLiteralSuffix type >>= fun first => return some first) t
      (Operand scope.env s stray) := by
  refine (settles_typeLiteralSuffix after (room.later (Nat.le_of_lt moved) (by omega)) heads moved bare).bind
    fun outer u ran ⟨later, led, on⟩ => .pure ⟨later, fun _ same => ?_, by simp⟩
  cases same
  exact ⟨by omega, led⟩

private theorem settles_literalType (good : s.Good scope.env) (room : scope.Room 1 s.position)
    (here : s.current scope.env = .voidKw ∨ (s.current scope.env).isPrimitiveType) :
    scope.Settles literalType s (Operand scope.env s (BareType scope.env s)) := by
  refine (resultType_finds room s good rfl).bind fun found t ran ⟨after, heads, moves⟩ => ?_
  have bare := bareType_iff_of_resultType here ran
  cases found with
  | none => exact .pure ⟨after, by simp, by simp [bare]⟩
  | some type =>
    exact settles_typeThenSuffix after (room.later (Nat.le_refl _) (by omega)) (heads type rfl) (moves rfl)
      (by simpa using bare)

private theorem settles_genericReceiver (good : s.Good scope.env) (room : scope.Room 1 s.position) :
    scope.Settles genericReceiver? s fun found t =>
      (found = none → t = s) ∧ ∀ type, found = some type → State.After scope.env s t ∧
        s.Heads type t ∧ s.position < t.position ∧ t.current scope.env = .colonColon := by
  refine .speculate ((type_finds room s good rfl).bind fun found t _ ⟨after, heads, moves⟩ => ?_)
  cases found with
  | none => exact .pure (by simp [Program.settle])
  | some type =>
    refine settles_look after.good (.sees _) fun u _ tried => .pure ?_
    split
    · next reference =>
      rw [beq_iff_eq, ← tried.position] at reference
      simp only [Program.settle]
      split
      · refine ⟨by simp, fun _ same => ?_⟩
        cases same
        exact ⟨after.trans (tried.after after.good), tried.heads (heads type rfl),
          tried.position ▸ moves rfl, reference⟩
      · simp
    · simp [Program.settle]

private theorem plainName_builds (room : scope.Room 1 i) (here : (scope.cursor i).current = .identifier) :
    Builds scope i plainName fun j => i < j :=
  .nodeOf <| (Keeps.consume_moves here (by decide)).bind fun _ j _ _ moved =>
    (callOr_keeps (room.later (Nat.le_of_lt moved) (by omega)) (by decide)).weaken fun _ _ _ node => ⟨node, by omega⟩

private theorem plainName_misplaced (away : (scope.cursor i).current ≠ .identifier)
    (cause : scope.own.halts) : Builds scope i plainName fun _ => False :=
  .nodeOf (.never (.misplaced away cause))

/-- A name is consumed where it stands, unless a report has given the input up. -/
theorem simpleName_settles (good : s.Good scope.env) (room : scope.Room 1 s.position)
    (here : s.current scope.env = .identifier) (own : UndecidedName scope.env s → scope.own.halts) :
    scope.Settles simpleName s (Operand scope.env s (BareType scope.env s)) := by
  refine settles_nthThen ?_
  cases ahead : (s.cursor scope.env).nth 1 == .leftBracket || (s.cursor scope.env).nth 1 == .dot with
  | false =>
    refine settles_look good (.bind (.pure false) (.pure false)) fun t _ tried => ?_
    have after := tried.after good
    have same := tried.position
    have joined : ¬ BareType scope.env s := fun bare => by
      rcases bare.current with void | primitive | ⟨-, brackets⟩
      · exact absurd (here.symm.trans void) (by decide)
      · exact absurd (here ▸ primitive) (by decide)
      · simp_all
    refine Program.Settles.weaken (Builds.operand after.good (plainName_builds (same ▸ room)
      (by rw [same]; exact here)) joined) fun _ _ _ operand => operand.from after same tried.events
  | true =>
    have brackets : (s.cursor scope.env).nth 1 = .leftBracket ∨ (s.cursor scope.env).nth 1 = .dot := by
      simpa using ahead
    refine (settles_trueAnd (settles_decideBy good _ _)).bind
      fun decision t _ ⟨⟨after, hits, decided, reached⟩, ran⟩ => ?_
    have later := after.position_le
    split
    · next array =>
      subst array
      refine (type_finds (room.later later (by omega)) t after.good rfl).bind fun found u ran' ⟨on, heads, moves⟩ => ?_
      have bare := bareType_iff_of_arrayType here brackets ran ran'
      cases found with
      | none => exact .pure ⟨after.trans on, by simp, by simp [bare]⟩
      | some type =>
        have moved := moves rfl
        rcases reached with ⟨still, kept⟩ | ⟨ended, -⟩
        · exact settles_typeThenSuffix (after.trans on) (room.later (Nat.le_refl _) (by omega))
            ((heads type rfl).from kept) (by omega) (by simpa using bare)
        · exact absurd (on.position_le_of_eof scope.regular ended) (by omega)
    · next name =>
      rcases reached with ⟨still, kept⟩ | ⟨ended, strict, exhausted⟩
      · have joined : ¬ BareType scope.env s := by
          rintro ⟨-, -, -, -, ⟨literal, -⟩ | ⟨-, -, seen, sees, -⟩⟩
          · rw [here] at literal
            exact absurd literal (by decide)
          · cases ran.symm.trans sees
            exact name rfl
        refine Program.Settles.weaken (Builds.operand after.good (plainName_builds (still ▸ room)
          (by rw [still]; exact here)) joined) fun _ _ _ operand => operand.from after still kept
      · have away : (scope.cursor t.position).current ≠ .identifier := by
          intro same
          exact absurd (same.symm.trans ended) (by decide)
        obtain rfl : decision = false := Bool.eq_false_iff.mpr name
        have cause := own ⟨strict, good, here, brackets, exhausted ▸ decided⟩
        exact (plainName_misplaced away cause t after.good rfl).bind
          fun _ _ _ ⟨_, _, impossible⟩ => impossible.elim

private theorem settles_nameExpr (good : s.Good scope.env) (room : scope.Room 2 s.position)
    (here : s.current scope.env = .identifier) :
    scope.Settles nameExpr s (Operand scope.env s (BareType scope.env s)) := by
  have called : scope.Settles (call .simpleName) s (Operand scope.env s (BareType scope.env s)) :=
    (settles_call .simpleName (by decide) good room here).weaken fun _ _ _ ⟨_, operand⟩ => operand
  have joined {next : Kind} (ahead : (s.cursor scope.env).nth 1 = next)
      (away : ¬ (next = .leftBracket ∨ next = .dot)) : ¬ BareType scope.env s := fun bare => by
    rcases bare.current with void | primitive | ⟨-, brackets⟩
    · exact absurd (here.symm.trans void) (by decide)
    · exact absurd (here ▸ primitive) (by decide)
    · exact away (ahead ▸ brackets)
  refine settles_nthThen (.actThen rfl ?_)
  split
  · next arrow =>
    exact Builds.operand good (lambdaExpr_builds (room.later (Nat.le_refl _) (by omega)) (.inr here))
      (joined arrow.1 (by decide))
  · split
    · next generic =>
      refine (settles_genericReceiver good (room.later (Nat.le_refl _) (by omega))).bind
        fun found t _ ⟨undone, receives⟩ => ?_
      cases found with
      | none =>
        obtain rfl := undone rfl
        exact called
      | some type =>
        obtain ⟨after, heads, moved, reference⟩ := receives type rfl
        refine (settles_around (P := fun j => t.position < j) after heads
          (reference_keeps (room.later (Nat.le_of_lt moved) (by omega)) reference)).bind
            fun outer u _ ⟨after, heads, on⟩ => .pure ⟨after, fun _ same => ?_, by simp⟩
        cases same
        exact ⟨by omega, .inl ⟨joined generic (by decide), heads⟩⟩
    · exact called

private theorem selfExpr_builds {kind plain : Kind} (room : scope.Room 0 i)
    (here : (scope.cursor i).current = kind) (more : kind ≠ .eof) (node : plain.isNode) :
    Builds scope i (selfExpr kind plain) fun j => i < j :=
  .nodeOf <| (Keeps.consume_moves here more).bind fun _ _ _ _ moved =>
    (callOr_keeps (room.later (Nat.le_of_lt moved) (by omega)) node).weaken fun _ _ _ node => ⟨node, by omega⟩

private theorem genericSelfName_keeps : Keeps scope i genericSelfName fun _ _ => True :=
  .test (.or (.sees _) (.sees _)) (fun self => by
      have more : (scope.cursor i).current ≠ .eof := by
        intro ended
        simp [ended] at self
      exact (Keeps.consumeAny more).weaken fun _ _ _ _ => trivial)
    fun _ => (Keeps.expectedHere _).weaken fun _ _ _ _ => trivial

private theorem genericSelfCall_builds (room : scope.Room 0 i) (here : (scope.cursor i).current = .lt) :
    Builds scope i genericSelfCall fun j => i < j :=
  .node (by decide) <| .moved room (typeArgs_moves room here) fun _ =>
    .bind (.of_keeps fun _ => genericSelfName_keeps) fun _ => someArgList_steady.lower (by decide)

private theorem missingExpression_keeps : Keeps scope i missingExpression fun _ _ => True :=
  .look (.allow _) <| .look .current <| .test (.or (.sees _) (.pure _))
    (fun _ => (Keeps.report _).weaken fun _ _ _ _ => trivial)
    fun _ => (Keeps.reportAndSkip _).weaken fun _ _ _ _ => trivial

private theorem settles_primary (good : s.Good scope.env) (room : scope.Room 2 s.position) :
    scope.Settles primary s (Operand scope.env s (BareType scope.env s)) := by
  have low : scope.Room 0 s.position := room.later (Nat.le_refl _) (by omega)
  refine settles_nthThen ?_
  split
  · next literal =>
    have more : (scope.cursor s.position).current ≠ .eof := by
      intro ended
      exact absurd ((congrArg Kind.isLiteral ended).symm.trans literal) (by decide)
    have joined : ¬ BareType scope.env s := not_bareType rfl fun other => by
      revert literal other
      show (s.current scope.env).isLiteral → _
      cases s.current scope.env <;> decide
    exact Builds.operand good (.node (by decide) <| (Keeps.consumeAny more).weaken fun _ _ _ moved => by omega) joined
  · split
    · next type => exact settles_literalType good (room.later (Nat.le_refl _) (by omega)) type
    · next noType =>
      split
      · next here => exact settles_nameExpr good room here
      · next here =>
        exact Builds.operand good (selfExpr_builds low here (by decide) (by decide)) (not_bareType here (by decide))
      · next here =>
        exact Builds.operand good (selfExpr_builds low here (by decide) (by decide)) (not_bareType here (by decide))
      · next here =>
        exact Builds.operand good (.nodeOf <| (creation_keeps low here).weaken
          fun _ _ _ holds => holds) (not_bareType here (by decide))
      · next here => exact Builds.operand good (switchExpr_builds low here) (not_bareType here (by decide))
      · next here => exact Builds.operand good (genericSelfCall_builds low here) (not_bareType here (by decide))
      · next unnamed _ _ _ _ _ =>
        have joined : ¬ BareType scope.env s := not_bareType rfl fun other =>
          (or_assoc.mpr other).elim noType unnamed
        exact (missingExpression_keeps s good rfl).bind fun _ _ _ ⟨after, _⟩ =>
          .pure ⟨after, by simp, fun _ => joined⟩

private theorem settles_attachedOperand (good : s.Good scope.env) (room : scope.Room 2 s.position) :
    scope.Settles attachedOperand s (Operand scope.env s (BareType scope.env s)) := by
  refine (settles_primary good room).bind fun found t _ ⟨after, finds, lacks⟩ => ?_
  cases found with
  | none => exact .pure ⟨after, by simp, lacks⟩
  | some operand =>
    obtain ⟨moved, led⟩ := finds operand rfl
    show scope.Settles (if operand.kind = .lambdaExpr then _ else _) t _
    split
    · exact .pure ⟨after, finds, lacks⟩
    · refine (settles_postfixExpr after (room.later (Nat.le_of_lt moved) (by omega)) led).bind
        fun outer u _ ⟨after, led, later⟩ => .pure ⟨after, fun _ same => ?_, by simp⟩
      cases same
      exact ⟨by omega, led⟩

private theorem prefixExpr_builds (room : scope.Room 0 i) (more : (scope.cursor i).current ≠ .eof) :
    Builds scope i prefixExpr fun j => i < j :=
  .node (by decide) <| .moved room (.consumeAny_moves more) fun _ =>
    (Steady.nested unary_steady).discard.lower (by decide)

/-- Operators in front of an operand give a node, or a type that stands by itself. -/
theorem unary_settles (good : s.Good scope.env) (room : scope.Room 2 s.position) :
    scope.Settles unary s (Operand scope.env s (BareType scope.env s)) := by
  have fixed (more : s.current scope.env ≠ .eof) (joined : ¬ BareType scope.env s) : scope.Settles (do return some (← prefixExpr)) s
      (Operand scope.env s (BareType scope.env s)) :=
    Builds.operand good (prefixExpr_builds (room.later (Nat.le_refl _) (by omega)) more) joined
  refine settles_nthThen ?_
  split
  case h_7 here =>
    exact (settles_call .parenOperand (by decide) good room here).weaken fun _ _ _ ⟨after, finds⟩ =>
      ⟨after, fun first same => ⟨(finds first same).1, .inl ⟨not_bareType here (by decide), (finds first same).2⟩⟩,
        fun _ => not_bareType here (by decide)⟩
  case h_8 => exact settles_attachedOperand good room
  all_goals
    next here =>
    refine fixed (fun ended => ?_) (not_bareType here (by decide))
    exact absurd (here.symm.trans ended) (by decide)

private theorem castExpr_builds (room : scope.Room 0 i) (here : (scope.cursor i).current = .leftParen) :
    Builds scope i castExpr fun j => i < j :=
  .node (by decide) <| .moved room (.consume_moves here (by decide)) fun _ =>
    .bind ((compoundType_steady (by decide) (by decide)).lower (by decide)) fun _ => .bind (.require (by decide)) fun _ =>
      (Steady.nested unary_steady).discard.lower (by decide)

private theorem parenExpr_builds (room : scope.Room 0 i) (here : (scope.cursor i).current = .leftParen) :
    Builds scope i parenExpr fun j => i < j :=
  .node (by decide) <| .moved room (.consume_moves here (by decide)) fun _ =>
    .bind (anyExpression_yields.steady.bracketed.discard.lower (by decide)) fun _ => .require (by decide)

private theorem settles_operandOf (kind : ParenKind) (good : s.Good scope.env)
    (room : scope.Room 1 s.position) (here : s.current scope.env = .leftParen) :
    scope.Settles (operandOf kind) s (Operand scope.env s False) := by
  have low : scope.Room 0 s.position := room.later (Nat.le_refl _) (by omega)
  cases kind with
  | lambda => exact Builds.operand good (lambdaExpr_builds room (.inl here)) id
  | cast => exact Builds.operand good (castExpr_builds low here) id
  | parenthesized =>
    refine (parenExpr_builds low here s good rfl).bind fun first t _ ⟨after, heads, moved⟩ => ?_
    have led : Led scope.env s False first t := .inl ⟨id, heads⟩
    refine (settles_postfixExpr after (low.later (Nat.le_of_lt moved) (by omega)) led).bind
      fun outer u _ ⟨after, led, later⟩ => .pure ⟨after, fun _ same => ?_, by simp⟩
    cases same
    exact ⟨by omega, led⟩

private theorem settles_operandOf_away {kind : ParenKind} {post : Option Completed → State → Prop}
    (good : s.Good scope.env) (ended : s.current scope.env = .eof) (cause : scope.own.halts) :
    scope.Settles (operandOf kind) s post := by
  have misplaced {kind : Kind} (more : kind ≠ .eof) :
      Keeps scope s.position (consume kind) fun _ _ => False :=
    .misplaced (fun same => more (same.symm.trans ended)) cause
  have never {rule : Rule Completed} {next : Completed → Rule (Option Completed)}
      (halts : Builds scope s.position rule fun _ => False) : scope.Settles (rule >>= next) s post :=
    (halts s good rfl).bind fun _ _ _ ⟨_, _, impossible⟩ => impossible.elim
  cases kind with
  | lambda =>
    refine never (.node (by decide) (.never (.sees (fun here => ?_) fun _ => .discardNode (by decide) (misplaced (by decide)))))
    exact absurd (here.symm.trans ended) (by decide)
  | cast => exact never (.node (by decide) (.never (misplaced (by decide))))
  | parenthesized => exact never (.node (by decide) (.never (misplaced (by decide))))

/-- A `(` is consumed where it stands, unless a report has given the input up. -/
theorem parenOperand_settles (good : s.Good scope.env) (room : scope.Room 1 s.position)
    (here : s.current scope.env = .leftParen) (own : UndecidedParen scope.env s → scope.own.halts) :
    scope.Settles parenOperand s fun found t => State.After scope.env s t ∧
      Nonterminal.parenOperand.Post scope.env s found t := by
  have decides : scope.Settles parenKindHere s _ :=
    .actThen rfl (settles_decideBy good _ (Lookahead.parenKind s.noLambda))
  refine decides.bind fun kind t _ ⟨after, hits, decided, reached⟩ => ?_
  rcases reached with ⟨still, kept⟩ | ⟨ended, strict, exhausted⟩
  · have here : (scope.cursor t.position).current = .leftParen := by
      rw [still]
      exact here
    refine (settles_operandOf kind after.good (still ▸ room) here).weaken fun _ _ _ operand => ?_
    obtain ⟨later, finds, -⟩ := operand.from after still kept
    exact ⟨later, fun first same => ⟨(finds first same).1,
      ((finds first same).2.resolve_right (by simp)).2⟩⟩
  · exact settles_operandOf_away after.good ended (own ⟨strict, good, here, kind, exhausted ▸ decided⟩)

end Operands

section Operators

structure Operator.Stands (cursor : TokenCursor) (op : Operator) : Prop where
  kind : op.rawCount = 1 ∧ op.kind = cursor.current ∨ 1 < op.rawCount ∧ op.kind ∈ Event.joinedKinds
  tokens : ∀ n < op.rawCount, cursor.nth n ≠ .eof

/-- An operator that begins with `>` is made of tokens `>` and `=`. -/
theorem Operator.angle_tokens {cursor : TokenCursor} (here : cursor.current = .gt) :
    ∀ n < (angle cursor).rawCount, cursor.nth n = .gt ∨ cursor.nth n = .eq := by
  have first : cursor.nth 0 = .gt := here
  have places (n : Nat) (small : n < 4) : n = 0 ∨ n = 1 ∨ n = 2 ∨ n = 3 := by omega
  intro n small
  simp only [angle, Bool.and_eq_true, beq_iff_eq] at small
  grind

theorem Operator.power?_angle {cursor : TokenCursor} :
    power? (angle cursor).kind = some (angle cursor).power := by
  unfold angle
  dsimp only
  repeat' split
  all_goals rfl

private theorem Operator.stands_angle {cursor : TokenCursor} (here : cursor.current = .gt) :
    (angle cursor).Stands cursor where
  kind := by
    unfold angle
    dsimp only
    repeat' split
    all_goals first | exact .inl ⟨rfl, here.symm⟩ | exact .inr ⟨by decide, by decide⟩
  tokens n small := by
    rcases angle_tokens here n small with same | same <;> simp [same]

theorem Operator.stands_of_at? {cursor : TokenCursor} {op : Operator} (found : at? cursor = some op) :
    op.Stands cursor := by
  unfold at? at found
  split at found
  · next here =>
    cases found
    exact stands_angle here
  · rw [Option.map_eq_some_iff] at found
    obtain ⟨power, holds, rfl⟩ := found
    refine ⟨.inl ⟨rfl, rfl⟩, fun n first ended => ?_⟩
    obtain rfl : n = 0 := by
      simp only at first
      omega
    rw [show cursor.current = .eof from ended] at holds
    cases holds

private theorem instanceofTarget_steady : Steady scope 3 instanceofTarget :=
  .bind (.decideBy _ _) fun found => by
    split
    · exact pattern_steady.discard.lower (by decide)
    · exact .sees (fun i room _ => (Keeps.report _).bind fun _ j later _ _ =>
        type_steady.discard j (room.later later (by omega))) (type_steady.discard.lower (by decide))

private theorem joinedKinds_isToken : ∀ kind ∈ Event.joinedKinds, kind.isToken := by decide

private theorem operation_keeps {op : Operator} (room : scope.Room 0 i) (stands : op.Stands (scope.cursor i)) :
    Keeps scope i (operation op) fun kind j => kind.isNode ∧ i < j := by
  have behind {j : Nat} (moved : i < j) (inside : j < scope.env.stream.size) : scope.Room 3 j :=
    (room.moved moved inside).later (Nat.le_refl _) (by omega)
  have single {kind : Kind} (same : op.kind = kind) (plain : kind ∉ Event.joinedKinds) :
      (scope.cursor i).current = kind := by
    rcases stands.kind with ⟨-, current⟩ | ⟨-, joined⟩
    · exact current.symm.trans same
    · exact absurd (same ▸ joined) plain
  unfold operation
  split
  · next same =>
    refine (Keeps.consume_moves (single same (by decide)) (by decide)).bind fun _ j _ inside moved => ?_
    exact (instanceofTarget_steady j (behind moved inside)).bind fun _ _ _ _ _ =>
      .pure ⟨rfl, by omega⟩
  · next same =>
    refine (Keeps.consume_moves (single same (by decide)) (by decide)).bind fun _ j _ inside moved => ?_
    refine (anyExpression_steady j (behind moved inside)).bind fun _ k _ inside _ => ?_
    refine (Keeps.require (by decide)).bind fun _ l _ inside _ => ?_
    exact (expression_steady l (behind (by omega) inside)).bind fun _ _ _ _ _ =>
      .pure ⟨rfl, by omega⟩
  · have positive : 0 < op.rawCount := by
      rcases stands.kind with ⟨one, -⟩ | ⟨many, -⟩ <;> omega
    have proper : (Event.token op.kind op.rawCount).Proper := by
      rcases stands.kind with ⟨one, current⟩ | ⟨many, joined⟩
      · exact ⟨by rw [current]; exact scope.regular.isToken _, .inl one⟩
      · exact ⟨joinedKinds_isToken _ joined, .inr ⟨many, joined⟩⟩
    refine (Keeps.join proper positive stands.tokens).bind fun _ j _ inside moved => ?_
    split
    · exact (expression_steady j (behind (by omega) inside)).bind fun _ _ _ _ _ =>
        .pure ⟨rfl, by omega⟩
    · exact (expression_steady j (behind (by omega) inside)).bind fun _ _ _ _ _ =>
        .pure ⟨rfl, by omega⟩

private theorem settles_operatorStep {least : Power} {s t : State} {stray : Prop} {left : Completed}
    (after : State.After scope.env s t) (room : scope.Room 0 t.position)
    (led : Led scope.env s stray left t) :
    scope.Settles (operatorStep least left) t (Attaches scope.env s stray left t) := by
  refine settles_lookThen after led .cursor fun u after led same => ?_
  rw [← same] at room ⊢
  split
  · next op found =>
    have stands := Operator.stands_of_at? found
    split
    · exact settles_unattached after led
    · refine settles_attach after led (stands.tokens 0 ?_) (operation_keeps room stands)
      rcases stands.kind with ⟨one, -⟩ | ⟨many, -⟩ <;> omega
  · exact settles_unattached after led

theorem expression_settles {least : Power} {s : State} (good : s.Good scope.env)
    (room : scope.Room 2 s.position) :
    scope.Settles (expression least) s (Operand scope.env s (BareExpression scope.env s)) := by
  by_cases inside : s.depth < scope.env.options.maxDepth
  · have same : BareExpression scope.env s = BareType scope.env s.enter :=
      propext ⟨And.right, fun bare => ⟨inside, bare⟩⟩
    rw [same]
    refine .nested inside ((unary_settles good.enter room).bind fun found t _ ⟨after, finds, lacks⟩ => ?_)
    cases found with
    | none => exact .pure ⟨after.leave, by simp, lacks⟩
    | some operand =>
      obtain ⟨moved, led⟩ := finds operand rfl
      have low : scope.Room 0 t.position := room.later (Nat.le_of_lt moved) (by omega)
      refine (settles_chain after led fun first u after led later =>
        settles_operatorStep after (low.later later (by omega)) led).bind
          fun outer u _ ⟨after, led, later⟩ => .pure ⟨after.leave, fun _ same => ?_, by simp⟩
      cases same
      exact ⟨Nat.lt_of_lt_of_le moved later, led⟩
  · obtain ⟨t, run, after, -⟩ := State.abandonNested_ok scope.regular good
    exact .tooDeep (by omega) run ⟨after, by simp, fun _ bare => inside bare.1⟩

end Operators

end LosslessJava.Grammar
