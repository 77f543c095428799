import LosslessJava.Proofs.Grammar.Expressions

/-! Declarations of types and of their members. The report of a clause that is out of order may give
the input up, and the clause is read all the same. -/

namespace LosslessJava.Grammar

open LosslessJava.Parser

variable {scope : Scope} {i rank : Nat}

private theorem optionalInitializer_steady : Steady scope 3 optionalInitializer :=
  .acceptThen (by decide) variableInitializer_yields.steady.discard (.pure ())

theorem variableDeclarators_steady : Steady scope 3 variableDeclarators :=
  .commaSeparated <| .discardNode (by decide) <| .bind (.require (by decide)) fun _ => .bind dims_steady fun _ =>
    optionalInitializer_steady

section Clauses

private theorem seesKeyword_looks {keyword : Kind} :
    Looks scope i (seesKeyword keyword) (keywordAt (scope.cursor i) keyword) := by
  unfold seesKeyword keywordAt
  split
  · exact .seesWord _
  · exact .sees _

def clauseAt (cursor : TokenCursor) (index : Nat) : List ClauseForm → Option (Nat × ClauseForm)
  | [] => none
  | form :: rest => if keywordAt cursor form.1 then some (index, form) else clauseAt cursor (index + 1) rest

private theorem clauseHere_looks {index : Nat} {forms : List ClauseForm} :
    Looks scope i (clauseHere index forms) (clauseAt (scope.cursor i) index forms) := by
  induction forms generalizing index with
  | nil => exact .pure _
  | cons form rest ih =>
    refine .bind seesKeyword_looks ?_
    unfold clauseAt
    split
    · next here => simpa [here] using .pure _
    · next away => simpa [away] using ih

private theorem clauseAt_here {cursor : TokenCursor} {index found : Nat} {forms : List ClauseForm}
    {form : ClauseForm} (here : clauseAt cursor index forms = some (found, form)) :
    form ∈ forms ∧ keywordAt cursor form.1 := by
  induction forms generalizing index with
  | nil => simp [clauseAt] at here
  | cons first rest ih =>
    unfold clauseAt at here
    split at here
    · next stands =>
      cases here
      exact ⟨List.mem_cons_self, stands⟩
    · exact ⟨List.mem_cons_of_mem _ (ih here).1, (ih here).2⟩

private theorem current_of_keywordAt {cursor : TokenCursor} {keyword : Kind} (here : keywordAt cursor keyword)
    (more : keyword ≠ .eof) : cursor.current ≠ .eof := by
  intro ended
  unfold keywordAt at here
  split at here
  · simp [isWordAt, show cursor.nth 0 = .eof from ended] at here
  · simp [ended, Ne.symm more] at here

private theorem consumeKeyword_misplaced {keyword : Kind} (ended : (scope.cursor i).current = .eof)
    (more : keyword ≠ .eof) (cause : scope.own.halts) :
    Keeps scope i (consumeKeyword keyword) fun _ _ => False := by
  have away : (scope.cursor i).current ≠ keyword := fun same => more (same.symm.trans ended)
  unfold consumeKeyword
  split
  · exact .misplacedWord (by simp [ended]) away cause
  · exact .misplaced away cause

/-- A clause that is out of order is read where it stands, unless the report has given the input
up. -/
theorem orderedClause_keeps {keyword kind : Kind} {inOrder : Bool} (room : scope.Room 0 i)
    (here : keywordAt (scope.cursor i) keyword) (token : keyword.isToken) (more : keyword ≠ .eof)
    (node : kind.isNode)
    (own : scope.env.options.mode = .strict → inOrder = false → scope.own.halts) :
    Keeps scope i (orderedClause keyword kind inOrder) fun _ j => i < j := by
  unfold orderedClause
  split
  · exact clause_moves room here token more node
  · next disorder =>
    refine (Keeps.report _).bind fun _ j _ _ reported => ?_
    rcases reported with ⟨rfl, -⟩ | ⟨ended, strict⟩
    · exact clause_moves room here token more node
    · exact .discardNode node <| .never <|
        consumeKeyword_misplaced ended more (own strict (by simpa using disorder))

/-- Clauses stand anywhere, unless one is out of order in strict mode. -/
theorem clauses_settles {forms : List ClauseForm} {s : State} (good : s.Good scope.env)
    (room : scope.Room 0 s.position)
    (proper : ∀ form ∈ forms, form.1.isToken ∧ form.1 ≠ .eof ∧ form.2.isNode)
    (own : MisplacedClause scope.env forms s → scope.own.halts) :
    scope.Settles (clauses forms) s fun _ t => State.After scope.env s t := by
  suffices looped : scope.Settles (Parser.loopFrom none (clauseStep forms)) s fun _ t =>
      State.After scope.env s t from looped.discard fun _ _ after => after
  refine .loopFrom (fun last t => State.After scope.env s t ∧
    Program.Rounds scope.env rule (clauseStep forms) none s last t)
    ⟨.refl good, .refl⟩ (fun _ _ ⟨after, _⟩ => after.good.inside) fun last t ⟨after, rounds⟩ => ?_
  have step : scope.Settles (clauseStep forms last) t fun next u =>
      State.After scope.env s u ∧ (next.isSome = true → t.position < u.position) := by
    refine settles_look after.good clauseHere_looks fun u ran tried => ?_
    have after' := after.trans (tried.after after.good)
    have same := tried.position
    split
    · next index keyword kind found =>
      rw [found] at ran
      obtain ⟨member, here⟩ := clauseAt_here found
      obtain ⟨token, more, node⟩ := proper _ member
      have stands : u.current scope.env ≠ .eof := by
        rw [tried.current]
        exact current_of_keywordAt here more
      rw [← same] at here
      refine Keeps.goOn (P := fun (next : Option (Option Nat)) j => next.isSome = true → t.position < j) after' ?_
      refine (orderedClause_keeps (room.later after'.position_le (by omega)) here token more node
        fun strict disorder => own ⟨strict, last, t, index, (keyword, kind), u, rounds, ran, ?_,
          after'.good, stands, more⟩).bind fun _ _ _ _ moved => .pure fun _ => by omega
      simpa using disorder
    · exact .pure ⟨after', by simp⟩
  refine step.weaken fun next u ran ⟨after, moves⟩ => ?_
  cases next with
  | some next => exact .inl ⟨⟨after, rounds.next ran⟩, moves rfl⟩
  | none => exact after

end Clauses

section Members

private theorem throwsClause_steady : Steady scope 1 throwsClause := clauses_steady (by decide)

private theorem implementsClause_steady : Steady scope 1 implementsClause := clauses_steady (by decide)

private theorem ellipsisHere_steady : Steady scope 0 ellipsisHere :=
  .test (fun _ => .or (.sees _) (.sees _)) (fun i room _ => (annotations_steady i room).bind
    fun _ _ _ _ _ => .require (by decide)) (.pure ())

private theorem receiver_steady : Steady scope rank receiver := .of_keeps fun i => by
  refine .sees (fun here => .consumeThen here (by decide) fun _ => .pure trivial) fun _ => ?_
  refine .look (.nthIs _ _) (.look (.nthIs _ _) ?_)
  refine .test (.and (.sees _) (.pure _)) (fun here => ?_) fun _ => .pure trivial
  simp only [Bool.and_eq_true, beq_iff_eq] at here
  refine .consumeThen here.1 (by decide) fun _ => .consumeThen ?_ (by decide) fun _ => .consumeThen ?_ (by decide) fun _ => .pure trivial
  · exact (scope.nth_cursor_add _ _ _).trans here.2.1
  · exact (scope.nth_cursor_add _ _ _).trans ((scope.nth_cursor_add _ _ _).trans here.2.2)

private theorem formalParam_yields {kind : Kind} (node : kind.isNode) :
    Yields scope 1 (formalParam kind) id := fun i room => by
  refine .someNode <| (modifiers_steady i room).bind fun _ j later _ _ =>
    (type_finds (room.later later (by omega))).keeps.bind fun found k on _ moves => ?_
  split
  · next some =>
    have moved := moves some
    have behind : scope.Room 1 k := room.later (by omega) (by omega)
    refine (Steady.and receiver_steady k behind).bind fun received l on _ _ => ?_
    split
    · exact .pure ⟨.some rfl, fun _ => by omega⟩
    · refine (ellipsisHere_steady l (behind.later on (by omega))).bind fun _ m on' _ _ => ?_
      refine (Keeps.require (by decide)).bind fun _ n on'' inside _ => ?_
      exact (dims_steady n (behind.later (by omega) (by omega) : scope.Room 1 n)).bind fun _ _ _ _ _ =>
        .pure ⟨.some node, fun _ => by omega⟩
  · exact .pure ⟨.none, by simp⟩

private theorem paramList_steady : Steady scope 0 paramList :=
  .sees (fun _ room here => .discardNode (by decide) <| (delimited_keeps room here (by decide) fun _ room =>
      formalParam_yields rfl _ (room.later (Nat.le_refl _) (by omega))).weaken fun _ _ _ _ => trivial)
    (.expectedHere _)

private theorem defaultValueIn_steady {body : Kind} : Steady scope 0 (defaultValueIn body) := by
  unfold defaultValueIn
  split
  · exact .whenSees fun _ room here => .discardNode (by decide) <| (Keeps.moved room (.consume_moves here (by decide)) fun _ =>
      elementValue_yields.steady.discard).weaken fun _ _ _ _ => trivial
  · exact .pure ()

private theorem methodBody_steady : Steady scope 1 methodBody :=
  .sees (fun i room _ => block_steady i room) <| .acceptThen (by decide) (.pure ()) (.expectedThenRecover _ _)

private theorem methodRest_answers {body : Kind} :
    Answers scope 1 (methodRest body) fun kind => kind.isNode := by
  refine .bind (paramList_steady.lower (by decide)) fun _ => .bind dims_steady fun _ =>
    .bind throwsClause_steady fun _ => .bind (defaultValueIn_steady.lower (by decide)) fun _ =>
      .bind methodBody_steady fun _ => .pure ?_
  split <;> rfl

private theorem constructorDecl_keeps (room : scope.Room 1 i)
    (here : (scope.cursor i).current = .identifier) :
    Keeps scope i constructorDecl fun kind _ => kind.isNode :=
  .consumeThen here (by decide) fun _ => Answers.keeps (.bind (paramList_steady.lower (by decide)) fun _ =>
    .bind throwsClause_steady fun _ => .bind block_steady fun _ => .pure rfl)
      (room.later (Nat.le_succ _) (by omega))

private theorem methodOrField_answers {body : Kind} :
    Answers scope 3 (methodOrField body) fun kind => kind.isNode :=
  .bind (resultType_steady.lower (by decide)) fun _ _ room =>
    .test (.and (.sees _) (.nthIs _ _)) (fun here => by
      simp only [Bool.and_eq_true, beq_iff_eq] at here
      exact .consumeThen here.1 (by decide) fun _ => methodRest_answers _ (room.later (Nat.le_succ _) (by omega)))
    fun _ => Answers.keeps (.bind variableDeclarators_steady fun _ => .bind (.semicolon _) fun _ =>
      .pure rfl) room

private theorem genericMember_keeps {body : Kind} (room : scope.Room 1 i)
    (here : (scope.cursor i).current = .lt) :
    Keeps scope i (genericMember body) fun kind _ => kind.isNode :=
  (typeParams_moves (room.later (Nat.le_refl _) (by omega)) here).bind fun _ j _ _ moved =>
    .test (.and (.sees _) (.nthIs _ _)) (fun named => by
      simp only [Bool.and_eq_true, beq_iff_eq] at named
      exact constructorDecl_keeps (room.later (Nat.le_of_lt moved) (by omega)) named.1)
    fun _ => Answers.bind resultType_steady (fun _ => .bind (.require (by decide)) fun _ => methodRest_answers)
      _ (room.later (Nat.le_of_lt moved) (by omega))

end Members

section Types

private theorem classDecl_keeps (room : scope.Room 1 i) (here : (scope.cursor i).current = .classKw) :
    Keeps scope i classDecl fun _ _ => True :=
  .consumeThen here (by decide) fun _ => Steady.bind (.require (by decide)) (fun _ =>
    .bind (someTypeParams_steady.lower (by decide)) fun _ => .bind (clauses_steady (by decide)) fun _ =>
      classBody_steady (by decide)) _ (room.later (Nat.le_succ _) (by omega))

private theorem interfaceDecl_keeps (room : scope.Room 1 i)
    (here : (scope.cursor i).current = .interfaceKw) : Keeps scope i interfaceDecl fun _ _ => True :=
  .consumeThen here (by decide) fun _ => Steady.bind (.require (by decide)) (fun _ =>
    .bind (someTypeParams_steady.lower (by decide)) fun _ => .bind (clauses_steady (by decide)) fun _ =>
      classBody_steady (by decide)) _ (room.later (Nat.le_succ _) (by omega))

private theorem enumDecl_keeps (room : scope.Room 1 i) (here : (scope.cursor i).current = .enumKw) :
    Keeps scope i enumDecl fun _ _ => True :=
  .consumeThen here (by decide) fun _ => Steady.bind (.require (by decide)) (fun _ =>
    .bind implementsClause_steady fun _ => classBody_steady (by decide)) _ (room.later (Nat.le_succ _) (by omega))

private theorem recordHeader_steady : Steady scope 0 recordHeader :=
  .sees (fun _ room here => .discardNode (by decide) <| (delimited_keeps room here (by decide) fun _ room =>
      formalParam_yields rfl _ (room.later (Nat.le_refl _) (by omega))).weaken fun _ _ _ _ => trivial)
    (.expectedHere _)

private theorem recordDecl_keeps (room : scope.Room 1 i) (here : isRecordDecl (scope.cursor i)) :
    Keeps scope i recordDecl fun _ _ => True := by
  simp only [isRecordDecl, Bool.and_eq_true] at here
  refine (Keeps.consumeAs (wordAt_here here.1.1) (by decide)).bind fun _ j later _ _ => ?_
  exact Steady.bind (.require (by decide)) (fun _ => .bind (someTypeParams_steady.lower (by decide)) fun _ =>
    .bind (recordHeader_steady.lower (by decide)) fun _ => .bind implementsClause_steady fun _ =>
      classBody_steady (by decide)) _ (room.later later (by omega))

private theorem annotationTypeDecl_keeps (room : scope.Room 1 i)
    (here : (scope.cursor i).current = .atSign) (next : (scope.cursor i).nth 1 = .interfaceKw) :
    Keeps scope i annotationTypeDecl fun _ _ => True :=
  .consumeThen here (by decide) fun _ => .consumeThen ((scope.nth_cursor_add _ _ _).trans next) (by decide) fun _ =>
    Steady.bind (.require (by decide)) (fun _ => classBody_steady (by decide)) _ (room.later (by omega) (by omega))

theorem typeDeclRest_answers : Answers scope 1 typeDeclRest NodeKind := fun i room =>
  .look .cursor <| by
    split
    · next stands =>
      simp only [isTypeDecl] at stands
      split
      · next here => exact (classDecl_keeps room here).bind fun _ _ _ _ _ => .pure (.some rfl)
      · next here => exact (interfaceDecl_keeps room here).bind fun _ _ _ _ _ => .pure (.some rfl)
      · next here => exact (enumDecl_keeps room here).bind fun _ _ _ _ _ => .pure (.some rfl)
      · next here =>
        refine (annotationTypeDecl_keeps room here ?_).bind fun _ _ _ _ _ => .pure (.some rfl)
        simpa [here] using stands
      · have record : isRecordDecl (scope.cursor i) := by
          split at stands <;> simp_all
        exact (recordDecl_keeps room record).bind fun _ _ _ _ _ => .pure (.some rfl)
    · exact Answers.bind (.expectedThenRecover _ _) (fun _ => .pure .none) _ room

theorem typeDecl_steady : Steady scope 1 typeDecl :=
  .discardNodeIf <| .bind modifiers_steady fun _ => typeDeclRest_answers

end Types

section Bodies

private theorem memberDeclRest_answers {body : Kind} : Answers scope 3 (memberDeclRest body) NodeKind :=
  fun i room => .look .cursor <| by
    have low : scope.Room 1 i := room.later (Nat.le_refl _) (by omega)
    dsimp only
    split
    · exact typeDeclRest_answers i low
    · split
      · next here => exact (genericMember_keeps low here).bind fun _ _ _ _ node => .pure (.some node)
      · split
        · next here =>
          exact (constructorDecl_keeps low here.1).bind fun _ _ _ _ node => .pure (.some node)
        · split
          · next here =>
            exact .consumeThen here.1 (by decide) fun _ => (block_steady _ (low.later (Nat.le_succ _) (by omega))).bind
              fun _ _ _ _ _ => .pure (.some rfl)
          · split
            · exact (methodOrField_answers i room).bind fun _ _ _ _ node => .pure (.some node)
            · exact Answers.bind (.expectedThenRecover _ _) (fun _ => .pure .none) _ room

private theorem memberDecl_steady {body : Kind} : Steady scope 3 (memberDecl body) :=
  .discardNodeIf <| .bind modifiers_steady fun _ => memberDeclRest_answers

private theorem member_steady {body : Kind} : Steady scope 3 (member body) :=
  .sees (fun _ _ here => .discardNode (by decide) <| (Keeps.consume_moves here (by decide)).weaken fun _ _ _ _ => trivial) <|
    .test (fun _ => .or (.sees _) (.and (.sees _) (.nthIs _ _)))
      (fun i room _ => Steady.discardNode (by decide) (.bind (Steady.accept (by decide)).discard
        fun _ => block_steady.lower (by decide)) i room)
      memberDecl_steady

private theorem enumConstant_steady : Steady scope 1 enumConstant :=
  .discardNode (by decide) <| .bind modifiers_steady fun _ => .bind (.require (by decide)) fun _ =>
    .bind (someArgList_steady.lower (by decide)) fun _ => someClassBody_steady (by decide)

private theorem enumConstantsIn_steady {body : Kind} : Steady scope 1 (enumConstantsIn body) := by
  unfold enumConstantsIn
  split
  · refine .bind (.loop fun i room => .test (.or (.sees _) (.sees _))
      (fun _ => (enumConstant_steady i room).bind fun _ j later _ _ =>
        (Keeps.accept (by decide)).weaken fun found k _ reached some => ?_)
      fun _ => .pure (by simp)) fun _ => .sees (fun _ _ _ => .pure trivial) (.require (by decide))
    simp only [id] at some
    simp only [some, if_true] at reached
    omega
  · exact .pure ()

private theorem bracedBody_keeps {kind : Kind} (room : scope.Room 0 i)
    (here : (scope.cursor i).current = .leftBrace) (node : kind.isNode) :
    Keeps scope i (bracedBody kind) fun _ _ => True :=
  .nested (.discardNode node <| (Keeps.moved room (.consume_moves here (by decide)) fun _ =>
    .bind (enumConstantsIn_steady.lower (by decide)) fun _ =>
      .bind (.listUntil (member_steady.lower (by decide))) fun _ => .require (by decide)).weaken
        fun _ _ _ _ => trivial) fun _ _ _ => trivial

theorem classBody_keeps {kind : Kind} (room : scope.Room 0 i) (node : kind.isNode) :
    Keeps scope i (classBody kind) fun _ _ => True :=
  .sees (fun here => bracedBody_keeps room here node) fun _ =>
    Steady.bind (.expectedThenRecover _ _) (fun _ => .whenSees fun _ room here =>
      bracedBody_keeps room here node) _ room

end Bodies

end LosslessJava.Grammar
