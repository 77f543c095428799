import LosslessJava.Proofs.Grammar.Declarations

/-! Statements. The nodes of a chain of `if`s are all open while it is read, and are completed from
the innermost one outwards. -/

namespace LosslessJava.Grammar

open LosslessJava.Parser

variable {scope : Scope} {i rank : Nat}

section Blocks

theorem block_keeps (room : scope.Room 0 i) : Keeps scope i block fun _ _ => True :=
  .sees (fun here => .nested (.discardNode (by decide) <| (Keeps.moved room (.consume_moves here (by decide)) fun _ =>
      .bind (.listUntil statement_steady) fun _ => .require (by decide)).weaken fun _ _ _ _ => trivial)
      fun _ _ _ => trivial)
    fun _ => Steady.expectedHere _ i room

private theorem localVarDecl_steady {ending : Rule Unit} (rest : Steady scope 3 ending) :
    Steady scope 3 (localVarDecl ending) :=
  .discardNode (by decide) <| .bind modifiers_steady fun _ => .bind (type_steady.discard.lower (by decide))
    fun _ => .bind variableDeclarators_steady fun _ => rest

private theorem keywordStmt_moves {kind keyword : Kind} {rest : Rule Unit}
    (proper : kind.isNode ∧ keyword ≠ .eof) (room : scope.Room 0 i)
    (here : (scope.cursor i).current = keyword) (behind : Steady scope 4 rest) :
    Keeps scope i (keywordStmt kind keyword rest) fun _ j => i < j :=
  .discardNode proper.1 <| .moved room (.consume_moves here proper.2) fun _ => behind

end Blocks

section Chains

/-- The nodes of a chain that are open in a state, which were started one in the other behind
state `s`. -/
inductive Opens (env : Env) (s : State) : List OpenIf → State → Prop where
  | none {t} (after : State.After env s t) : Opens env s [] t
  | link {rest t u} (outer : Opens env s rest t) (after : State.After env t.start u) :
      Opens env s (⟨t.mark, none⟩ :: rest) u
  | branch {rest t u v} (outer : Opens env s rest t) (inner : State.After env t.start u)
      (after : State.After env u.start v) : Opens env s (⟨t.mark, some u.mark⟩ :: rest) v

private theorem Opens.later {env : Env} {s t u : State} {opened : List OpenIf} (opens : Opens env s opened t)
    (later : State.After env t u) : Opens env s opened u := by
  cases opens with
  | none after => exact .none (after.trans later)
  | link outer after => exact .link outer (after.trans later)
  | branch outer inner after => exact .branch outer inner (after.trans later)

theorem Opens.good {env : Env} {s t : State} {opened : List OpenIf} (opens : Opens env s opened t) :
    t.Good env := by
  cases opens with
  | none after => exact after.good
  | link _ after => exact after.good
  | branch _ _ after => exact after.good

private theorem settles_discardComplete {t u : State} {kind : Kind} (node : kind.isNode)
    (after : State.After scope.env t.start u) :
    scope.Settles (discard (t.mark.complete kind)) u fun _ v => State.After scope.env t v := by
  obtain ⟨v, done, -, after, -⟩ := State.complete_after after node
  exact .actThen done (.pure after)

private theorem settles_closeIfs {s t : State} {opened : List OpenIf} (opens : Opens scope.env s opened t) :
    scope.Settles (closeIfs opened) t fun _ u => State.After scope.env s u := by
  induction opened generalizing t with
  | nil =>
    cases opens with
    | none after => exact .pure after
  | cons link rest ih =>
    cases opens with
    | link outer after =>
      have skipped : scope.Settles (closeBranch none) t fun _ u => u = t := .pure rfl
      refine skipped.bind fun _ u _ same => ?_
      subst same
      exact (settles_discardComplete (by decide) after).bind fun _ _ _ after => ih (outer.later after)
    | branch outer inner after =>
      refine (settles_discardComplete (by decide) after).bind fun _ u _ after => ?_
      exact (settles_discardComplete (by decide) (inner.trans after)).bind fun _ _ _ after =>
        ih (outer.later after)

private theorem settles_ifLink {s t : State} {opened : List OpenIf} (opens : Opens scope.env s opened t)
    (room : scope.Room 0 t.position) (here : t.current scope.env = .ifKw) :
    scope.Settles (ifLink opened) t fun answer u => Opens scope.env s answer.1 u ∧
      t.position < u.position ∧ (answer.2 = true → u.current scope.env = .ifKw) := by
  refine .actThen rfl ?_
  refine (Keeps.consume_moves here (by decide) t.start opens.good.start rfl).bind
    fun _ u _ ⟨first, moved⟩ => ?_
  have behind : scope.Room 4 u.position := room.moved moved first.good.inside
  refine (condition_steady u.position (behind.later (Nat.le_refl _) (by omega)) u first.good rfl).bind
    fun _ v _ ⟨second, _⟩ => ?_
  have later := second.position_le
  refine (statement_steady v.position (behind.later later (by omega)) v second.good rfl).bind
    fun _ w _ ⟨third, _⟩ => ?_
  have on := third.position_le
  have after := first.trans (second.trans third)
  refine settles_look after.good (.sees _) fun x _ tried => ?_
  have after := after.trans (tried.after after.good)
  have same := tried.position
  split
  · next otherwise =>
    rw [beq_iff_eq, ← same] at otherwise
    refine .actThen rfl ?_
    refine (Keeps.consume_moves otherwise (by decide) x.start after.good.start rfl).bind
      fun _ y _ ⟨branch, on'⟩ => ?_
    refine settles_look branch.good (.sees _) fun z _ tried' => ?_
    have branch := branch.trans (tried'.after branch.good)
    have same' := tried'.position
    split
    · next again =>
      rw [beq_iff_eq, ← same'] at again
      exact .pure ⟨.branch opens after branch, by omega, fun _ => again⟩
    · have room : scope.Room 4 z.position := behind.later (by omega) (by omega)
      refine (statement_steady z.position room z branch.good rfl).bind fun _ o _ ⟨last, _⟩ => ?_
      have reached := last.position_le
      obtain ⟨e, done, still, closed, -⟩ := State.complete_after (branch.trans last)
        (show Kind.elseBranch.isNode by decide)
      have completed : scope.Settles (discard (x.mark.complete .elseBranch)) o fun _ f => f = e :=
        .actThen done (.pure rfl)
      refine completed.bind fun _ f _ same => .pure ?_
      subst same
      exact ⟨.link opens (after.trans closed), by omega, by simp⟩
  · exact .pure ⟨.link opens after, by omega, by simp⟩

def ifRound (answer : List OpenIf × Bool) : Rule (Option (List OpenIf × Bool)) := do
  if answer.2 then
    return some (← ifLink answer.1)
  else
    return none

theorem ifStmt_eq : ifStmt = Parser.loopFrom ([], true) ifRound >>= fun answer => closeIfs answer.1 := rfl

private theorem ifStmt_keeps (room : scope.Room 0 i) (here : (scope.cursor i).current = .ifKw) :
    Keeps scope i ifStmt fun _ _ => True := by
  intro s good at_i
  subst at_i
  refine Program.Settles.bind (P := fun answer t => Opens scope.env s answer.1 t) ?_ fun _ _ _ opens =>
    (settles_closeIfs opens).weaken fun _ _ _ after => ⟨after, trivial⟩
  refine .loopFrom (fun answer t => Opens scope.env s answer.1 t ∧
    s.position ≤ t.position ∧ (answer.2 = true → t.current scope.env = .ifKw))
    ⟨.none (.refl good), Nat.le_refl _, fun _ => here⟩ (fun _ _ reads => reads.1.good.inside)
    fun answer t reads => ?_
  obtain ⟨opens, later, stands⟩ := reads
  dsimp only
  split
  · next again =>
    refine (settles_ifLink opens (room.later later (by omega)) (stands again)).bind
      fun _ _ _ linked => .pure (.inl ?_)
    obtain ⟨opens, moved, stands⟩ := linked
    exact ⟨⟨opens, by omega, stands⟩, moved⟩
  · exact .pure opens

end Chains

section Loops

private theorem exprList_steady : Steady scope 3 exprList := .commaSeparated anyExpression_steady

private theorem foreachHeader_steady : Steady scope 3 foreachHeader :=
  .bind modifiers_steady fun _ => .bind (type_steady.discard.lower (by decide)) fun _ =>
    .bind (.require (by decide)) fun _ => .bind (.require (by decide)) fun _ => anyExpression_steady

private theorem forInit_steady : Steady scope 3 forInit :=
  .bind (.decideBy _ _) fun found => by
    split
    · exact localVarDecl_steady (.pure ())
    · exact exprList_steady

private theorem unlessSees_steady {kind : Kind} {rule : Rule Unit} (steady : Steady scope rank rule) :
    Steady scope rank (unlessSees kind rule) := .sees (fun _ _ _ => .pure trivial) steady

private theorem forHeader_steady : Steady scope 3 forHeader :=
  .bind (unlessSees_steady (.discardNode (by decide) forInit_steady)) fun _ => .bind (.require (by decide)) fun _ =>
    .bind (unlessSees_steady anyExpression_steady) fun _ => .bind (.require (by decide)) fun _ =>
      unlessSees_steady (.discardNode (by decide) exprList_steady)

private theorem loopHeader_answers : Answers scope 3 loopHeader fun kind => kind.isNode :=
  .bind (.decideBy _ _) fun found => by
    split
    · exact .bind foreachHeader_steady fun _ => .pure rfl
    · exact .bind forHeader_steady fun _ => .pure rfl

private theorem forStmt_keeps (room : scope.Room 0 i) (here : (scope.cursor i).current = .forKw) :
    Keeps scope i forStmt fun _ _ => True :=
  .discardNodeOf <| (Keeps.consume_moves here (by decide)).bind fun _ j _ inside moved => by
    have behind : scope.Room 4 j := room.moved moved inside
    refine (Keeps.require (by decide)).bind fun _ k later _ _ => ?_
    refine (Keeps.bracketed (loopHeader_answers k (behind.later later (by omega)))).bind fun kind l on _ node => ?_
    refine (Keeps.require (by decide)).bind fun _ m on' _ _ => ?_
    exact (statement_steady m (behind.later (by omega) (by omega))).bind fun _ _ _ _ _ => .pure node

end Loops

section Handlers

private theorem resourceVariable_steady : Steady scope 3 resourceVariable :=
  .bind (.decideBy _ _) fun found => by
    split
    · exact .bind modifiers_steady fun _ => .bind (type_steady.discard.lower (by decide)) fun _ =>
        .bind (.require (by decide)) fun _ => .require (by decide)
    · exact .pure ()

/-- A resource that was found is followed by another one only behind a semicolon. -/
theorem resource_yields : Yields scope 3 resource id := fun i room => by
  have found : Finds scope i (nodeIf do
      let before ← position
      resourceVariable
      discard anyExpression
      return if (← position) = before then none else some .resource) fun _ _ => True :=
    .nodeIf <| .look .position <| (resourceVariable_steady i room).bind fun _ j later _ _ =>
      (anyExpression_steady j (room.later later (by omega))).bind fun _ k _ _ _ => .look .position <| .pure <| by
        split
        · exact ⟨.none, trivial⟩
        · exact ⟨.some rfl, trivial⟩
  refine found.keeps.bind fun found j later _ _ => ?_
  split
  · exact (Keeps.accept (by decide)).weaken fun b k _ reached more => by
      simp only [id] at more
      simp only [more, if_true] at reached
      omega
  · exact .pure (by simp)

private theorem resourceSpec_steady : Steady scope 0 (do
    if ← sees .leftParen then
      resourceSpec
      return true
    else
      return false) :=
  .sees (fun i room here => (Keeps.discardNode (by decide) (.moved room (.consume_moves here (by decide)) fun _ =>
    .bind (Steady.bracketed <| .loop fun j room => .test (.or (.sees _) (.sees _))
      (fun _ => .pure (by simp)) fun _ => resource_yields j (room.later (Nat.le_refl _) (by omega)))
      fun _ => .require (by decide))).bind fun _ _ _ _ _ => .pure trivial) (.pure _)

private theorem catchClause_moves (room : scope.Room 0 i) (here : (scope.cursor i).current = .catchKw) :
    Keeps scope i catchClause fun _ j => i < j :=
  keywordStmt_moves (by decide) room here <| .bind (.require (by decide)) fun _ => .bind (.discardNode (by decide) <|
    .bind modifiers_steady fun _ => .bind ((compoundType_steady (by decide) (by decide)).lower (by decide)) fun _ =>
      .require (by decide)) fun _ => .bind (.require (by decide)) fun _ => block_steady.lower (by decide)

private theorem catchClauses_steady : Steady scope 0 catchClauses :=
  Yields.steady <| .loopAny fun _ room => .sees
    (fun here => (catchClause_moves room here).bind fun _ _ _ _ moved => .pure fun _ => moved)
    fun _ => .pure (by simp)

private theorem tryStmt_moves (room : scope.Room 0 i) (here : (scope.cursor i).current = .tryKw) :
    Keeps scope i tryStmt fun _ j => i < j :=
  keywordStmt_moves (by decide) room here <| .bind (resourceSpec_steady.lower (by decide)) fun resources =>
    .bind (block_steady.lower (by decide)) fun _ => .bind (catchClauses_steady.lower (by decide))
      fun caught => .sees (fun _ room here =>
        (keywordStmt_moves (by decide) (room.later (Nat.le_refl _) (by omega)) here (block_steady.lower (by decide))).weaken
          fun _ _ _ _ => trivial) <| by
        split
        · exact .expectedHere _
        · exact .pure ()

end Handlers

section Statements

private theorem statementEnd_steady : Steady scope rank statementEnd := .semicolon _

private theorem localTypeDecl_steady : Steady scope 3 (discard (node .localTypeDecl typeDecl)) :=
  .discardNode (by decide) (typeDecl_steady.lower (by decide))

private theorem plainStatement_steady : Steady scope 3 plainStatement := fun i room =>
  .look .current <| (Steady.and (.decideBy _ _) i room).bind fun typed j later _ _ => by
    have room : scope.Room 3 j := room.later later (by omega)
    split
    · exact localTypeDecl_steady j room
    · refine (Steady.and (.decideBy _ _) j room).bind fun declared k later _ _ => ?_
      have room : scope.Room 3 k := room.later later (by omega)
      split
      · exact localVarDecl_steady statementEnd_steady k room
      · exact exprStmt_steady k room

private theorem nameStatement_keeps (room : scope.Room 3 i)
    (here : (scope.cursor i).current = .identifier) :
    Keeps scope i nameStatement fun _ _ => True := .look .cursor <| by
  split
  · next colon =>
    refine .discardNode (by decide) <| .consumeThen here (by decide) fun inside => ?_
    refine .consumeThen ((scope.nth_cursor_add _ _ _).trans colon) (by decide) fun inside => ?_
    exact statement_steady _ (room.moved (by omega) inside)
  · split
    · next word =>
      simp only [isYieldStmt, Bool.and_eq_true] at word
      refine .discardNode (by decide) <| (Keeps.consumeAs (wordAt_here word.1) (by decide)).bind fun _ j later _ _ => ?_
      exact Steady.bind anyExpression_steady (fun _ => statementEnd_steady) j (room.later later (by omega))
    · split
      · exact localTypeDecl_steady i room
      · exact plainStatement_steady i room

private theorem jumpStmt_keeps {kind : Kind} (room : scope.Room 0 i) (node : kind.isNode)
    (more : (scope.cursor i).current ≠ .eof) : Keeps scope i (jumpStmt kind) fun _ _ => True :=
  .discardNode node <| (Keeps.consumeAny more).bind fun _ j later _ _ =>
    Steady.bind (Steady.accept (by decide)).discard (fun _ => statementEnd_steady) j
      (room.later (by omega) (Nat.le_refl 0) : scope.Room 0 j)

private theorem assertMessage_steady : Steady scope 3 assertMessage :=
  .acceptThen (by decide) anyExpression_steady (.pure ())

private theorem statementHere_steady : Steady scope 3 statementHere := fun i room => .look .current <| by
  have low : scope.Room 0 i := room.later (Nat.le_refl _) (by omega)
  have moved {rule : Rule Unit} (moves : Keeps scope i rule fun _ j => i < j) :
      Keeps scope i rule fun _ _ => True := moves.weaken fun _ _ _ _ => trivial
  split
  · exact block_steady i (room.later (Nat.le_refl _) (by omega))
  · next here => exact .discardNode (by decide) (moved (.consume_moves here (by decide)))
  · next here => exact ifStmt_keeps low here
  · next here =>
    exact moved <| keywordStmt_moves (by decide) low here <| .bind (condition_steady.lower (by decide)) fun _ =>
      statement_steady
  · next here =>
    exact moved <| keywordStmt_moves (by decide) low here <| .bind statement_steady fun _ => .bind (.require (by decide)) fun _ =>
      .bind (condition_steady.lower (by decide)) fun _ => statementEnd_steady
  · next here => exact forStmt_keeps low here
  · next here => exact moved (tryStmt_moves low here)
  · next here =>
    exact moved <| keywordStmt_moves (by decide) low here <| .bind (condition_steady.lower (by decide)) fun _ =>
      switchBlock_steady.lower (by decide)
  · next here =>
    exact moved <| keywordStmt_moves (by decide) low here <|
      .bind (unlessSees_steady (anyExpression_steady.lower (by decide))) fun _ => statementEnd_steady
  · next here =>
    exact moved <| keywordStmt_moves (by decide) low here <|
      .bind (anyExpression_steady.lower (by decide)) fun _ => statementEnd_steady
  · next here => exact jumpStmt_keeps low (by decide) (by simp [here])
  · next here => exact jumpStmt_keeps low (by decide) (by simp [here])
  · next here =>
    exact moved <| keywordStmt_moves (by decide) low here <|
      .bind (anyExpression_steady.lower (by decide)) fun _ =>
        .bind (assertMessage_steady.lower (by decide)) fun _ => statementEnd_steady
  · next here =>
    refine .test (.nthIs _ _) (fun _ => moved ?_) fun _ => plainStatement_steady i room
    exact keywordStmt_moves (by decide) low here <| .bind (condition_steady.lower (by decide)) fun _ =>
      block_steady.lower (by decide)
  · next here => exact nameStatement_keeps room here
  · exact plainStatement_steady i room

theorem statement_keeps (room : scope.Room 3 i) : Keeps scope i statement fun _ _ => True :=
  .nested (statementHere_steady i room) fun _ _ _ => trivial

end Statements

end LosslessJava.Grammar
