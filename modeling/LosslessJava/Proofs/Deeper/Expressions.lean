import LosslessJava.Proofs.Deeper.Switch

/-! Expressions, where a name may have been tried as a receiver in vain. An operand may then stop late, in front of the
`<`, and so may what ends in it. An operator goes on from there or leaves the `<` to one that binds less tightly. None of
them gets over the `>`: behind it would have to be an operand, and there is none. -/

namespace LosslessJava.Grammar

open LosslessJava.Parser

set_option synthInstance.maxSize 2000

variable {bounds : Bounds} {s t : State} {kind : Kind} [routes : Routes bounds]

section Operands

instance : Steers bounds .all argList := by
  unfold argList
  infer_instance

instance : Steers bounds .all variableInitializer := by
  unfold variableInitializer
  infer_instance

theorem arrayInitializer_steers : Steers bounds .all arrayInitializer := by
  unfold arrayInitializer
  infer_instance

instance : Steers bounds .all lambdaParam := by
  unfold lambdaParam
  infer_instance

instance : Steers bounds .all lambdaElement := by
  unfold lambdaElement
  infer_instance

theorem lambdaParamList_steers : Steers bounds .all lambdaParamList := by
  unfold lambdaParamList
  infer_instance

instance : Steers bounds .all lambdaParams := by
  unfold lambdaParams
  infer_instance

instance : Steers bounds .all lambdaExpr := by
  unfold lambdaExpr
  infer_instance

instance : Steers bounds .all reference := by
  have name : Steers bounds .all (do
      if ← sees .identifier <||> sees .newKw then
        consumeAny
        return .methodRef
      else
        expectedHere "method name or `new`"
        return .methodRef : Rule Kind) := ⟨fun s => .look fun t still => by
    split
    · next found =>
      refine .consumeAnyThen ?_ fun u => .pure
      rw [still.current_eq, State.current]
      rcases (Bool.or_eq_true _ _).mp found with here | here
      all_goals rw [beq_iff_eq.mp here]
    · exact Steers.onCourse t⟩
  unfold reference
  infer_instance

instance {receiver : Completed} : Steers bounds .all (methodRef receiver) := by
  unfold methodRef
  infer_instance

instance {type : Completed} : Steers bounds .all (typeLiteralSuffix type) := by
  unfold typeLiteralSuffix
  infer_instance

instance : Steers bounds .all dimExpr := by
  unfold dimExpr
  infer_instance

instance : Steers bounds .all arrayCreationRest := by
  unfold arrayCreationRest
  infer_instance

instance : Steers bounds .all objectCreationRest := by
  unfold objectCreationRest
  infer_instance

instance : Steers bounds .all creation := by
  unfold creation
  infer_instance

instance : Steers bounds .all genericCallName := by
  unfold genericCallName
  refine ⟨fun s => .look fun t still => ?_⟩
  split
  iterate 3
    next here => exact .consumeHere still here rfl
  exact Steers.onCourse t

instance : Steers bounds .all genericCallRest := by
  unfold genericCallRest
  infer_instance

instance {plain : Kind} : Steers bounds .all (callOr plain) := by
  unfold callOr
  infer_instance

instance : Steers bounds .all selected := by
  unfold selected
  refine .andThen fun kind => ?_
  split <;> infer_instance

instance {receiver : Completed} : Steers bounds .all (dotSuffix receiver) := by
  unfold dotSuffix
  infer_instance

instance : Steers bounds .all subscript := by
  unfold subscript
  infer_instance

instance {array : Completed} : Steers bounds .all (arrayAccess array) := by
  unfold arrayAccess
  infer_instance

instance {operand : Completed} : Steers bounds .all (postfixStep operand) := by
  unfold postfixStep
  refine .andThen fun kind => ?_
  split <;> infer_instance

instance {operand : Completed} : Steers bounds .all (incrementStep operand) where
  onCourse s := by
    unfold incrementStep
    refine .look fun t still => ?_
    have step (kind : Kind) (here : (s.cursor bounds.env).current = kind) (taken : Course.all.takes kind = true) :
        OnCourse bounds .all Never (around operand do consumeAny; return .postfixExpr) t :=
      .around fun u same => .consumeAnyThen (by rwa [current_eq, same, still.position, ← current_eq, State.current, here]) fun v => .pure
    split
    iterate 2
      next here => exact .behind (step _ here rfl) fun _ u => .pure
    exact .pure

instance {operand : Completed} : Steers bounds .all (postfixExpr operand) := by
  unfold postfixExpr
  infer_instance

instance : Steers bounds .all plainName := by
  unfold plainName
  infer_instance

theorem simpleName_steers : Steers bounds .all simpleName := by
  unfold simpleName
  refine .andThen fun next => .andThen fun found => ?_
  split
  · refine .andThen fun type => ?_
    split <;> infer_instance
  · infer_instance

instance {kind plain : Kind} [Taken .all kind] : Steers bounds .all (selfExpr kind plain) := by
  unfold selfExpr
  infer_instance

instance : Steers bounds .all genericSelfName where
  onCourse s := by
    unfold genericSelfName
    refine .look fun t still => ?_
    split
    · next found =>
      refine .consumeAny ?_
      rw [still.current_eq, State.current]
      rcases (Bool.or_eq_true _ _).mp found with here | here
      all_goals rw [beq_iff_eq.mp here]
    · exact Steers.onCourse t

instance : Steers bounds .all genericSelfCall := by
  unfold genericSelfCall
  infer_instance

instance : Steers bounds .all resultType := by
  unfold resultType
  infer_instance

instance : Steers bounds .all literalType := by
  unfold literalType
  refine .andThen fun found => ?_
  split <;> infer_instance

end Operands

section Names

omit routes in
private theorem smooth_pureAnd {given : Bool} {rule : Rule Bool} [Peeks bounds rule] :
    Smooth bounds (pure given <&&> rule) s fun found t => s.Still t ∧ (found = true → given = true) := by
  have first : Smooth bounds (Pure.pure given) s fun b t => b = given ∧ s.Still t := .pure ⟨rfl, .refl⟩
  refine first.bind ?_
  rintro b t ⟨rfl, still⟩
  cases b with
  | true => exact Smooth.peek.weaken fun _ _ still' => ⟨still.trans still', fun _ => rfl⟩
  | false => exact .pure ⟨still, fun impossible => impossible⟩

omit routes in
private theorem smooth_simpleName (opened : bounds.env.stream.kindAt (s.position + 1) = .lt) :
    Smooth bounds simpleName s fun found t => found.isSome = true ∧ t.position = s.position + 1 := by
  have name {t : State} (same : t.position = s.position) : Smooth bounds plainName t fun _ u => s.position + 1 = u.position := by
    unfold plainName
    refine .nodeOf fun u still => (smooth_consume rfl (by decide)).bind fun _ v ⟨_, moved⟩ => ?_
    have here : v.position = s.position + 1 := by rw [moved, still, same]
    unfold callOr
    refine Smooth.look.bind fun paren w ⟨still, seen⟩ => ?_
    subst seen
    rw [if_neg (by rw [← State.current, current_eq, here, opened]; decide)]
    exact .pure (still.position.trans here).symm
  unfold simpleName
  refine Smooth.look.bind fun next t ⟨still, seen⟩ => smooth_pureAnd.bind fun literal u ⟨still', only⟩ => ?_
  have array : literal = false := by
    rw [← Bool.not_eq_true]
    intro found
    have lt : next = .lt := seen.trans ((TokenCursor.nth_eq _ 1).trans opened)
    have given := only found
    rw [lt] at given
    cases given
  subst array
  refine (name (still'.position.trans still.position)).bind fun first v moved => .pure ⟨rfl, moved.symm⟩

omit routes in
private theorem trial_steers {course : Course} [Steers bounds course (call .type)] : Steers bounds course (do
    match ← call .type with
    | some type => return if ← sees .colonColon then some type else none
    | none => return none : Rule (Option Completed)) := .andThen fun found => by split <;> infer_instance

private theorem smooth_genericReceiver : Smooth bounds genericReceiver? s fun _ t =>
    Course.all.Leads bounds.env.stream s.position t.position := by
  intro found t gives ready _
  obtain ⟨given, u, ran, settled⟩ := gives.speculate
  unfold Program.settle at settled
  split at settled
  · next keeps =>
    cases settled
    exact (trial_steers.onCourse s).leads _ _ ran ready keeps.2
  · cases settled
    exact .refl

/-- A trial that was kept is kept where rules may nest deeper. One that was taken back may be kept there. -/
theorem genericReceiver_agrees {bound depth : Nat} {found found' : Option Completed} {t t' : State}
    (le : bounds.env.options.maxDepth ≤ bound) (other : (bounds.within bound depth).Gives genericReceiver? s found' t')
    (gives : bounds.Gives genericReceiver? s found t) (ready : s.Ready bounds.env) :
    found' = found ∧ t' = t ∨ found = none ∧ t = s ∧ ∃ type, found' = some type := by
  obtain ⟨given, u, ran, settled⟩ := gives.speculate
  obtain ⟨given', u', ran', settled'⟩ := other.speculate
  unfold Program.settle at settled settled'
  split at settled
  · next keeps =>
    cases settled
    have onCourse : OnCourse bounds .angles Never _ s := trial_steers.onCourse s
    cases onCourse.agrees (by decide) le ran' _ _ ran ready keeps.2 with
    | same same =>
      obtain ⟨rfl, rfl⟩ := same
      rw [if_pos keeps] at settled'
      cases settled'
      exact .inl ⟨rfl, rfl⟩
    | parted impossible => exact impossible.elim
    | late impossible => exact impossible.elim
  · cases settled
    split at settled'
    · next keeps =>
      cases settled'
      exact .inr ⟨rfl, rfl, Option.isSome_iff_exists.mp keeps.1⟩
    · cases settled'
      exact .inl ⟨rfl, rfl⟩

private theorem receiverOrName_onCourse (named : s.current bounds.env = .identifier) (opened : bounds.env.stream.kindAt (s.position + 1) = .lt) :
    OnCourse bounds .all (·.isSome) (do
      match ← genericReceiver? with
      | some type => return some (← methodRef type)
      | none => call .simpleName : Rule (Option Completed)) s := by
  have next (found : Option Completed) : Steers bounds .all (match found with
      | some type => do return some (← methodRef type)
      | none => call .simpleName : Rule (Option Completed)) := by split <;> infer_instance
  refine ⟨smooth_genericReceiver.bind fun found t leads => ((next found).onCourse t).leads.weaken fun _ _ later => leads.trans later,
    fun compared bound depth b' u' le other a u gives ready clean => ?_⟩
  obtain ⟨found', t', tried', rest'⟩ := other.bind
  obtain ⟨found, t, tried, rest⟩ := gives.bind
  have early := tried.le_errorCount
  have later := rest.le_errorCount
  have ready' := tried.ready ready (by omega)
  rcases genericReceiver_agrees le tried' tried ready with ⟨rfl, rfl⟩ | ⟨rfl, rfl, type, rfl⟩
  · have onCourse : OnCourse bounds .all (fun found : Option Completed => found.isSome = true) _ _ := .of_never ((next found').onCourse t')
    exact (onCourse.agrees compared le rest' a u rest ready' (by omega)).after (smooth_genericReceiver _ _ tried ready (by omega)).le
  · obtain ⟨close, receiver⟩ := @receiver_of_kept (bounds.within bound depth) _ _ _ ⟨ready.normal, ready.inside⟩ named opened tried'
    have name : Smooth bounds (call .simpleName) t fun found u => found.isSome = true ∧ u.position = t.position + 1 :=
      .call fun _ => smooth_simpleName opened
    obtain ⟨isSome, moved⟩ := name a u rest ready (by omega)
    exact .late isSome ⟨t.position, close, receiver, Nat.le_refl _, moved⟩

private theorem nameExpr_onCourse (named : s.current bounds.env = .identifier) : OnCourse bounds .all (·.isSome) nameExpr s := by
  unfold nameExpr
  refine .look fun t still => .idleThen fun noLambda u same => ?_
  split
  · exact .of_never (Steers.onCourse u)
  · split
    · next opened =>
      have same : u.position = s.position := same.trans still.position
      refine receiverOrName_onCourse ?_ ?_
      · rw [current_eq, same, ← current_eq, named]
      · exact same ▸ (TokenCursor.nth_eq _ 1).symm.trans opened
    · exact .of_never (Steers.onCourse u)

end Names

section Operands

omit routes in
private theorem smooth_postfixExpr {operand : Completed} (opened : bounds.env.stream.kindAt s.position = .lt) :
    Smooth bounds (postfixExpr operand) s fun _ t => t.position = s.position := by
  have here {t : State} (same : t.position = s.position) : (t.cursor bounds.env).current = .lt := by
    rw [← State.current, current_eq, same, opened]
  have steps : Smooth bounds (loopFrom operand postfixStep) s fun _ t => t.position = s.position := by
    unfold postfixStep
    refine .unroll (Smooth.look.bind fun kind t ⟨still, seen⟩ => ?_)
    rw [seen, here rfl]
    exact .pure ⟨fun _ => still.position, by simp⟩
  unfold postfixExpr
  refine steps.bind fun first t same => ?_
  unfold incrementStep
  refine .unroll (Smooth.look.bind fun kind u ⟨still, seen⟩ => ?_)
  rw [seen, here same]
  exact .pure ⟨fun _ => still.position.trans same, by simp⟩

private theorem takes_of_isLiteral (literal : kind.isLiteral = true) : Course.all.takes kind = true := by
  cases kind <;> first | rfl | cases literal

private theorem primary_onCourse : OnCourse bounds .all (·.isSome) primary s := by
  unfold primary
  refine .look fun t still => ?_
  split
  · next literal =>
    refine .behind (.node fun u same => .consumeAny ?_) fun _ u => .pure
    rw [current_eq, same, still.position, ← current_eq]
    exact takes_of_isLiteral literal
  · split
    · exact .of_never (Steers.onCourse t)
    · split
      · next here => exact nameExpr_onCourse (by rw [still.current_eq, State.current, here])
      · exact .of_never (Steers.onCourse t)
      · exact .of_never (Steers.onCourse t)
      · exact .of_never (Steers.onCourse t)
      · exact .of_never (Steers.onCourse t)
      · exact .of_never (Steers.onCourse t)
      · exact .fails

private theorem attachedOperand_onCourse : OnCourse bounds .all (·.isSome) attachedOperand s := by
  unfold attachedOperand
  refine .behindLate primary_onCourse (fun found t => ?_) fun found t isSome opened => ?_
  · split
    · split <;> exact .of_never (Steers.onCourse t)
    · exact .pure
  · obtain ⟨operand, rfl⟩ := Option.isSome_iff_exists.mp isSome
    dsimp only
    split
    · exact .pure (.inl ⟨rfl, rfl⟩)
    · exact (smooth_postfixExpr opened).bind fun _ u same => .pure (.inl ⟨same, rfl⟩)

private theorem nestedUnary_onCourse : OnCourse bounds .all (fun _ => True) (discard (nested none (call .unary))) s :=
  .discard (.nested (routes.onCourse .unary trivial _)) fun _ _ => trivial

private theorem castExpr_onCourse : OnCourse bounds .all (fun _ => True) castExpr s := by
  unfold castExpr
  exact .node fun t _ => .andThen fun _ u => .andThen fun _ v => .andThen fun _ w => nestedUnary_onCourse

private theorem prefixExpr_onCourse (taken : Course.all.takes (s.current bounds.env) = true) :
    OnCourse bounds .all (fun _ => True) prefixExpr s := by
  unfold prefixExpr
  refine .node fun t same => .consumeAnyThen ?_ fun u => nestedUnary_onCourse
  rwa [current_eq, same, ← current_eq]

instance : Steers bounds .all parenExpr := by
  unfold parenExpr
  infer_instance

omit routes in
theorem OnCourse.found {late : Completed → Prop} {rule : Rule Completed} (inner : OnCourse bounds .all late rule s) :
    OnCourse bounds .all (·.isSome) (do return some (← rule)) s :=
  .thenIdle inner fun _ _ _ => .pure rfl

theorem parenOperand_onCourse : OnCourse bounds .all (·.isSome) parenOperand s := by
  unfold parenOperand
  refine .andThen fun kind t => ?_
  cases kind with simp only [operandOf]
  | lambda => exact .of_never (Steers.onCourse t)
  | cast => exact .found castExpr_onCourse
  | parenthesized => exact .of_never (Steers.onCourse t)

theorem unary_onCourse : OnCourse bounds .all (·.isSome) unary s := by
  unfold unary
  refine .look fun t still => ?_
  split
  iterate 6
    next here => exact .found (prefixExpr_onCourse (by rw [still.current_eq, State.current, here]))
  · exact routes.onCourse .parenOperand trivial t
  · exact attachedOperand_onCourse

end Operands

section Operators

instance : Steers bounds .all instanceofTarget := by
  unfold instanceofTarget
  infer_instance

omit routes in
private theorem smooth_missing {name close : Nat} {least : Power} (receiver : bounds.env.stream.Receiver name close)
    (here : s.position = close + 1) : Smooth bounds (call (.expression least)) s fun _ _ => False := by
  have follows {t : State} (same : t.position = s.position) : (t.cursor bounds.env).current = .dot ∨
      (t.cursor bounds.env).current = .leftBracket ∨ (t.cursor bounds.env).current = .colonColon := by
    rw [← State.current, current_eq, same, here]
    exact receiver.followed
  refine .call fun depth => ?_
  have missing {t : State} (same : t.position = s.position) : Smooth ⟨bounds.env, depth⟩ primary t fun _ _ => False := by
    unfold primary
    refine Smooth.look.bind fun kind u ⟨_, seen⟩ => ?_
    have follows := follows same
    rw [← seen] at follows
    rcases follows with rfl | rfl | rfl
    all_goals exact (Smooth.fails : Smooth _ (missingExpression >>= fun _ => Pure.pure none) u _)
  have operand : Smooth ⟨bounds.env, depth⟩ unary s.enter fun _ _ => False := by
    unfold unary
    refine Smooth.look.bind fun kind t ⟨still, seen⟩ => ?_
    have follows := follows (t := s.enter) rfl
    rw [← seen] at follows
    rcases follows with rfl | rfl | rfl
    all_goals exact (missing still.position).bind fun _ _ impossible => impossible.elim
  show Smooth _ (expression least) s _
  unfold expression
  exact .nested (operand.bind fun _ _ impossible => impossible.elim)

omit routes in
/-- An operator ends with the type arguments that it does not end within. -/
theorem operator_ends {op : Operator} {name close : Nat} (here : Operator.at? (s.cursor bounds.env) = some op)
    (receiver : bounds.env.stream.Receiver name close) (before : s.position ≤ close) (past : close < s.position + op.rawCount) :
    s.position + op.rawCount = close + 1 := by
  unfold Operator.at? at here
  split at here
  · next begins =>
    cases here
    refine Nat.le_antisymm (Nat.le_of_not_lt fun more => ?_) past
    have behind := Operator.angle_tokens begins (close + 1 - s.position) (by omega)
    rw [TokenCursor.nth_eq, show (s.cursor bounds.env).position = s.position from rfl, Nat.add_sub_cancel' (by omega)] at behind
    have follows := receiver.followed
    rcases behind with same | same <;> rw [show bounds.env.stream.kindAt (close + 1) = _ from same] at follows <;> simp at follows
  · obtain ⟨power, -, rfl⟩ := Option.map_eq_some_iff.mp here
    dsimp only at past ⊢
    omega

omit routes in
private theorem smooth_join {count : Nat} (more : s.position + count < bounds.env.stream.size) :
    Smooth bounds (join kind count) s fun _ t => t.position = s.position + count := fun _ t gives _ _ => by
  cases gives.act
  exact Nat.min_eq_left (Nat.le_sub_one_of_lt more)

theorem calledExpression {least : Power} : OnCourse bounds .all (fun _ => Power.relational < least) (call (.expression least)) s :=
  routes.onCourse (.expression least) trivial s

private theorem operation_onCourse {op : Operator} (here : Operator.at? (s.cursor bounds.env) = some op) :
    OnCourse bounds .all (fun _ => Power.relational ≤ op.power) (operation op) s := by
  unfold operation
  split
  · exact .of_never (Steers.onCourse s)
  · exact .of_never (Steers.onCourse s)
  · by_cases crosses : ∃ name close, bounds.env.stream.Receiver name close ∧ s.position ≤ close ∧ close < s.position + op.rawCount
    · -- The operator ends where type arguments do, and its right side is missing.
      obtain ⟨name, close, receiver, before, past⟩ := crosses
      have ends := operator_ends here receiver before past
      refine .impossible ((smooth_join (ends ▸ receiver.inside)).bind fun _ t moved => ?_)
      have missing {least : Power} : Smooth bounds (discard (call (.expression least))) t fun _ _ => False :=
        .bind (smooth_missing receiver (moved.trans ends)) fun _ _ impossible => impossible.elim
      split <;> exact missing.bind fun _ _ impossible => impossible.elim
    · refine .behind (.join ?_) fun _ t => ?_
      · intro name close receiver _ before
        exact Nat.le_of_not_lt fun past => crosses ⟨name, close, receiver, before, past⟩
      · split
        · exact .of_never (Steers.onCourse t)
        · exact .thenIdle (.discard calledExpression fun _ late => Nat.le_of_lt_succ late) fun _ _ late => .pure late

private theorem operatorStep_onCourse {least : Power} {left : Completed} : OnCourse bounds .all (·.isSome) (operatorStep least left) s := by
  unfold operatorStep
  refine .look fun t still => ?_
  dsimp only [id]
  split
  · next op here =>
    split
    · exact .pure
    · refine .found (.around fun u same => operation_onCourse ?_)
      rw [State.cursor, same, still.position, ← State.cursor, here]
  · exact .pure

/-- Where a `<` stands behind an operand, it is taken or left to an operator that binds less tightly. -/
theorem smooth_operators {least : Power} {left : Completed} (opened : bounds.env.stream.kindAt s.position = .lt) :
    Smooth bounds (loopFrom left (operatorStep least)) s fun _ t => t.position = s.position ∧ Power.relational < least ∨
      Course.all.Leads bounds.env.stream (s.position + 1) t.position := by
  have here : Operator.at? (s.cursor bounds.env) = some ⟨.lt, 1, Power.relational⟩ := by
    have current : (s.cursor bounds.env).current = .lt := by rw [← State.current, current_eq, opened]
    rw [Operator.at?, if_neg (by rw [current]; decide), current]
    rfl
  have size : s.position + 1 < bounds.env.stream.size := (s.cursor bounds.env).position_lt_of_current (by
    rw [← State.current, current_eq, opened]
    decide)
  have compared {t : State} (same : t.position = s.position) : Smooth bounds (operation ⟨.lt, 1, Power.relational⟩) t fun _ u =>
      Course.all.Leads bounds.env.stream (s.position + 1) u.position := by
    refine (smooth_join (same ▸ size)).bind fun _ u moved => ?_
    rw [← same, ← moved]
    exact (calledExpression.leads.discard).bind fun _ v leads => .pure leads
  have step : Smooth bounds (operatorStep least left) s fun next t =>
      (next = none → t.position = s.position ∧ Power.relational < least) ∧
        (next.isSome → Course.all.Leads bounds.env.stream (s.position + 1) t.position) := by
    unfold operatorStep
    refine Smooth.look.bind fun cursor t looked => ?_
    obtain ⟨still, seen⟩ := looked
    rw [show cursor = s.cursor bounds.env from seen, here]
    dsimp only
    split
    · next loose => exact .pure ⟨fun _ => ⟨still.position, loose⟩, by simp⟩
    · have leads : Smooth bounds (around left (operation ⟨.lt, 1, Power.relational⟩)) t fun _ u =>
          Course.all.Leads bounds.env.stream (s.position + 1) u.position := by
        unfold around
        exact .idleThen fun mark u same => .thenIdle (compared (same.trans still.position))
      exact leads.bind fun first u leads => .pure ⟨by simp, fun _ => leads⟩
  refine .unroll (step.weaken fun next t both => ⟨fun none => .inl (both.1 none), ?_⟩)
  obtain ⟨-, goes⟩ := both
  rintro left rfl
  refine (Smooth.leadsFrom (fun left u => operatorStep_onCourse.leads) left t).weaken fun _ u later => .inr ?_
  exact (goes rfl).trans later

theorem expression_onCourse {least : Power} : OnCourse bounds .all (fun _ => Power.relational < least) (expression least) s := by
  unfold expression
  refine .nested (.behindLate unary_onCourse (fun found t => ?_) fun found t isSome opened => ?_)
  · cases found with
    | none => exact .pure
    | some operand =>
      have operators : OnCourse bounds .all (fun _ => Power.relational < least) (loopFrom operand (operatorStep least)) t := by
        refine .loopFromLate (fun left u => operatorStep_onCourse) (fun next u isSome opened => ?_) operand t
        obtain ⟨left, rfl⟩ := Option.isSome_iff_exists.mp isSome
        exact ⟨left, rfl, smooth_operators opened⟩
      exact .thenIdle operators fun _ _ late => .pure late
  · obtain ⟨operand, rfl⟩ := Option.isSome_iff_exists.mp isSome
    exact (smooth_operators opened).bind fun _ u ends => .pure ends

end Operators

end LosslessJava.Grammar
