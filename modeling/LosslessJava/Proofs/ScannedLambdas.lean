import LosslessJava.Proofs.Entry
import LosslessJava.Proofs.ScannedTypes

/-! What a scan takes for the parameters of a lambda, the grammar reads as such, but for two forms that only
the scan knows: dimensions behind the name of a parameter, and a parameter `sealed non`, of which the grammar
takes the type for a modifier. -/

namespace LosslessJava

open LosslessJava.Parser

namespace TokenStream

/-- `final` stands any number of times between two indices, and not behind them. -/
inductive Finals (stream : TokenStream) : Nat → Nat → Prop where
  | stop {i : Nat} (away : stream.kindAt i ≠ .finalKw) : stream.Finals i i
  | more {i j : Nat} (here : stream.kindAt i = .finalKw) (rest : stream.Finals (i + 1) j) : stream.Finals i j

/-- A parameter with a type. -/
inductive Param (stream : TokenStream) (i j : Nat) : Prop where
  | mk {part : TypePart .type} {start stop name dimensions : Nat} (finals : stream.Finals i start)
      (type : stream.Spans part start stop)
      (ellipsis : name = if stream.kindAt stop = .ellipsis then stop + 1 else stop)
      (named : stream.kindAt name = .identifier) (dims : stream.Dims dimensions (name + 1) j)

/-- Parameters with types, up to the `)` behind them. -/
inductive TypedParams (stream : TokenStream) : Nat → Nat → Prop where
  | last {i j : Nat} (param : stream.Param i j) (closer : stream.kindAt j = .rightParen) : stream.TypedParams i j
  | more {i j k : Nat} (param : stream.Param i j) (comma : stream.kindAt j = .comma)
      (rest : stream.TypedParams (j + 1) k) : stream.TypedParams i k

/-- Names, up to the `)` behind them. -/
inductive BareParams (stream : TokenStream) : Nat → Nat → Prop where
  | last {i : Nat} (name : stream.kindAt i = .identifier) (closer : stream.kindAt (i + 1) = .rightParen) :
      stream.BareParams i (i + 1)
  | more {i j : Nat} (name : stream.kindAt i = .identifier) (comma : stream.kindAt (i + 1) = .comma)
      (rest : stream.BareParams (i + 2) j) : stream.BareParams i j

/-- The parameters of a lambda, up to the `)` behind them. -/
inductive LambdaParams (stream : TokenStream) : Nat → Nat → Prop where
  | none {i : Nat} (closer : stream.kindAt i = .rightParen) : stream.LambdaParams i i
  | bare {i j : Nat} (params : stream.BareParams i j) : stream.LambdaParams i j
  | typed {i j : Nat} (params : stream.TypedParams i j) : stream.LambdaParams i j

variable {stream : TokenStream} {i j : Nat}

theorem Finals.le (finals : stream.Finals i j) : i ≤ j := by
  induction finals with
  | stop => exact Nat.le_refl _
  | more _ _ ih => omega

theorem Param.lt (param : stream.Param i j) : i < j := by
  obtain ⟨finals, type, ellipsis, -, dims⟩ := param
  have one := finals.le
  have two := type.lt
  have three := dims.le
  split at ellipsis <;> omega

private theorem TypedParams.le (params : stream.TypedParams i j) : i ≤ j := by
  induction params with
  | last param => exact Nat.le_of_lt param.lt
  | more param _ _ ih =>
    have moved := param.lt
    omega

end TokenStream

namespace Parser.Lookahead

variable {view : View} {n m steps : Nat}

private theorem finals_of_accepts (plain : view.cursor.stream.Unannotated)
    (accepts : Accepts view (modifiersFrom (nthIs · .finalKw) steps n) m) :
    view.cursor.stream.Finals (view.cursor.position + n) (view.cursor.position + m) := by
  induction steps generalizing n with
  | zero => exact absurd accepts clear_outOfSteps
  | succ steps ih =>
    unfold modifiersFrom at accepts
    obtain ⟨b, annotated, tested⟩ := accepts_bind.mp accepts
    obtain rfl : b = n := annotations_of_accepts plain annotated
    rcases accepts_test.mp tested with ⟨found, rest⟩ | ⟨found, rest⟩
    · have here := (clear_nthIs.mp found).2
      rw [TokenCursor.nth_eq, beq_iff_eq] at here
      exact .more here (ih rest)
    · obtain rfl := accepts_pure.mp rest
      have away := (clear_nthIs.mp found).2
      rw [TokenCursor.nth_eq, beq_eq_false_iff_ne] at away
      exact .stop away

theorem steady_bareParams (name next : Kind) : SteadyScan (match name, next with
    | .identifier, .comma => bareParams steps (n + 2)
    | .identifier, .rightParen => Pure.pure (n + 1)
    | _, _ => failure) := by
  split <;> infer_instance

private theorem bareParams_of_accepts (accepts : Accepts view (bareParams steps n) m) :
    view.cursor.stream.BareParams (view.cursor.position + n) (view.cursor.position + m) := by
  induction steps generalizing n with
  | zero => exact absurd accepts clear_outOfSteps
  | succ steps ih =>
    have behind := @steady_bareParams n steps
    unfold bareParams at accepts
    obtain ⟨name, here, rest⟩ := accepts_bind.mp accepts
    obtain ⟨next, there, rest⟩ := accepts_bind.mp rest
    have here := (clear_nth.mp (accepts_lift.mp here)).2
    have there := (clear_nth.mp (accepts_lift.mp there)).2
    rw [TokenCursor.nth_eq] at here there
    split at rest
    · exact .more here there (ih rest)
    · obtain rfl := accepts_pure.mp rest
      exact .last here there
    · exact absurd rest accepts_failure

theorem steady_paramEnd : SteadyScan (do
    match ← nth n with
    | .comma => typedParams steps (n + 1)
    | .rightParen => return n
    | _ => failure) := by
  refine .andThen inferInstance fun kind => ?_
  split <;> infer_instance

theorem paramEnd_of_accepts (accepts : Accepts view (do
      match ← nth n with
      | .comma => typedParams steps (n + 1)
      | .rightParen => return n
      | _ => failure) m) :
    view.cursor.stream.kindAt (view.cursor.position + n) = .comma ∧ Accepts view (typedParams steps (n + 1)) m ∨
      view.cursor.stream.kindAt (view.cursor.position + n) = .rightParen ∧ m = n := by
  have goes (kind : Kind) : SteadyScan (match kind with
      | .comma => typedParams steps (n + 1)
      | .rightParen => Pure.pure n
      | _ => failure) := by
    split <;> infer_instance
  obtain ⟨kind, there, rest⟩ := accepts_bind.mp accepts
  have there := (clear_nth.mp (accepts_lift.mp there)).2
  rw [TokenCursor.nth_eq] at there
  split at rest
  · exact .inl ⟨there, rest⟩
  · exact .inr ⟨there, (accepts_pure.mp rest).symm⟩
  · exact absurd rest accepts_failure

private theorem typedParams_of_accepts (plain : view.cursor.stream.Unannotated) (accepts : Accepts view (typedParams steps n) m) :
    view.cursor.stream.TypedParams (view.cursor.position + n) (view.cursor.position + m) := by
  induction steps generalizing n with
  | zero => exact absurd accepts clear_outOfSteps
  | succ steps ih =>
    have behind (n : Nat) := @steady_paramEnd n steps
    unfold typedParams at accepts
    obtain ⟨start, modified, typed⟩ := accepts_bind.mp accepts
    obtain ⟨stop, accepted, rest⟩ := accepts_bind.mp typed
    obtain ⟨b, annotated, named⟩ := accepts_bind.mp rest
    obtain rfl : b = stop := annotations_of_accepts plain annotated
    obtain ⟨variadic, found, rest⟩ := accepts_bind.mp named
    have variadic_eq := (clear_nthIs.mp (accepts_lift.mp found)).2
    rw [TokenCursor.nth_eq] at variadic_eq
    rcases accepts_test.mp rest with ⟨found, rest⟩ | ⟨-, rest⟩
    · have named := (clear_nthIs.mp found).2
      rw [TokenCursor.nth_eq, beq_iff_eq] at named
      obtain ⟨stop, dims, rest⟩ := accepts_bind.mp rest
      have param : view.cursor.stream.Param (view.cursor.position + n) (view.cursor.position + stop) := by
        obtain ⟨steps, -, modified⟩ := accepts_bind.mp modified
        obtain ⟨part, type⟩ := type_of_accepts plain accepted
        obtain ⟨count, dims⟩ := dims_of_accepts dims
        refine .mk (finals_of_accepts plain modified) type ?_ named dims
        subst variadic_eq
        simp only [beq_iff_eq]
        split <;> rfl
      rcases paramEnd_of_accepts rest with ⟨comma, rest⟩ | ⟨closer, rfl⟩
      · exact .more param comma (ih rest)
      · exact .last param closer
    · exact absurd rest accepts_failure

/-- What a scan for the parameters of a lambda accepts are such parameters. -/
theorem lambdaParams_of_accepts (plain : view.cursor.stream.Unannotated) (accepts : Accepts view (lambdaParams n) m) :
    view.cursor.stream.LambdaParams (view.cursor.position + n) (view.cursor.position + m) := by
  have typed (accepts : Accepts view (do typedParams (← stepLimit) n) m) :
      view.cursor.stream.LambdaParams (view.cursor.position + n) (view.cursor.position + m) := by
    obtain ⟨steps, -, accepts⟩ := accepts_bind.mp accepts
    exact .typed (typedParams_of_accepts plain accepts)
  obtain ⟨kind, here, accepts⟩ := accepts_bind.mp accepts
  have here := (clear_nth.mp (accepts_lift.mp here)).2
  rw [TokenCursor.nth_eq] at here
  split at accepts
  · next closer =>
    obtain rfl := accepts_pure.mp accepts
    exact .none (here.trans closer)
  · split at accepts
    · obtain ⟨next, -, accepts⟩ := accepts_bind.mp accepts
      split at accepts
      · obtain ⟨steps, -, accepts⟩ := accepts_bind.mp accepts
        exact .bare (bareParams_of_accepts accepts)
      · exact typed accepts
    · exact typed accepts

/-- Where the look at a `(` tells a lambda, its parameters were scanned and the arrow seen behind them. -/
theorem lambda_of_clear {noLambda : Bool} (decided : Clear view (parenKind noLambda) .lambda) :
    ∃ close, Accepts view (lambdaParams 1) close ∧
      view.cursor.stream.kindAt (view.cursor.position + (close + 1)) = .arrow := by
  unfold parenKind at decided
  rcases clear_test.mp decided with ⟨found, -⟩ | ⟨-, rest⟩
  · rcases clear_both.mp found with ⟨-, lambda⟩ | ⟨-, impossible⟩
    · unfold succeeds at lambda
      obtain ⟨answer, scanned, same⟩ := clear_bind.mp lambda
      have same := clear_pure.mp same
      cases answer with
      | none => cases same
      | some answer =>
        obtain rfl : answer = true := same
        obtain ⟨close, accepts, arrow⟩ := accepts_bind.mp scanned
        have arrow := (clear_nthIs.mp (accepts_lift.mp arrow)).2
        rw [TokenCursor.nth_eq, beq_iff_eq] at arrow
        exact ⟨close, accepts, arrow⟩
    · cases impossible
  · rcases clear_test.mp rest with ⟨-, same⟩ | ⟨-, same⟩ <;> cases clear_pure.mp same

end Parser.Lookahead

namespace TokenStream

variable {stream : TokenStream} {i j start stop : Nat}

/-- Parameters between two indices have no dimensions behind their names: outside of type arguments, no bracket is
closed in front of a comma or a `)`. -/
def BareNames (stream : TokenStream) (first stop : Nat) : Prop :=
  ∀ index, first ≤ index → index < stop → stream.opened first index = 0 → stream.kindAt index = .rightBracket →
    stream.kindAt (index + 1) ≠ .comma ∧ stream.kindAt (index + 1) ≠ .rightParen

/-- Between two indices, the grammar takes no type for the modifier `sealed`. -/
def Unsealed (stream : TokenStream) (first stop : Nat) : Prop :=
  ∀ index, first < index → index < stop → stream.kindAt (index - 1) ≠ .dot →
    Grammar.isSealed ⟨stream, index⟩ = false

private theorem Dims.last {count : Nat} (dims : stream.Dims count i j) : i = j ∨ i + 2 ≤ j ∧ stream.kindAt (j - 1) = .rightBracket := by
  induction dims with
  | stop => exact .inl rfl
  | @more count i j opener closer rest ih =>
    refine .inr ?_
    rcases ih with rfl | ⟨later, there⟩
    · exact ⟨Nat.le_refl _, closer⟩
    · exact ⟨by omega, there⟩

theorem Finals.opened (finals : stream.Finals i j) : stream.opened i j = 0 := by
  induction finals with
  | stop => exact opened_self
  | more here rest ih => rw [opened_behind here (by decide) rest.le, ih]

private theorem LambdaParams.closer (params : stream.LambdaParams i j) : stream.kindAt j = .rightParen := by
  cases params with
  | none closer => exact closer
  | bare params =>
    induction params with
    | last _ closer => exact closer
    | more _ _ _ ih => exact ih
  | typed params =>
    induction params with
    | last _ closer => exact closer
    | more _ _ _ ih => exact ih

private theorem Finals.before (finals : stream.Finals i j) : j = i ∨ stream.kindAt (j - 1) = .finalKw := by
  induction finals with
  | stop => exact .inl rfl
  | @more i j here rest ih =>
    rcases ih with rfl | before
    · exact .inr here
    · exact .inr before

theorem Param.opened (param : stream.Param i j) : stream.opened i j = 0 := by
  obtain @⟨part, start, stop, name, count, finals, type, ellipsis, named, dims⟩ := param
  have one := finals.le
  have two := type.le
  have three := dims.le
  have closed : stream.opened stop j = 0 := by
    have rest : stream.opened name j = 0 := by rw [opened_behind named (by decide) three, dims.opened]
    split at ellipsis
    · next variadic => rw [opened_behind variadic (by decide) (by omega), ← ellipsis, rest]
    · rw [← ellipsis, rest]
  have later : stop ≤ j := by split at ellipsis <;> omega
  rw [← opened_trans one (show start ≤ j by omega), ← opened_trans two later, finals.opened, type.opened, closed]
  rfl

private theorem Spans.behind_first {part : TypePart .type} (type : stream.Spans part start stop) : stop = start + 1 ∨ stream.kindAt (start + 1) = .lt ∨
    stream.kindAt (start + 1) = .dot ∨ stream.kindAt (start + 1) = .leftBracket := by
  cases type with
  | primitive _ dims =>
    cases dims with
    | stop => exact .inl rfl
    | more opener => exact .inr (.inr (.inr opener))
  | named _ rest dims =>
    cases rest with
    | diamond opener | generic opener => exact .inr (.inl opener)
    | bare away rest =>
      cases rest with
      | next dot => exact .inr (.inr (.inl dot))
      | stop =>
        cases dims with
        | stop => exact .inl rfl
        | more opener => exact .inr (.inr (.inr opener))

private theorem Spans.next_of_param {part : TypePart .type} {name : Nat} (type : stream.Spans part start stop)
    (ellipsis : name = if stream.kindAt stop = .ellipsis then stop + 1 else stop)
    (named : stream.kindAt name = .identifier) :
    stream.kindAt (start + 1) ∈ [Kind.lt, .dot, .leftBracket, .ellipsis, .identifier] := by
  rcases type.behind_first with rfl | next | next | next
  · split at ellipsis
    · next variadic => simp [variadic]
    · subst ellipsis
      simp [named]
  all_goals simp [next]

end TokenStream

namespace Grammar

open TokenStream (opened_trans opened_plain opened_behind)

variable {env : Env} {level : Level} {first i j start stop : Nat}

private theorem modifier_final (plain : env.stream.Unannotated) (here : env.stream.kindAt i = .finalKw) :
    Follows env level i modifier fun more _ k => more = true ∧ k = i + 1 := by
  refine (seesAnnotation_follows (plain _)).bind fun found row k ⟨no, empty, still⟩ => ?_
  subst no empty still
  refine .look ?_
  have among : First.modifier.contains (id (⟨env.stream, k⟩ : TokenCursor)).current = true := by
    rw [id, TokenCursor.current, TokenCursor.nth_eq, Nat.add_zero, here]
    decide +kernel
  rw [if_pos among]
  have taken : Follows env level k consumeAny fun _ _ l => l = k + 1 := .consumeAny here (by decide) rfl
  exact taken.bind fun _ _ l moved => .pure ⟨rfl, moved⟩

structure Unmodified (stream : TokenStream) (i : Nat) : Prop where
  plain : First.modifier.contains (stream.kindAt i) = false
  unsealed : isSealed ⟨stream, i⟩ = false
  apart : stream.kindAt (i + 1) ≠ .minus

private theorem modifier_none (plain : env.stream.Unannotated) (none : Unmodified env.stream i) :
    Follows env level i modifier fun more _ k => more = false ∧ k = i := by
  refine (seesAnnotation_follows (plain _)).bind fun found row k ⟨no, empty, still⟩ => ?_
  subst no empty still
  refine .look ?_
  have among : ¬ First.modifier.contains (id (⟨env.stream, k⟩ : TokenCursor)).current = true := by
    rw [id, TokenCursor.current, TokenCursor.nth_eq, Nat.add_zero, none.plain]
    decide
  have apart : isNonSealed ⟨env.stream, k⟩ = false := by
    simp [isNonSealed, TokenCursor.nth_eq, none.apart]
  rw [if_neg among, id, none.unsealed, apart, if_neg (by decide), if_neg (by decide)]
  exact .pure ⟨rfl, rfl⟩

private theorem finals_follow (plain : env.stream.Unannotated) (finals : env.stream.Finals i j) (none : Unmodified env.stream j)
    (found : Bool) : Follows env level i (loopFrom found fun _ => stepTo true modifier) fun _ _ k => k = j := by
  induction finals generalizing found with
  | stop =>
    exact .loopFrom <| (modifier_none plain none).weaken fun more _ _ ⟨no, still⟩ => by
      subst no
      exact still
  | more here _ ih =>
    exact .loopFrom <| (modifier_final plain here).weaken fun more _ _ ⟨yes, moved⟩ => by
      subst yes moved
      exact ih none true

private theorem modifiers_follow (plain : env.stream.Unannotated) (finals : env.stream.Finals i j) (none : Unmodified env.stream j) :
    Follows env level i (Functor.discard modifiers) fun _ _ k => k = j := fun s here deep => by
  refine .discard <| .bind (.nodeIf (P := fun _ k => k = j) (Q := fun _ k => k = j) ?_) fun found _ t wrote there => ?_
  · refine .bind (finals_follow plain finals none false s.start here deep.start) fun any _ t wrote there => .pure wrote ?_
    cases any with
    | false => exact there
    | true => exact ⟨by decide, there⟩
  · refine .pure wrote ?_
    cases found with
    | none => exact there
    | some => exact there.2

private theorem plain_of_type {part : TypePart .type} (type : env.stream.Spans part start stop) :
    First.modifier.contains (env.stream.kindAt start) = false := by
  cases type with
  | @primitive kind proper _ _ _ here =>
    rw [here]
    cases kind <;> first | decide +kernel | cases proper
  | named here => rw [here]; decide +kernel

private theorem typed_param_follows {part : TypePart .type} {name : Nat} (plain : env.stream.Unannotated)
    (finals : env.stream.Finals i start) (type : env.stream.Spans part start stop)
    (ellipsis : name = if env.stream.kindAt stop = .ellipsis then stop + 1 else stop)
    (named : env.stream.kindAt name = .identifier) (unsealed : isSealed ⟨env.stream, start⟩ = false)
    (room : Roomy env level.depth start stop) :
    Follows env level i lambdaElement fun found _ k => found = true ∧ k = name + 1 := by
  have next := type.next_of_param ellipsis named
  have none : Unmodified env.stream start :=
    ⟨plain_of_type type, unsealed, fun minus => by rw [minus] at next; revert next; decide⟩
  have typed : ¬ ((⟨env.stream, i⟩ : TokenCursor).nth 0 == .identifier &&
      ((⟨env.stream, i⟩ : TokenCursor).nth 1 == .comma || (⟨env.stream, i⟩ : TokenCursor).nth 1 == .rightParen)) = true := by
    simp only [TokenCursor.nth_eq, Nat.add_zero, Bool.and_eq_true, Bool.or_eq_true, beq_iff_eq]
    rintro ⟨here, behind⟩
    cases finals with
    | more final =>
      rw [here] at final
      cases final
    | stop => rcases behind with behind | behind <;> (rw [behind] at next; revert next; decide)
  have taken : Follows env level stop (Functor.discard (accept .ellipsis)) fun _ _ k => k = name := by
    split at ellipsis
    · next variadic =>
      have taken : Follows env level stop (accept .ellipsis) fun _ _ k => k = name := .accept variadic (by decide) ellipsis.symm
      exact taken.discard
    · next away =>
      have refused : Follows env level stop (accept .ellipsis) fun _ _ k => k = name := .refuse away ellipsis.symm
      exact refused.discard
  have inner : Follows env level i lambdaParam fun _ _ k => k = name + 1 := by
    refine .node (by decide) <| .look <| .look ?_
    rw [if_neg typed]
    refine (modifiers_follow plain finals none).bind fun _ _ k same => ?_
    subst same
    refine (type_follows (agrees_of_spans type room)).bind fun _ _ k ⟨_, same⟩ => ?_
    subst same
    refine taken.bind fun _ _ k same => ?_
    subst same
    exact .require named (by decide) rfl
  exact inner.bind fun _ _ _ moved => .pure ⟨rfl, moved⟩

private theorem bare_param_follows (here : env.stream.kindAt i = .identifier)
    (behind : env.stream.kindAt (i + 1) = .comma ∨ env.stream.kindAt (i + 1) = .rightParen) :
    Follows env level i lambdaElement fun found _ k => found = true ∧ k = i + 1 := by
  have bare : ((⟨env.stream, i⟩ : TokenCursor).nth 0 == .identifier &&
      ((⟨env.stream, i⟩ : TokenCursor).nth 1 == .comma || (⟨env.stream, i⟩ : TokenCursor).nth 1 == .rightParen)) = true := by
    simpa only [TokenCursor.nth_eq, Nat.add_zero, here, beq_self_eq_true, Bool.true_and, Bool.or_eq_true, beq_iff_eq] using behind
  have inner : Follows env level i lambdaParam fun _ _ k => k = i + 1 := by
    refine .node (by decide) <| .look <| .look ?_
    rw [if_pos bare]
    exact .consume here (by decide) rfl
  exact inner.bind fun _ _ _ moved => .pure ⟨rfl, moved⟩

abbrev lambdaParamRound : Rule Bool := delimitedRound .rightParen .comma "lambda parameter" First.type lambdaElement

private theorem params_last (starts : Starts .rightParen .comma (env.stream.kindAt i))
    (param : Follows env level i lambdaElement fun found _ k => found = true ∧ k = j)
    (closer : env.stream.kindAt j = .rightParen) : Follows env level i (loop lambdaParamRound) fun _ _ k => k = j := by
  have round : Follows env level i lambdaParamRound fun more _ k => more = false ∧ k = j :=
    delimitedRound_last starts (by rw [closer]; decide) (by rw [closer]; decide +kernel) <|
      param.weaken fun _ _ _ ⟨yes, there⟩ => ⟨yes, there, rfl, rfl⟩
  exact .loopEnd round

private theorem params_more {k : Nat} (starts : Starts .rightParen .comma (env.stream.kindAt i))
    (param : Follows env level i lambdaElement fun found _ k => found = true ∧ k = j)
    (comma : env.stream.kindAt j = .comma) (rest : Follows env level (j + 1) (loop lambdaParamRound) fun _ _ l => l = k) :
    Follows env level i (loop lambdaParamRound) fun _ _ l => l = k := by
  have round : Follows env level i lambdaParamRound fun more _ l => more = true ∧ l = j + 1 :=
    delimitedRound_more starts (by decide) comma <| param.weaken fun _ _ _ ⟨yes, there⟩ => ⟨yes, there, rfl, rfl⟩
  exact .loopOn round fun _ l same => by
    subst same
    exact rest

private theorem bareParams_follow (params : env.stream.BareParams i j) :
    Follows env level i (loop lambdaParamRound) fun _ _ k => k = j := by
  induction params with
  | last name closer =>
    exact params_last (by rw [name]; constructor <;> decide) (bare_param_follows name (.inr closer)) closer
  | more name comma _ ih =>
    exact params_more (by rw [name]; constructor <;> decide) (bare_param_follows name (.inl comma)) comma ih

private theorem starts_of_param (param : env.stream.Param i j) : Starts .rightParen .comma (env.stream.kindAt i) := by
  obtain ⟨finals, type, -, -, -⟩ := param
  cases finals with
  | more here => rw [here]; constructor <;> decide
  | stop =>
    cases type with
    | @primitive kind proper _ _ _ here =>
      rw [here]
      constructor <;> (rintro rfl; cases proper)
    | named here => rw [here]; constructor <;> decide

/-- A parameter in a list whose parameters have no dimensions behind their names. -/
theorem param_follows (plain : env.stream.Unannotated) (param : env.stream.Param i j) (later : first < i) (inside : j ≤ stop)
    (closed : env.stream.opened first i = 0) (behind : env.stream.kindAt (i - 1) ≠ .dot)
    (ends : env.stream.kindAt j = .comma ∨ env.stream.kindAt j = .rightParen)
    (bare : ∀ index, first ≤ index → index < stop → env.stream.opened first index = 0 →
      env.stream.kindAt index = .rightBracket → env.stream.kindAt (index + 1) ≠ .comma ∧ env.stream.kindAt (index + 1) ≠ .rightParen)
    (unsealed : env.stream.Unsealed first stop) (room : Roomy env level.depth first stop) :
    Follows env level i lambdaElement fun found _ k => found = true ∧ k = j := by
  have whole := param.opened
  obtain @⟨part, start, variadic, name, count, finals, type, ellipsis, named, dims⟩ := param
  have one := finals.le
  have two := type.lt
  have three := dims.le
  have four : variadic ≤ name := by split at ellipsis <;> omega
  have before : env.stream.kindAt (start - 1) ≠ .dot := by
    rcases finals.before with rfl | final
    · exact behind
    · rw [final]
      decide
  have single : name + 1 = j := by
    rcases dims.last with same | ⟨moved, bracket⟩
    · exact same
    · have last : env.stream.opened (j - 1) (j - 1 + 1) = 0 := opened_plain bracket (by decide)
      have split : env.stream.opened i (j - 1) + env.stream.opened (j - 1) (j - 1).succ =
          env.stream.opened i (j - 1).succ := opened_trans (by omega) (Nat.le_succ _)
      have front : env.stream.opened first i + env.stream.opened i (j - 1) = env.stream.opened first (j - 1) :=
        opened_trans (by omega) (by omega)
      have back : j - 1 + 1 = j := by omega
      rw [Nat.succ_eq_add_one, last, back, whole] at split
      have away := bare (j - 1) (by omega) (by omega) (by omega) bracket
      rw [back] at away
      rcases ends with ends | ends
      · exact absurd ends away.1
      · exact absurd ends away.2
  rw [← single]
  refine typed_param_follows plain finals type ellipsis named (unsealed start (by omega) (by omega) before) <|
    room.part (by omega) (by omega) ?_
  rw [← opened_trans (show first ≤ i by omega) one, closed, finals.opened]
  omega

private theorem typedParams_follow (plain : env.stream.Unannotated) (params : env.stream.TypedParams i j) (later : first < i)
    (closed : env.stream.opened first i = 0) (behind : env.stream.kindAt (i - 1) ≠ .dot)
    (bare : env.stream.BareNames first j) (unsealed : env.stream.Unsealed first j) (room : Roomy env level.depth first j) :
    Follows env level i (loop lambdaParamRound) fun _ _ k => k = j := by
  induction params with
  | last param closer =>
    exact params_last (starts_of_param param)
      (param_follows plain param later (Nat.le_refl _) closed behind (.inr closer) bare unsealed room) closer
  | @more i j k param comma rest ih =>
    have moved := param.lt
    have others := rest.le
    have next : env.stream.opened first (j + 1) = 0 := by
      rw [← opened_trans (show first ≤ i by omega) (show i ≤ j + 1 by omega), ← opened_trans (show i ≤ j by omega) (Nat.le_succ j),
        closed, param.opened, opened_plain comma (by decide)]
      rfl
    exact params_more (starts_of_param param)
      (param_follows plain param later (by omega) closed behind (.inl comma) bare unsealed room) comma
      (ih (by omega) next (by rw [Nat.add_sub_cancel, comma]; decide) bare unsealed room)

private theorem lambdaParamList_follows (plain : env.stream.Unannotated) (here : env.stream.kindAt i = .leftParen)
    (params : env.stream.LambdaParams (i + 1) j) (bare : env.stream.BareNames i j) (unsealed : env.stream.Unsealed i j)
    (room : Roomy env level.depth i j) : Follows env level i (call .lambdaParamList) fun _ _ k => k = j + 1 := by
  have elements : Follows env level (i + 1) (loop lambdaParamRound) fun _ _ k => k = j := by
    cases params with
    | none closer => exact .loopEnd (delimitedRound_closed closer)
    | bare params => exact bareParams_follow params
    | typed params =>
      exact typedParams_follow plain params (Nat.lt_succ_self i) (opened_plain here (by decide))
        (by rw [Nat.add_sub_cancel, here]; decide) bare unsealed room
  have body : Follows env level i lambdaParamList fun _ _ k => k = j + 1 :=
    .node (by decide) <| delimited_follows here params.closer (by decide) <| elements.weaken fun _ _ _ same => ⟨same, rfl⟩
  exact Follows.call (show Follows env level i (rule _ .lambdaParamList) _ from body)

/-- Where a lambda was made out behind a `(`, its parameters are read up to the `)` that the scan found, without an error,
and the arrow stands behind it: unless a parameter has dimensions behind its name, or is called `non` and of a type
`sealed`. -/
theorem lambda_params_read_as_scanned {s : State} (plain : env.stream.Unannotated) (here : s.current env = .leftParen)
    (decided : (Lookahead.parenKind s.noLambda).decide (s.cursor env) env.options.lookaheadLimit = some (.lambda, false)) :
    ∃ close, (Lookahead.lambdaParams 1).run.decide (s.cursor env) env.options.lookaheadLimit = some (some close, false) ∧
      (env.stream.BareNames s.position (s.position + close) → env.stream.Unsealed s.position (s.position + close) →
        Roomy env s.depth s.position (s.position + close) →
        ∃ t, (call .lambdaParamList).exec env Grammar.rule s = some (.ok ((), t)) ∧ t.position = s.position + close + 1 ∧
          t.current env = .arrow ∧ t.diagnostics = s.diagnostics ∧ t.errorCount = s.errorCount) := by
  have clear : Lookahead.Clear ⟨s.cursor env, env.options.lookaheadLimit⟩ (Lookahead.parenKind s.noLambda) .lambda := decided
  obtain ⟨close, scanned, arrow⟩ := Lookahead.lambda_of_clear clear
  refine ⟨close, scanned, fun bare unsealed room => ?_⟩
  have params := Lookahead.lambdaParams_of_accepts plain scanned
  have opener : env.stream.kindAt s.position = .leftParen := (Follows.current_eq rfl).symm.trans here
  obtain ⟨_, t, ran, row, wrote, there⟩ := lambdaParamList_follows plain opener params bare unsealed room s rfl (Level.any s)
  exact ⟨t, ran, there, (Follows.current_eq there).trans arrow, wrote.diagnostics, wrote.errorCount⟩

theorem lambda_params_read_as_scanned_typed :
    let env : Env := ⟨.lex "(final int[] a, b<c[],?>... d) -> e", {}⟩
    ∃ t, (call .lambdaParamList : Rule Unit).exec env Grammar.rule {} = some (.ok ((), t)) ∧ t.position = 18 ∧
      t.current env = .arrow ∧ t.diagnostics = #[] ∧ t.errorCount = 0 := by
  intro env
  have plain : env.stream.Unannotated := TokenStream.unannotated_of_all (by decide +kernel)
  have here : State.current env {} = .leftParen := by decide +kernel
  obtain ⟨close, scanned, reads⟩ := lambda_params_read_as_scanned plain here (by decide +kernel)
  have found : (Lookahead.lambdaParams 1).run.decide (State.cursor env {}) env.options.lookaheadLimit = some (some 17, false) := by
    decide +kernel
  obtain rfl : close = 17 := by simpa using scanned.symm.trans found
  have bare : ∀ index < 17, env.stream.opened 0 index = 0 → env.stream.kindAt index = .rightBracket →
      env.stream.kindAt (index + 1) ≠ .comma ∧ env.stream.kindAt (index + 1) ≠ .rightParen := by decide +kernel
  have unsealed : ∀ index < 17, isSealed ⟨env.stream, index⟩ = false := by decide +kernel
  exact reads (fun index _ inside => bare index (by simpa using inside))
    (fun index _ inside _ => unsealed index (by simpa using inside)) (roomy_of_few (by decide))

def reportsWithin (fuel : Nat) (env : Env) (rule : Rule Unit) : Bool :=
  (rule.execWithin env Grammar.rule fuel {}).any fun
    | .ok (_, t) => !t.diagnostics.isEmpty
    | .error _ => false

private theorem exec_of_reportsWithin {fuel : Nat} {rule : Rule Unit} (reports : reportsWithin fuel env rule = true) :
    ∃ t, rule.exec env Grammar.rule {} = some (.ok ((), t)) ∧ t.diagnostics ≠ #[] := by
  obtain ⟨given, ran, told⟩ := (Option.any_eq_true _ _).mp reports
  rcases given with halt | ⟨⟨⟩, t⟩
  · cases told
  · exact ⟨t, Program.exec_of_execWithin ran, by simpa using told⟩

/-- At the beginning of a text without annotations, a lambda is scanned and its parameters are not read without
an error. -/
def Misread (text : String) : Prop :=
  (TokenStream.lex text).Unannotated ∧ (Lookahead.parenKind false).decide ⟨.lex text, 0⟩ 1024 = some (.lambda, false) ∧
    ∃ t, (call .lambdaParamList : Rule Unit).exec ⟨.lex text, {}⟩ Grammar.rule {} = some (.ok ((), t)) ∧ t.diagnostics ≠ #[]

private theorem misread_of_reports {text : String} (plain : (TokenStream.lex text).tokens.all (·.kind != .atSign) = true)
    (decided : (Lookahead.parenKind false).decide ⟨.lex text, 0⟩ 1024 = some (.lambda, false))
    (reports : reportsWithin 100 ⟨.lex text, {}⟩ (call .lambdaParamList) = true) : Misread text :=
  ⟨TokenStream.unannotated_of_all plain, decided, exec_of_reportsWithin reports⟩

/-- Dimensions behind a parameter's name, and a type that is called `sealed`. -/
theorem lambda_params_misread : Misread "(int a[]) -> a" ∧ Misread "(sealed non) -> a" := by
  constructor
  · apply misread_of_reports <;> decide +kernel
  · apply misread_of_reports <;> decide +kernel

end Grammar

end LosslessJava
