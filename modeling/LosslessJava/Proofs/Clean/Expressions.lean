import LosslessJava.Proofs.Clean.Switch
import LosslessJava.Proofs.Grammar.Expressions

/-! What expressions record where nothing is reported. An operand is found, and what is attached to
it and the operators around it keep the contracts of their kinds. -/

namespace LosslessJava.Grammar

open LosslessJava.Parser LosslessJava.Shape

set_option synthInstance.maxSize 2000

variable {bounds : Bounds} {base s : State}

def Expr (s : State) (first : Completed) (row : List Shape) (t : State) : Prop :=
  s.Roots first row t ∧ first.kind.isExpr = true

theorem Expr.found {t : State} {first : Completed} {row : List Shape} (expr : Expr s first row t) :
    Found s Kind.isExpr (some first) row t := ⟨first, rfl, expr.1, expr.2⟩

theorem Expr.still {t u : State} {first : Completed} {row : List Shape} (expr : Expr s first row t)
    (still : t.Still u) : Expr s first row u := ⟨expr.1.still still, expr.2⟩

private theorem draws_exprNode {kind : Kind} {rule : Rule Unit} (isExpr : kind.isExpr = true)
    (inner : Draws bounds rule s.start fun _ row _ => kind.Holds (outline row)) :
    Draws bounds (Parser.node kind rule) s (Expr s) :=
  (draws_node inner).weaken fun _ _ _ _ ⟨roots, named⟩ => ⟨roots, named ▸ isExpr⟩

/-- What is found after a look is all that was recorded since before it. -/
theorem Found.later {sort : Kind → Bool} {t : State} {rule : Rule (Option Completed)} (still : s.Still t)
    (finds : Draws bounds rule t (Found t sort)) : Draws bounds rule t (Found s sort) :=
  finds.weaken fun _ _ _ _ found => found.of_still still

private theorem draws_someExpr {rule : Rule Completed} (draws : Draws bounds rule s (Expr s)) :
    Draws bounds (do return some (← rule)) s (Found s Kind.isExpr) :=
  DrawsSince.bind draws fun _ _ _ adds expr => .pure adds expr.found

private theorem plain_of_seesEither {cursor : TokenCursor} {one other : Kind} (plain : one.isPlain = true ∧ other.isPlain = true)
    (more : one ≠ .eof ∧ other ≠ .eof) (here : (cursor.current == one || cursor.current == other) = true) :
    cursor.current.isPlain = true ∧ cursor.current ≠ .eof := by
  rcases (Bool.or_eq_true _ _).mp here with same | same <;> rw [beq_iff_eq.mp same]
  · exact ⟨plain.1, more.1⟩
  · exact ⟨plain.2, more.2⟩

private theorem either_tame {α : Type} {good : α → Prop} {one other : Kind} {yes no : Rule α}
    (plain : one.isPlain = true ∧ other.isPlain = true) (more : one ≠ .eof ∧ other ≠ .eof)
    (taken : ∀ s : State, (s.current bounds.env).isPlain = true → s.current bounds.env ≠ .eof →
      Draws bounds yes s fun a row _ => Kind.Orderly (outline row) ∧ good a)
    [otherwise : TameWith bounds good no] :
    TameWith bounds good (do if ← sees one <||> sees other then yes else no) where
  draws s := .look fun t still => by
    split
    · next here =>
      obtain ⟨plain, more⟩ := plain_of_seesEither plain more here
      have same := @State.Still.current_eq bounds.env _ _ still
      exact taken t (same ▸ plain) (same ▸ more)
    · exact otherwise.draws t

private theorem increment_draws {operand : Completed} {row : List Shape} {kind : Kind} (before : base.Adds bounds.env row s)
    (expr : Expr base operand row s) (here : s.current bounds.env = kind)
    (known : kind = .plusPlus ∨ kind = .minusMinus) :
    DrawsSince bounds base (around operand do consumeAny; return .postfixExpr) s (Expr base) := by
  refine draws_around (P := (Kind.isExpr · = true)) before expr.1 fun u there => ?_
  have same : u.current bounds.env = kind := by
    rw [← here, State.current, State.current, State.cursor, there]
    rfl
  have operator : kind.isToken = true ∧ kind.isLoose = true ∧ kind ≠ .unknown ∧ kind ≠ .eof := by
    rcases known with rfl | rfl <;> decide
  refine .bind (draws_consumeAny (same ▸ operator.2.2.1) (same ▸ operator.2.2.2)) fun _ row v _ took => .pure ?_
  subst took
  rw [List.append_nil, outline_token, outline_nil, same]
  exact ⟨.of_orderly (by decide) (by decide) rfl ⟨_, _, rfl, expr.2, operator.1⟩
    (.cons (Kind.isLoose_of_isElement (Kind.isElement_of_isExpr expr.2)) (.plain operator.2.1)), rfl⟩

private theorem incrementStep_draws {operand : Completed} {row : List Shape} (before : base.Adds bounds.env row s)
    (expr : Expr base operand row s) : 
    DrawsSince bounds base (incrementStep operand) s (Round (Expr base) (Expr base) operand) := by
  unfold incrementStep
  refine .look before fun t still before => ?_
  have expr := expr.still still
  have same := @State.Still.current_eq bounds.env _ _ still
  split
  · next here =>
    exact .bind (increment_draws before expr (same.trans here) (.inl rfl)) fun _ _ _ adds outer => .pure adds outer
  · next here =>
    exact .bind (increment_draws before expr (same.trans here) (.inr rfl)) fun _ _ _ adds outer => .pure adds outer
  · exact .pure before expr

variable [calls : Calls bounds]

instance : Supplies bounds Kind.isElement (do return (← anyExpression).isSome) :=
  .isSome (calls.draws (.expression _) trivial) fun _ => Kind.isElement_of_isExpr

instance : Tame bounds argList := by
  unfold argList
  infer_instance

instance : Tame bounds variableInitializer := by
  unfold variableInitializer
  infer_instance

theorem arrayInitializer_tame : Tame bounds arrayInitializer := by
  unfold arrayInitializer
  infer_instance

/-- The node of a parameter has its name as the last element, and no other. -/
theorem holds_lambdaParam {front : List Kind} (unnamed : .identifier ∉ front) (orderly : Kind.Orderly front) :
    Kind.lambdaParam.Holds (front ++ [.identifier]) :=
  .of_orderly (by decide) (by decide) rfl ⟨front, rfl, unnamed⟩ (orderly.append (.plain rfl))

private theorem lambdaParam_draws : Draws bounds lambdaParam s fun _ row _ => outline row = [.lambdaParam] := by
  unfold lambdaParam
  have inner (t : State) : Draws bounds (do
      let next ← nth 1
      if ← sees .identifier <&&> pure (next == .comma || next == .rightParen) then
        consume .identifier
      else
        discard modifiers
        discard <| call .type
        discard <| accept .ellipsis
        require .identifier) t fun _ row _ => Kind.lambdaParam.Holds (outline row) := by
    refine .peek fun next u _ => .peek fun found v _ => ?_
    split
    · exact (draws_consume (by decide)).weaken fun _ row _ _ ⟨same, _⟩ => same ▸ @holds_lambdaParam [] nofun .nil
    · have dots (w : State) : Draws bounds (accept .ellipsis) w fun _ row _ => outline row = [] ∨ outline row = [.ellipsis] :=
        (draws_accept (by decide)).weaken fun found row _ _ took => by
          cases found with
          | true => exact .inr (by rw [took.1]; rfl)
          | false => exact .inl (by rw [show row = [] from took]; rfl)
      have typed (w : State) : Draws bounds (call .type) w fun _ row _ => One Kind.isType row :=
        (calls.draws .type trivial w).weaken fun _ _ _ _ found => found.one
      refine .bind modifiers_draws.discard fun _ one w _ first => .bind (typed w).discard
        fun _ two x _ sort => .bind (dots x).discard fun _ three y _ third => (Takes.draws y).weaken
          fun _ four z _ ⟨named, _⟩ => ?_
      subst named
      obtain ⟨type, second, isType⟩ := sort
      have named : type ≠ .identifier := by rintro rfl; cases isType
      have loose := Kind.isLoose_of_isElement (Kind.isElement_of_isType isType)
      have whole : outline (one ++ (two ++ (three ++ [.token .identifier 1]))) =
          (outline one ++ ([type] ++ outline three)) ++ [.identifier] := by simp [second]
      rw [whole]
      rcases first with first | first <;> rcases third with third | third <;> rw [first, third]
      · exact holds_lambdaParam (by simpa using named.symm) (.plain loose)
      · exact holds_lambdaParam (by simpa using named.symm) (.cons loose (.plain rfl))
      · exact holds_lambdaParam (by simpa using named.symm) (.cons rfl (.plain loose))
      · exact holds_lambdaParam (by simpa using named.symm) (.cons rfl (.cons loose (.plain rfl)))
  exact .discard ((draws_node (inner _)).weaken fun _ _ _ _ ⟨roots, named⟩ => by rw [roots.outline, named])

instance : Supplies bounds (· == .lambdaParam) lambdaElement where
  draws s := .bind lambdaParam_draws fun _ row u _ same => .pure ⟨rfl, .lambdaParam, by simpa using same, rfl⟩

/-- No comma stands behind the last parameter of a lambda: the scan would have stopped there. -/
theorem lambdaParamList_draws (scanned : Scanned bounds.env s) :
    Draws bounds lambdaParamList s fun _ row _ => outline row = [.lambdaParamList] := by
  obtain ⟨stop, accepts⟩ := scanned
  unfold lambdaParamList
  refine .discard <| (draws_node ((draws_delimited (s := s.start) (by decide) (by decide)).weaken fun _ row t adds given => ?_)).weaken
    fun _ _ _ _ ⟨roots, named⟩ => by rw [roots.outline, named]
  obtain ⟨inner, place, rfl, elements, opened, later, moved, closed⟩ := given
  have listed : Kind.Listed .leftParen .rightParen false (outline (.token .leftParen 1 :: (inner ++ [.token .rightParen 1]))) := by
    have isNode kind (same : (kind == Kind.lambdaParam) = true) : kind.isNode = true := by rw [beq_iff_eq.mp same]; rfl
    refine ⟨outline inner, by simp, ?_⟩
    rcases elements with (none | ⟨front, before, separated, same, rfl, comma⟩) | separated
    · exact .inl none
    · have nested : Kind.WellNested (leafKinds inner) := by
        have sound := (soundAll_append.mp adds.sound.2).1
        refine sound.nested ?_
        rw [same]
        exact (separated.separated isNode).nested.append (.plain rfl)
      have between : Kind.WellNested (bounds.env.stream.kinds (s.position + 1) (before + 1)) := by
        have brackets := adds.brackets
        have tokens : (tokensAll (.token .leftParen 1 :: (inner ++ [.token .rightParen 1]))).map Prod.fst =
            .leftParen :: (leafKinds inner ++ [.rightParen]) := by
          simp [tokensAll, tokens, leafKinds]
        rw [tokens, moved, TokenStream.kinds_cons _ (show s.start.position < _ by omega), opened,
          ← TokenStream.kinds_append _ (show s.start.position + 1 ≤ before + 1 by omega) (Nat.le_succ _),
          TokenStream.kinds_cons _ (Nat.lt_succ_self _), closed] at brackets
        have ended : bounds.env.stream.kinds (before + 1 + 1) (before + 1 + 1) = [] := by simp [TokenStream.kinds]
        have bracket : Kind.isBracket .leftParen = true := rfl
        rw [ended, List.filter_cons, List.filter_cons, if_pos bracket, if_pos bracket, List.filter_append, List.filter_append,
          List.cons.injEq] at brackets
        exact Kind.wellNested_of_filter (List.append_cancel_right brackets.2) nested
      have inside : s.position < before := by
        refine Nat.lt_of_le_of_ne (Nat.le_of_lt_succ later) fun place => ?_
        rw [← place, show bounds.env.stream.kindAt s.position = _ from opened] at comma
        cases comma
      exact absurd comma (Lookahead.not_comma_of_lambdaParams rfl (Nat.le_succ_of_le inside) accepts (.of_wellNested between)
        closed before rfl inside)
    · exact .inr (.inl (separated.separated isNode))
  have params : ∀ part ∈ outline (.token .leftParen 1 :: (inner ++ [.token .rightParen 1])), part.isNode = true →
      part = .lambdaParam := by
    intro part member isNode
    simp only [outline_token, outline_append, outline_nil, List.mem_cons, List.mem_append, List.not_mem_nil, or_false] at member
    rcases member with rfl | member | rfl
    · exact absurd isNode (by decide)
    · rcases elements.parts part member with rfl | param
      · exact absurd isNode (by decide)
      · exact beq_iff_eq.mp param
    · exact absurd isNode (by decide)
  refine ⟨by decide, by decide, rfl, ⟨listed, params⟩, listed.between rfl, fun part => ?_⟩
  cases part

private theorem lambdaParams_draws (scanned : s.current bounds.env = .leftParen → Scanned bounds.env s) :
    Draws bounds lambdaParams s fun _ row _ => One Kind.isLambdaPart row := by
  unfold lambdaParams
  refine .look fun t still => ?_
  split
  · next opener =>
    have here : Scanned bounds.env t := by
      rw [Scanned, @State.Still.cursor_eq bounds.env _ _ still]
      exact scanned (beq_iff_eq.mp opener)
    exact (calls.lambda t here).weaken fun _ _ _ _ same => ⟨_, same, rfl⟩
  · refine .discard ((draws_node ((draws_consume (by decide)).weaken fun _ row _ _ ⟨same, _⟩ => ?_)).weaken
      fun _ _ _ _ ⟨roots, named⟩ => ⟨_, roots.outline, by rw [named]⟩)
    exact same ▸ @holds_lambdaParam [] nofun .nil

/-- A lambda has its parameters in front of the arrow, and its body behind. -/
theorem lambdaExpr_draws (scanned : s.current bounds.env = .leftParen → Scanned bounds.env s) :
    Draws bounds lambdaExpr s (Expr s) := by
  unfold lambdaExpr
  have body (t : State) : Draws bounds (do if ← sees .leftBrace then call .block else discard anyExpression) t
      fun _ row _ => One Kind.isElement row := by
    refine .look fun u _ => ?_
    split
    · exact (calls.draws .block trivial u).weaken fun _ _ _ _ same => ⟨_, same, rfl⟩
    · refine Draws.discard (anyExpression_draws.weaken fun _ _ _ _ found => ?_)
      obtain ⟨kind, same, isExpr⟩ := found.one
      exact ⟨kind, same, Kind.isElement_of_isExpr isExpr⟩
  refine draws_exprNode rfl (.bind (lambdaParams_draws scanned) fun _ one t _ ⟨params, same, part⟩ =>
    .bind (Takes.draws t) fun _ two u _ ⟨arrow, _⟩ => (body u).weaken fun _ three v _ ⟨kind, same', element⟩ => ?_)
  subst arrow
  simp only [outline_append, outline_token, outline_nil, same, same']
  have plain {kind : Kind} (node : kind.isNode = true) := Kind.isBracket_of_isNode node
  exact ⟨by decide, by decide, rfl, ⟨params, kind, rfl, part, element⟩, .cons (plain (Kind.isNode_of_isLambdaPart part))
    (.cons rfl (.plain (plain (Kind.isNode_of_isElement element)))), nofun⟩

instance : TameWith bounds (Sorted Kind.isExpr) reference := by
  unfold reference
  refine .andThen fun _ => .andThen fun _ => either_tame ⟨rfl, rfl⟩ ⟨by decide, by decide⟩ fun s plain more => ?_
  exact draws_consumeAnyThen plain more

private theorem methodRef_draws {receiver : Completed} {row : List Shape} (before : base.Adds bounds.env row s)
    (roots : base.Roots receiver row s) (node : receiver.kind.isElement = true) :
    DrawsSince bounds base (methodRef receiver) s (Expr base) := by
  unfold methodRef
  exact draws_around_sorted Kind.isExpr before roots node inferInstance

private theorem typeLiteralSuffix_draws {type : Completed} {row : List Shape} (before : base.Adds bounds.env row s)
    (roots : base.Roots type row s) (node : type.kind.isElement = true) :
    DrawsSince bounds base (typeLiteralSuffix type) s (Expr base) := by
  unfold typeLiteralSuffix
  refine .peek before fun found t still before => ?_
  split
  · exact draws_around_sorted Kind.isExpr before (roots.still still) node inferInstance
  · refine .peek before fun found u still' before => ?_
    split
    · exact methodRef_draws before ((roots.still still).still still') node
    · exact .fails

instance : Tame bounds dimExpr := by
  unfold dimExpr
  infer_instance

instance : Tame bounds arrayCreationRest := by
  unfold arrayCreationRest
  infer_instance

instance : Tame bounds objectCreationRest := by
  unfold objectCreationRest
  infer_instance

instance : TameWith bounds (Sorted Kind.isExpr) creation := by
  unfold creation
  refine .andThen fun _ => .andThen fun _ =>
    .andFound (fun _ => elementType_draws) (fun _ => Kind.isElement_of_isType) fun first => ?_
  simp only [Option.isSome_some, if_true]
  infer_instance

instance : Tame bounds genericCallName where
  draws s := by
    unfold genericCallName
    refine .look fun t still => ?_
    have same := @State.Still.current_eq bounds.env _ _ still
    split
    iterate 3
      next here =>
        have here := same.trans here
        exact draws_consumePlain (here ▸ rfl) (here ▸ by decide)
    · exact .fails

instance : Tame bounds genericCallRest := by
  unfold genericCallRest
  infer_instance

private theorem callOr_draws {plain : Kind} : Draws bounds (callOr plain) s fun kind row _ =>
    Kind.Orderly (outline row) ∧ kind = .methodCall ∨ row = [] ∧ kind = plain := by
  unfold callOr
  refine .look fun t _ => ?_
  split
  · exact .bind (@TameWith.draws bounds _ Any argList _ t) fun _ row _ _ ⟨nested, _⟩ => .pure (by simpa using .inl nested)
  · exact .pure (.inr ⟨rfl, rfl⟩)

instance {plain : Kind} [sorted : Sorted Kind.isExpr plain] : TameWith bounds (Sorted Kind.isExpr) (callOr plain) where
  draws _ := callOr_draws.weaken fun kind row _ _ holds => by
    rcases holds with ⟨nested, rfl⟩ | ⟨rfl, rfl⟩
    · exact ⟨nested, inferInstance⟩
    · exact ⟨.nil, sorted⟩

/-- What is selected is an expression of some kind, and a field only by its name. -/
theorem selected_draws : Draws bounds selected s fun kind row _ =>
    (Kind.Orderly (outline row) ∧ Sorted Kind.isExpr kind) ∨
      (kind = .fieldAccess ∧ outline row = [.identifier]) := by
  have tame {rule : Rule Kind} (t : State) [tame : TameWith bounds (Sorted Kind.isExpr) rule] :
      Draws bounds rule t fun kind row _ => (Kind.Orderly (outline row) ∧ Sorted Kind.isExpr kind) ∨
        (kind = .fieldAccess ∧ outline row = [.identifier]) :=
    (tame.draws t).weaken fun _ _ _ _ holds => .inl holds
  unfold selected
  refine .look fun t _ => ?_
  split
  · refine .bind (draws_consume (by decide)) fun _ front u _ consumed => callOr_draws.weaken
      fun kind row v _ holds => ?_
    obtain ⟨rfl, -⟩ := consumed
    rcases holds with ⟨nested, rfl⟩ | ⟨rfl, rfl⟩
    · exact .inl ⟨.cons rfl nested, inferInstance⟩
    · exact .inr ⟨rfl, rfl⟩
  · exact tame t
  · exact tame t
  · exact tame t
  · exact tame t
  · exact tame t
  · exact .fails

private theorem dotSuffix_draws {receiver : Completed} {row : List Shape} (before : base.Adds bounds.env row s)
    (expr : Expr base receiver row s) : DrawsSince bounds base (dotSuffix receiver) s (Expr base) := by
  unfold dotSuffix
  refine draws_around (P := (Kind.isExpr · = true)) before expr.1 fun u _ =>
    .bind (draws_consume (by decide)) fun _ front v _ ⟨dot, _⟩ => selected_draws.weaken fun kind row w _ holds => ?_
  subst dot
  have node := Kind.isLoose_of_isElement (Kind.isElement_of_isExpr expr.2)
  rcases holds with ⟨nested, sorted⟩ | ⟨rfl, same⟩
  · exact ⟨Kind.holds_of_isPlain sorted.plain (.cons node (.cons rfl nested)), sorted.sorted⟩
  · rw [outline_append, same]
    exact ⟨.of_orderly (by decide) (by decide) rfl ⟨_, rfl, expr.2⟩ (.cons node (.cons rfl (.plain rfl))), rfl⟩

instance : TameWith bounds (Sorted Kind.isExpr) subscript := by
  unfold subscript
  infer_instance

private theorem arrayAccess_draws {array : Completed} {row : List Shape} (before : base.Adds bounds.env row s)
    (expr : Expr base array row s) : DrawsSince bounds base (arrayAccess array) s (Expr base) := by
  unfold arrayAccess
  exact draws_around_sorted Kind.isExpr before expr.1 (Kind.isElement_of_isExpr expr.2) inferInstance

private theorem postfixStep_draws {operand : Completed} {row : List Shape} (before : base.Adds bounds.env row s)
    (expr : Expr base operand row s) : 
    DrawsSince bounds base (postfixStep operand) s (Round (Expr base) (Expr base) operand) := by
  unfold postfixStep
  refine .look before fun t still before => ?_
  have expr := expr.still still
  split
  · exact .bind (dotSuffix_draws before expr) fun _ _ _ adds outer => .pure adds outer
  · exact .bind (arrayAccess_draws before expr) fun _ _ _ adds outer => .pure adds outer
  · exact .bind (methodRef_draws before expr.1 (Kind.isElement_of_isExpr expr.2)) fun _ _ _ adds outer => .pure adds outer
  · exact .pure before expr

private theorem postfixExpr_draws {operand : Completed} {row : List Shape} (before : base.Adds bounds.env row s)
    (expr : Expr base operand row s) : DrawsSince bounds base (postfixExpr operand) s (Expr base) := by
  unfold postfixExpr
  have attached : DrawsSince bounds base (loopFrom operand postfixStep) s (Expr base) :=
    .loopFrom (Expr base) before expr fun _ _ _ before expr => postfixStep_draws before expr
  refine attached.bind fun outer row t before expr => ?_
  exact .loopFrom (Expr base) before expr fun _ _ _ before expr => incrementStep_draws before expr

private theorem genericReceiver?_draws : Draws bounds genericReceiver? s fun found row t =>
    match found with
    | some type => s.Roots type row t ∧ type.kind.isType = true
    | none => t = s := by
  unfold genericReceiver?
  refine draws_speculate (P := fun type row t => s.Roots type row t ∧ type.kind.isType = true) ?_
  refine draws_foundThen (calls.draws .type trivial s) fun first row t adds roots sorted => .look adds fun u still adds => ?_
  refine .pure adds fun found given => ?_
  split at given
  · cases given
    exact ⟨roots.still still, sorted⟩
  · cases given

private theorem plainName_draws : Draws bounds plainName s (Expr s) := by
  unfold plainName
  exact draws_nodeOf_sorted Kind.isExpr inferInstance

theorem simpleName_draws : Draws bounds simpleName s (Found s Kind.isExpr) := by
  unfold simpleName
  refine .peek fun next t still => .peek fun found u still' => ?_
  refine Found.later (still.trans still') ?_
  split
  · refine draws_foundThen (calls.draws .type trivial u) fun first row v adds roots sorted => ?_
    exact .bind (typeLiteralSuffix_draws adds roots (Kind.isElement_of_isType sorted)) fun _ _ _ adds expr =>
      .pure adds expr.found
  · exact draws_someExpr plainName_draws

private theorem nameExpr_draws (name : s.current bounds.env ≠ .leftParen) : Draws bounds nameExpr s (Found s Kind.isExpr) := by
  unfold nameExpr
  refine .peek fun next t still => .peek fun noLambda u still' => ?_
  refine Found.later (still.trans still') ?_
  split
  · refine draws_someExpr (lambdaExpr_draws fun paren => absurd ?_ name)
    rw [← paren, (still.trans still').current_eq]
  · split
    · refine DrawsSince.bind genericReceiver?_draws fun found row v adds holds => ?_
      cases found with
      | some type =>
        exact .bind (methodRef_draws adds holds.1 (Kind.isElement_of_isType holds.2)) fun _ _ _ adds expr =>
          .pure adds expr.found
      | none =>
        subst holds
        exact calls.draws .simpleName trivial v
    · exact calls.draws .simpleName trivial u

private theorem selfExpr_draws {kind plain : Kind} [Evident (known kind)] [Evident kind.isPlain]
    [Sorted Kind.isExpr plain] : Draws bounds (selfExpr kind plain) s (Expr s) := by
  unfold selfExpr
  exact draws_nodeOf_sorted Kind.isExpr inferInstance

instance : Tame bounds genericSelfName where
  draws := (either_tame ⟨rfl, rfl⟩ ⟨by decide, by decide⟩ fun _ => draws_consumePlain).draws

private theorem genericSelfCall_draws : Draws bounds genericSelfCall s (Expr s) := by
  unfold genericSelfCall
  exact draws_node_sorted _

private theorem literalType_draws : Draws bounds literalType s (Found s Kind.isExpr) := by
  unfold literalType
  refine draws_foundThen resultType_draws fun first row t adds roots sorted => ?_
  exact .bind (typeLiteralSuffix_draws adds roots (Kind.isElement_of_isType sorted)) fun _ _ _ adds expr =>
    .pure adds expr.found

instance : Fails bounds missingExpression := by
  unfold missingExpression
  refine .andThen fun _ => .andThen fun found => .andThen fun end_ => ?_
  split <;> infer_instance

private theorem plain_of_isLiteral {kind : Kind} (literal : kind.isLiteral = true) : kind.isPlain = true ∧ kind ≠ .eof := by
  cases kind <;> first | exact ⟨rfl, by decide⟩ | cases literal

private theorem primary_draws : Draws bounds primary s (Found s Kind.isExpr) := by
  unfold primary
  refine .look fun t still => ?_
  have same := @State.Still.current_eq bounds.env _ _ still
  refine Found.later still ?_
  split
  · next literal =>
    obtain ⟨plain, more⟩ := plain_of_isLiteral literal
    exact draws_someExpr (draws_node_here Kind.isExpr (draws_consumePlain (same ▸ plain) (same ▸ more)))
  · split
    · exact literalType_draws
    · split
      · next here => exact nameExpr_draws (by rw [same, State.current, here]; decide)
      · exact draws_someExpr selfExpr_draws
      · exact draws_someExpr selfExpr_draws
      · exact draws_someExpr (draws_nodeOf_sorted Kind.isExpr inferInstance)
      · exact draws_someExpr switchExpr_draws
      · exact draws_someExpr genericSelfCall_draws
      · exact .fails

private theorem draws_unary : Draws bounds (nested none (call .unary)) s fun _ row _ => One Kind.isExpr row :=
  draws_nested ((calls.draws .unary trivial _).weaken fun _ _ _ _ found => found.one)

private theorem castExpr_draws : Draws bounds castExpr s (Expr s) := by
  unfold castExpr
  refine draws_exprNode rfl ?_
  refine .bind (draws_consume (by decide)) fun _ one t _ opens => .bind intersectionType_draws
    fun _ two u _ target => .bind (Takes.draws u) fun _ three v _ closes =>
      draws_unary.discard.weaken fun _ four w _ found => ?_
  obtain ⟨rfl, -⟩ := opens
  obtain ⟨type, same, isType⟩ := target
  obtain ⟨rfl, -⟩ := closes
  obtain ⟨operand, same', isExpr⟩ := found
  simp only [outline_append, outline_token, outline_nil, same, same']
  refine .of_orderly (by decide) (by decide) rfl ⟨type, operand, rfl, isType, isExpr⟩ ?_
  have front : Kind.Orderly (.leftParen :: ([type] ++ [.rightParen])) :=
    .between rfl (.plain (Kind.isLoose_of_isElement (Kind.isElement_of_isType isType)))
  exact front.append (.plain (Kind.isLoose_of_isElement (Kind.isElement_of_isExpr isExpr)))

private theorem parenExpr_draws : Draws bounds parenExpr s (Expr s) := by
  unfold parenExpr
  refine draws_exprNode rfl ?_
  exact parenthesized_draws.weaken fun _ _ _ _ elements => holds_parenthesized (.inl rfl) elements

private theorem operandOf_draws {kind : ParenKind} (scanned : kind = .lambda → Scanned bounds.env s) :
    Draws bounds (operandOf kind) s (Found s Kind.isExpr) := by
  cases kind with
  | lambda => exact draws_someExpr (lambdaExpr_draws fun _ => scanned rfl)
  | cast => exact draws_someExpr castExpr_draws
  | parenthesized =>
    refine DrawsSince.bind parenExpr_draws fun first row t adds expr => ?_
    exact .bind (postfixExpr_draws adds expr) fun _ _ _ adds expr => .pure adds expr.found

omit calls in
private theorem clear_of_decideBy {α : Type} [Inhabited α] {what : String} {peek : Lookahead.Peek α} {a : α} {t : State}
    (gives : bounds.Gives (decideBy what peek) s a t) (normal : s.recovery = .normal) (clean : t.errorCount = s.errorCount) :
    Lookahead.Clear ⟨s.cursor bounds.env, bounds.env.options.lookaheadLimit⟩ peek a := by
  unfold decideBy at gives
  obtain ⟨limit, u, asked, gives⟩ := gives.bind
  cases asked.act
  obtain ⟨here, u, looked, gives⟩ := gives.bind
  cases looked.act
  generalize decided : peek.decide (s.cursor bounds.env) bounds.env.options.lookaheadLimit = outcome at gives
  rcases outcome with _ | ⟨decision, _ | _⟩
  · exact absurd gives Bounds.Gives.endless
  · obtain ⟨rfl, -⟩ := gives.pure
    exact decided
  · have told : Fails bounds (do report (.undecided what bounds.env.options.lookaheadLimit); return decision : Rule α) := inferInstance
    have more := told.fails gives normal
    omega

/-- Where a bracket opens the parameters of a lambda, these were scanned. -/
theorem scanned_of_lambda {env : Env} {noLambda : Bool}
    (clear : Lookahead.Clear ⟨s.cursor env, env.options.lookaheadLimit⟩ (Lookahead.parenKind noLambda) .lambda) :
    Scanned env s := by
  unfold Lookahead.parenKind at clear
  rcases Lookahead.clear_test.mp clear with ⟨found, -⟩ | ⟨-, rest⟩
  · rcases Lookahead.clear_both.mp found with ⟨-, found⟩ | ⟨-, impossible⟩
    · unfold Lookahead.succeeds at found
      obtain ⟨result, ran, same⟩ := Lookahead.clear_bind.mp found
      cases result with
      | none => cases Lookahead.clear_pure.mp same
      | some answer =>
        obtain ⟨stop, accepts, -⟩ := Lookahead.accepts_bind.mp (show Lookahead.Accepts _ Lookahead.isLambda answer from ran)
        exact ⟨stop, accepts⟩
    · cases impossible
  · rcases Lookahead.clear_test.mp rest with ⟨-, same⟩ | ⟨-, same⟩ <;> cases Lookahead.clear_pure.mp same

theorem parenOperand_draws : Draws bounds parenOperand s (Found s Kind.isExpr) := fun a t gives ready clean => by
  obtain ⟨kind, u, decided, rest⟩ := gives.bind
  have early := decided.le_errorCount
  have late := rest.le_errorCount
  have still := Peeks.still decided ready.normal (by omega)
  have scanned : kind = .lambda → Scanned bounds.env u := by
    rintro rfl
    obtain ⟨noLambda, v, asked, decides⟩ := decided.bind
    obtain rfl : v = s := by cases asked.act; rfl
    have found := scanned_of_lambda (clear_of_decideBy decides ready.normal (by omega))
    rwa [Scanned, still.cursor_eq]
  have draws : DrawsSince bounds s (operandOf kind) u (Found s Kind.isExpr) :=
    .behind ((State.Adds.refl ready).still still) (operandOf_draws scanned) fun _ _ _ _ found => found.of_still still
  exact draws a t rest (still.ready ready) (by omega)

private theorem attachedOperand_draws : Draws bounds attachedOperand s (Found s Kind.isExpr) := by
  unfold attachedOperand
  refine draws_foundThen primary_draws fun first row t adds roots sorted => ?_
  dsimp only
  split
  · exact .pure adds ⟨first, rfl, roots, sorted⟩
  · exact .bind (postfixExpr_draws adds ⟨roots, sorted⟩) fun _ _ _ adds expr => .pure adds expr.found

private theorem prefixExpr_draws {kind : Kind} (here : s.current bounds.env = kind) (known : kind ≠ .unknown ∧ kind ≠ .eof)
    (operator : kind.isToken = true ∧ kind.isLoose = true) : Draws bounds prefixExpr s (Expr s) := by
  unfold prefixExpr
  refine draws_exprNode rfl ?_
  have same : s.start.current bounds.env = kind := here
  refine .bind (draws_consumeAny (same ▸ known.1) (same ▸ known.2)) fun _ front t _ took =>
    draws_unary.discard.weaken fun _ row u _ ⟨operand, outlined, isExpr⟩ => ?_
  subst took
  rw [outline_append, outlined, outline_token, same]
  exact .of_orderly (by decide) (by decide) rfl ⟨kind, operand, rfl, operator.1, isExpr⟩
    (.cons operator.2 (.plain (Kind.isLoose_of_isElement (Kind.isElement_of_isExpr isExpr))))

theorem unary_draws : Draws bounds unary s (Found s Kind.isExpr) := by
  unfold unary
  refine .look fun t still => ?_
  have same := @State.Still.current_eq bounds.env _ _ still
  refine Found.later still ?_
  split
  iterate 6
    next here => exact draws_someExpr (prefixExpr_draws (same.trans here) (by decide) (by decide))
  · exact calls.draws .parenOperand trivial t
  · exact attachedOperand_draws

private theorem instanceofTarget_draws : Draws bounds instanceofTarget s fun _ row _ =>
    ∃ kind, outline row = [kind] ∧ (kind.isType ∨ kind.isPattern) := by
  unfold instanceofTarget
  refine .peek fun found t _ => ?_
  split
  · apply Draws.discard
    apply (calls.draws .pattern trivial t).weaken
    intro _ _ _ _ found
    obtain ⟨kind, same, sorted⟩ := found.one
    exact ⟨kind, same, .inr sorted⟩
  · refine .peek fun found u _ => ?_
    split
    · exact .fails
    · apply Draws.discard
      apply (calls.draws .type trivial u).weaken
      intro _ _ _ _ found
      obtain ⟨kind, same, sorted⟩ := found.one
      exact ⟨kind, same, .inl sorted⟩

section Operations

private theorem plain_of_operator {kind : Kind} {power : Power} (operator : Operator.power? kind = some power) :
    kind.isPlain = true := by
  cases kind <;> first | rfl | cases operator

/-- What stands at the cursor is an operator of some power, and so are the tokens that it is made of. -/
theorem Operator.of_at? {cursor : TokenCursor} {op : Operator} (here : Operator.at? cursor = some op) :
    power? op.kind = some op.power ∧ ∀ n < op.rawCount, (cursor.nth n).isBracket = false := by
  unfold at? at here
  split at here
  · next begins =>
    cases here
    refine ⟨power?_angle, fun n small => ?_⟩
    rcases angle_tokens begins n small with same | same <;> rw [same] <;> rfl
  · obtain ⟨power, holds, rfl⟩ := Option.map_eq_some_iff.mp here
    refine ⟨holds, fun n small => ?_⟩
    obtain rfl : n = 0 := Nat.lt_one_iff.mp small
    exact Kind.isBracket_of_isPlain (plain_of_operator holds)

private theorem draws_expression {least : Power} : Draws bounds (discard (call (.expression least))) s fun _ row _ =>
    One Kind.isExpr row :=
  .discard ((calls.draws (.expression least) trivial s).weaken fun _ _ _ _ found => found.one)

private theorem operation_draws {op : Operator} {first : Kind} (here : Operator.at? (s.cursor bounds.env) = some op)
    (expr : first.isExpr = true) : Draws bounds (operation op) s fun kind row _ =>
      kind.Holds (first :: outline row) ∧ kind.isExpr = true := by
  obtain ⟨power, plain⟩ := Operator.of_at? here
  have node {kind : Kind} (expr : kind.isExpr = true) := Kind.isLoose_of_isElement (Kind.isElement_of_isExpr expr)
  unfold operation
  split
  · refine .bind (draws_consume (by decide)) fun _ one t _ taken => .bind instanceofTarget_draws
      fun _ two u _ targeted => .pure ?_
    obtain ⟨rfl, -⟩ := taken
    obtain ⟨target, same, sorted⟩ := targeted
    have element : target.isElement = true := sorted.elim Kind.isElement_of_isType Kind.isElement_of_isPattern
    simp only [outline_append, outline_token, outline_nil, same, List.append_nil, and_true]
    exact .of_orderly (by decide) (by decide) rfl ⟨first, target, rfl, expr, sorted⟩
      (.cons (node expr) (.cons rfl (.plain (Kind.isLoose_of_isElement element))))
  · refine .bind (draws_consume (by decide)) fun _ one t _ taken => .bind draws_expression
      fun _ two u _ chosen => .bind (Takes.draws u) fun _ three v _ parted =>
      .bind draws_expression fun _ four w _ left => .pure ?_
    obtain ⟨rfl, -⟩ := taken
    obtain ⟨yes, same, isExpr⟩ := chosen
    obtain ⟨rfl, -⟩ := parted
    obtain ⟨no, same', isExpr'⟩ := left
    simp only [outline_append, outline_token, outline_nil, same, same', List.append_nil, and_true]
    exact .of_orderly (by decide) (by decide) rfl ⟨first, yes, no, rfl, expr, isExpr, isExpr'⟩
      (.cons (node expr) (.cons rfl (.cons (node isExpr) (.cons rfl (.plain (node isExpr'))))))
  · refine .bind (draws_join (plain_of_operator power) plain) fun _ front t _ taken => ?_
    subst taken
    have loose := Kind.isLoose_of_isPlain (plain_of_operator power)
    have isSome : (Operator.power? op.kind).isSome = true := Option.isSome_of_eq_some power
    split
    all_goals
      refine .bind draws_expression fun _ row u _ drawn => .pure ?_
      obtain ⟨right, same, isExpr⟩ := drawn
      simp only [outline_append, outline_token, outline_nil, same, List.append_nil, and_true]
      exact .of_orderly (by decide) (by decide) rfl ⟨first, op.kind, right, rfl, expr, isSome, isExpr⟩
        (.cons (node expr) (.cons loose (.plain (node isExpr))))

private theorem operatorStep_draws {least : Power} {left : Completed} {row : List Shape}
    (before : base.Adds bounds.env row s) (expr : Expr base left row s) :
    DrawsSince bounds base (operatorStep least left) s (Round (Expr base) (Expr base) left) := by
  unfold operatorStep
  refine .look before fun t still before => ?_
  have same := @State.Still.cursor_eq bounds.env _ _ still
  dsimp only [id]
  split
  · next op here =>
    split
    · exact .pure before (expr.still still)
    · refine .bind (draws_around (P := (Kind.isExpr · = true)) before (expr.1.still still) fun u there =>
        operation_draws ?_ expr.2) fun _ _ _ adds outer => .pure adds outer
      rw [State.cursor, there, ← State.cursor, same]
      exact here
  · exact .pure before (expr.still still)

theorem expression_draws {least : Power} : Draws bounds (expression least) s (Found s Kind.isExpr) := by
  unfold expression
  refine draws_nested (draws_foundThen unary_draws fun first row t adds roots sorted => ?_)
  exact .bind (.loopFrom (Expr _) adds ⟨roots, sorted⟩ fun _ _ _ before expr => operatorStep_draws before expr)
    fun _ _ _ adds expr => .pure adds expr.found

end Operations

end LosslessJava.Grammar
