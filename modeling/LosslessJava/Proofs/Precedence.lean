import LosslessJava.Proofs.Formulas
import LosslessJava.Proofs.Operators

/-! Expressions are read as the trees they are written from: every operator binds as its power tells, those that are
made of several `>` included; `(` opens a bracketed expression and no cast; and `<` behind a name compares. -/

namespace LosslessJava

open LosslessJava.Parser

namespace TokenStream

variable {stream : TokenStream} {i j k : Nat}

/-- A type that `&` or a closing bracket stands behind is a single name: no arguments end there. -/
theorem Spans.single {type : TypePart .type} (formal : stream.Formal) (spans : stream.Spans type i j)
    (behind : stream.kindAt j = .amp ∨ stream.kindAt j = .rightParen) : stream.kindAt i = .identifier ∧ j = i + 1 := by
  have ends {i j : Nat} {rest : TypePart .further} (further : stream.Spans rest i j) : j = i := by
    cases further with
    | stop => rfl
    | next dot => exact absurd dot (formal.away _ rfl (by decide))
  have closes {i : Nat} (angle : stream.kindAt i = .gt) : j ≠ i + 1 := by
    rintro rfl
    have other := formal.angles i angle
    exact behind.elim other.1 other.2
  cases spans with
  | @primitive kind proper _ _ _ here =>
    have foreign : ∀ kind ∈ Kind.all, kind.isPrimitiveType = true → kind.inFormula = false ∧ kind ≠ .eof := by decide +kernel
    obtain ⟨other, more⟩ := foreign kind (Kind.mem_all kind) proper
    exact absurd here (formal.away _ other more)
  | @named segments _ _ k _ here rest dims =>
    obtain rfl : k = j := by
      cases dims with
      | stop => rfl
      | more opener => exact absurd opener (formal.away _ rfl (by decide))
    refine ⟨here, ?_⟩
    cases rest with
    | bare _ further => exact ends further
    | diamond _ closer further => exact absurd (ends further) (closes closer)
    | generic _ _ inside further => exact absurd (ends further) (closes inside.closer)

/-- What a type or a closing bracket stands behind, if types joined by `&` go on to a closing bracket. -/
theorem Joined.behind (joined : stream.Joined i j) (closed : stream.kindAt j = .rightParen) :
    stream.kindAt i = .amp ∨ stream.kindAt i = .rightParen := by
  cases joined with
  | stop => exact .inr closed
  | more amp => exact .inl amp

/-- Further types that go on to a closing bracket are names, with `&` in front of each. -/
theorem Joined.conjoined (formal : stream.Formal) (joined : stream.Joined i j) (closed : stream.kindAt j = .rightParen) :
    stream.Conjoined i j := by
  induction joined with
  | stop => exact fun m behind before => absurd behind (Nat.not_le_of_lt before)
  | more amp type rest ih =>
    obtain ⟨name, rfl⟩ := type.single formal (rest.behind closed)
    exact (Conjoined.single amp rfl).append ((Conjoined.single name rfl).append (ih closed))

private theorem Conjoined.of_cast {type : TypePart .type} (formal : stream.Formal) (spans : stream.Spans type i j)
    (joined : stream.Joined j k) (closed : stream.kindAt k = .rightParen) : stream.Conjoined i k := by
  obtain ⟨name, rfl⟩ := spans.single formal (joined.behind closed)
  exact (Conjoined.single name rfl).append (joined.conjoined formal closed)

end TokenStream

namespace Parser.Lookahead

variable {stream : TokenStream} {i limit : Nat}

/-- Brackets around an expression open no lambda, and no cast if it does more than join names. -/
theorem parenKind_clear (formal : stream.Formal) (far : stream.size + 1 < limit) (breaks : stream.Breaks (i + 1))
    (noLambda : Bool) : Clear ⟨⟨stream, i⟩, limit⟩ (parenKind noLambda) .parenthesized := by
  have horizon : (⟨stream, i⟩ : TokenCursor).horizon ≤ stream.size := TokenCursor.horizon_le_size _
  obtain ⟨kind, decided⟩ : ∃ kind, Clear ⟨⟨stream, i⟩, limit⟩ (parenKind noLambda) kind :=
    (Decision.paren noLambda).clear_of_far (Nat.lt_of_le_of_lt (Nat.succ_le_succ horizon) far)
  have accepts {scan : Scan Bool} (found : Clear ⟨⟨stream, i⟩, limit⟩ (succeeds scan) true) :
      Accepts ⟨⟨stream, i⟩, limit⟩ scan true := by
    obtain ⟨answer, ran, same⟩ := clear_bind.mp found
    obtain rfl : answer = some true := by
      have given := clear_pure.mp same
      cases answer with
      | none => cases given
      | some => exact congrArg some given
    exact ran
  have sees {n : Nat} {kind : Kind} (found : Accepts ⟨⟨stream, i⟩, limit⟩ (liftM (nthIs n kind)) true) :
      stream.kindAt (i + n) = kind := by
    have same := (clear_nthIs.mp (accepts_lift.mp found)).2
    rwa [TokenCursor.nth_eq, beq_iff_eq] at same
  unfold parenKind at decided
  rcases clear_test.mp decided with ⟨lambda, -⟩ | ⟨lambda, decided⟩
  · rcases clear_both.mp lambda with ⟨-, lambda⟩ | ⟨-, impossible⟩
    · obtain ⟨stop, -, arrow⟩ := accepts_bind.mp (accepts lambda)
      exact absurd (sees arrow) (formal.away _ rfl (by decide))
    · cases impossible
  · rcases clear_test.mp decided with ⟨cast, -⟩ | ⟨cast, -⟩
    · obtain ⟨close, type, rest⟩ := accepts_bind.mp (accepts cast)
      obtain ⟨part, j, spans, joined⟩ := castType_of_accepts formal.unannotated type
      rcases accepts_test.mp rest with ⟨closed, -⟩ | ⟨-, impossible⟩
      · exact absurd (sees (accepts_lift.mpr closed)) (breaks.open (.of_cast formal spans joined (sees (accepts_lift.mpr closed)))
          (Nat.le_trans spans.le joined.le))
      · cases accepts_pure.mp impossible
    · exact clear_test.mpr (.inr ⟨lambda, clear_test.mpr (.inr ⟨cast, clear_pure.mpr rfl⟩)⟩)

end Parser.Lookahead

namespace Grammar

section Operators

variable {stream : TokenStream} {op : Kind} {power : Power} {i j : Nat}

/-- An operator is found where its tokens stand, if no token behind it could be a part of it. -/
theorem Operator.at_written (found : Operator.power? op = some power) (lays : stream.Lays op.written i j)
    (angle : stream.kindAt j ≠ .gt) (equals : stream.kindAt j ≠ .eq) :
    Operator.at? ⟨stream, i⟩ = some ⟨op, op.written.length, power⟩ := by
  have current : (⟨stream, i⟩ : TokenCursor).current = stream.kindAt i := TokenCursor.nth_eq _ 0
  have goes {n : Nat} {kind : Kind} (same : stream.kindAt (i + (n + 1)) = kind) (joint : stream.touches (i + n) = true) :
      Operator.goesOn ⟨stream, i⟩ n kind = true := by
    rw [Operator.goesOn, TokenCursor.nth_eq, TokenCursor.isJoint_eq, same, joint, beq_self_eq_true, Bool.and_self]
  have stops {n : Nat} {kind : Kind} (other : stream.kindAt (i + (n + 1)) ≠ kind) :
      ¬ Operator.goesOn ⟨stream, i⟩ n kind = true := by
    rw [Operator.goesOn, TokenCursor.nth_eq, beq_false_of_ne other, Bool.false_and]
    exact Bool.false_ne_true
  have angled (here : stream.kindAt i = .gt) : Operator.at? ⟨stream, i⟩ = some (Operator.angle ⟨stream, i⟩) := by
    rw [Operator.at?, current, if_pos here]
  unfold Kind.written at lays ⊢
  split at lays
  · obtain ⟨here, joint, second, -, rfl⟩ := lays
    cases found
    rw [angled here, angle_eq, if_neg (stops (second ▸ by decide)), if_pos (goes second (joint rfl))]
    rfl
  · obtain ⟨here, joint, second, -, rfl⟩ := lays
    cases found
    rw [angled here, angle_eq, if_pos (goes second (joint rfl)), if_neg (stops angle), if_neg (stops equals)]
    rfl
  · obtain ⟨here, joint, second, joint', third, -, rfl⟩ := lays
    cases found
    rw [angled here, angle_eq, if_pos (goes second (joint rfl)), if_pos (goes third (joint' rfl)), if_neg (stops equals)]
    rfl
  · obtain ⟨here, joint, second, joint', third, -, rfl⟩ := lays
    cases found
    rw [angled here, angle_eq, if_pos (goes second (joint rfl)), if_neg (stops (third ▸ by decide)),
      if_pos (goes third (joint' rfl))]
    rfl
  · obtain ⟨here, joint, second, joint', third, joint'', fourth, -, rfl⟩ := lays
    cases found
    rw [angled here, angle_eq, if_pos (goes second (joint rfl)), if_pos (goes third (joint' rfl)),
      if_pos (goes fourth (joint'' rfl))]
    rfl
  · obtain ⟨here, -, rfl⟩ := lays
    by_cases single : op = .gt
    · subst single
      cases found
      rw [angled here, angle_eq, if_neg (stops angle), if_neg (stops equals)]
      rfl
    · rw [Operator.at?, current, here, if_neg single, found]
      rfl

end Operators

section Reading

variable {env : Env} {level : Level} {i j k l m : Nat} {shape before after : Shape} {least more : Power} {op : Kind}
  {formula left right : Formula}

/-- An expression ends here: nothing belongs to its last operand, and the operator that stands here binds less tightly. -/
structure Closes (env : Env) (j : Nat) (least : Power) : Prop where
  ends : endsOperand (env.stream.kindAt j) = true
  bracket : env.stream.kindAt j ≠ .leftParen
  loose : ∀ op, Operator.at? ⟨env.stream, j⟩ = some op → op.power < least

private theorem Closes.mono (closes : Closes env j least) (le : least ≤ more) : Closes env j more :=
  ⟨closes.ends, closes.bracket, fun op found => Nat.lt_of_lt_of_le (closes.loose op found) le⟩

private theorem Closes.of_kind {kind : Kind} (here : env.stream.kindAt j = kind) (ends : endsExpression kind = true)
    (bracket : kind ≠ .leftParen) : Closes env j least := by
  have ⟨alone, last⟩ := Bool.and_eq_true_iff.mp ends
  refine ⟨here ▸ alone, here ▸ bracket, fun op found => ?_⟩
  rw [at_none (here ▸ last)] at found
  cases found

/-- An expression is read as its tree, which goes on with what stands behind it: as an operand that is counted up or down,
as a whole operand, and as the left side of operators. -/
structure Readable (env : Env) (level : Level) (formula : Formula) (i j : Nat) : Prop where
  operand : .operand ≤ formula.power → env.stream.kindAt j ≠ .leftParen → ∀ {after : Shape} {k : Nat},
    Carries env level j (fun node => loopFrom node incrementStep) formula.shape after k → ReadsNode env level i unary after k
  whole : .unary ≤ formula.power → endsOperand (env.stream.kindAt j) = true → env.stream.kindAt j ≠ .leftParen →
    ReadsNode env level i unary formula.shape j
  operators : ∀ {least : Power}, least ≤ formula.power → Closes env j formula.bound → ∀ {after : Shape} {k : Nat},
    Carries env level j (fun node => loopFrom node (operatorStep least)) formula.shape after k →
      ∃ before m, ReadsNode env level i unary before m ∧
        Carries env level m (fun node => loopFrom node (operatorStep least)) before after k

namespace Readable

private theorem of_whole (power : formula.power = .unary)
    (whole : endsOperand (env.stream.kindAt j) = true → env.stream.kindAt j ≠ .leftParen →
      ReadsNode env level i unary formula.shape j) : Readable env level formula i j where
  operand tight := absurd tight (by rw [power]; decide)
  whole _ := whole
  operators _ closes _ _ rest := ⟨_, _, whole closes.ends closes.bracket, rest⟩

private theorem of_operand
    (operand : env.stream.kindAt j ≠ .leftParen → ∀ {after : Shape} {k : Nat},
      Carries env level j (fun node => loopFrom node incrementStep) formula.shape after k → ReadsNode env level i unary after k) :
    Readable env level formula i j :=
  have whole (ends : endsOperand (env.stream.kindAt j) = true) (bracket : env.stream.kindAt j ≠ .leftParen) :
      ReadsNode env level i unary formula.shape j := operand bracket (.loopEnd (incrementStep_rests ends))
  { operand := fun _ => operand
    whole := fun _ => whole
    operators := fun _ closes _ _ rest => ⟨_, _, whole closes.ends closes.bracket, rest⟩ }

private theorem of_operators (loose : formula.power < .unary)
    (operators : ∀ {least : Power}, least ≤ formula.power → Closes env j formula.bound → ∀ {after : Shape} {k : Nat},
      Carries env level j (fun node => loopFrom node (operatorStep least)) formula.shape after k →
        ∃ before m, ReadsNode env level i unary before m ∧
          Carries env level m (fun node => loopFrom node (operatorStep least)) before after k) :
    Readable env level formula i j where
  operand tight := absurd (Nat.le_trans (show Power.unary ≤ .operand by decide) tight) (Nat.not_le_of_lt loose)
  whole tight := absurd tight (Nat.not_le_of_lt loose)
  operators := operators

/-- An expression is read up to an operator that binds more loosely than is asked for. -/
theorem expression (readable : Readable env level.deeper formula i j) (room : level.depth < env.options.maxDepth)
    (tight : least ≤ formula.power) (closes : Closes env j least) :
    ReadsNode env level i (call (.expression least)) formula.shape j := by
  obtain ⟨before, m, operand, operators⟩ := readable.operators tight (closes.mono (Nat.le_trans tight formula.power_le_bound))
    (.loopEnd (operatorStep_rests closes.loose))
  exact expression_reads room operand operators

section Operands

variable (formal : env.stream.Formal)

include formal

theorem attached (rest : Carries env level j (fun node => loopFrom node incrementStep) before after k) :
    Carries env level j postfixExpr before after k := by
  refine .andThen (.loopEnd (postfixStep_rests ?_)) rest
  unfold endsSelection
  split
  · next here => exact absurd here (formal.away _ rfl (by decide))
  · next here => exact absurd here (formal.away _ rfl (by decide))
  · next here => exact absurd here (formal.away _ rfl (by decide))
  · rfl

private theorem name (sound : level.sound = true) (here : env.stream.kindAt i = .identifier) :
    Readable env level .name i (i + 1) := by
  refine .of_operand fun bracket _ _ rest => ?_
  have forms : Forms env level i plainName fun row k => row = [nameNode] ∧ k = i + 1 :=
    plainName_forms here (by decide) (callOr_plain bracket)
  have reads : ReadsNode env level i nameExpr nameNode (i + 1) := by
    by_cases angle : env.stream.kindAt (i + 1) = .lt
    · exact nameExpr_compared formal.unannotated formal.regular (fun _ => formal.away _ rfl (by decide)) sound here angle forms
    · exact nameExpr_plain ⟨formal.away _ rfl (by decide), formal.away _ rfl (by decide), formal.away _ rfl (by decide)⟩ angle forms
  exact unary_attached (by rw [here]; rfl) (attachedOperand_reads (by decide) (primary_nameExpr here reads) (attached formal rest))

private theorem literal {kind : Kind} {proper : kind.isLiteral = true} (here : env.stream.kindAt i = kind) :
    Readable env level (.literal kind proper) i (i + 1) := by
  refine .of_operand fun _ _ _ rest => ?_
  have reads : ReadsNode env level i primary (.node .literal [.token kind 1]) (i + 1) := by
    refine .look ?_
    rw [TokenCursor.nth_eq, Nat.add_zero, here, if_pos proper]
    exact .always (Follows.forms_node (by decide) (.consumeAny here (by rintro rfl; cases proper) ⟨rfl, rfl⟩))
  have bare : startsBare kind = true := by cases kind <;> first | rfl | cases proper
  exact unary_attached (here ▸ bare) (attachedOperand_reads (by decide) reads (attached formal rest))

private theorem paren {inner : Formula} (far : env.stream.size + 1 < env.options.lookaheadLimit) (breaks : env.stream.Breaks (i + 1))
    (opener : env.stream.kindAt i = .leftParen) (closer : env.stream.kindAt j = .rightParen)
    (reads : ReadsNode env level (i + 1) anyExpression inner.shape j) : Readable env level (.paren inner) i (j + 1) := by
  refine .of_operand fun _ after k rest => ?_
  have forms : Forms env level i parenExpr fun row k =>
      row = [.node .parenExpr [.token .leftParen 1, inner.shape, .token .rightParen 1]] ∧ k = j + 1 := by
    have inside : ReadsNode env level (i + 1) (bracketed anyExpression) inner.shape j := .withNoLambda reads
    refine Follows.forms_node (by decide) <| .consumeThen opener (by decide) <| inside.discard.bind fun _ row k given => ?_
    obtain ⟨rfl, rfl⟩ := given
    exact .require closer (by decide) ⟨rfl, rfl⟩
  have operand : ReadsNode env level i (operandOf .parenthesized) after k := fun s here deep => by
    refine .bind (forms s here deep) fun first row t wrote given => ?_
    obtain ⟨roots, rfl, there⟩ := given
    exact (attached formal rest).found s t first wrote roots there deep
  have bracketed : ReadsNode env level i parenOperand after k := fun s here deep => by
    have decided : parenKindHere.exec env Grammar.rule s = some (.ok (.parenthesized, s)) := by
      unfold parenKindHere
      rw [Program.exec_bind, Program.exec_act]
      refine exec_decideBy ?_
      rw [State.cursor, here]
      exact Lookahead.parenKind_clear formal far breaks s.noLambda
    obtain ⟨found, t, ran, given⟩ := operand s here deep
    refine ⟨found, t, ?_, given⟩
    rw [parenOperand, Program.exec_bind, decided, Program.andThen_ok, ran]
  refine .look ?_
  rw [TokenCursor.nth_eq, Nat.add_zero, opener]
  exact .call bracketed

end Operands

private theorem incrementStep_carries {op : Kind} (here : env.stream.kindAt i = op) (proper : op.trailsOperand = true) :
    CarriesSome env level i incrementStep shape (.node .postfixExpr [shape, .token op 1]) (i + 1) := by
  intro base s first wrote roots at_i deep
  refine .look wrote fun t tried before => ?_
  have kind : (s.cursor env).nth 0 = op := by rw [TokenCursor.nth_eq, State.cursor, at_i, Nat.add_zero, here]
  rw [kind]
  have around : Carries env level i (fun node => Parser.around node do
      consumeAny
      return .postfixExpr) shape (.node .postfixExpr [shape, .token op 1]) (i + 1) := by
    have taken : Follows env level i consumeAny fun _ row k => row = [.token op 1] ∧ k = i + 1 :=
      .consumeAny here (by rintro rfl; cases proper) ⟨rfl, rfl⟩
    refine .around (by decide) <| taken.bind fun _ row k given => ?_
    obtain ⟨rfl, rfl⟩ := given
    exact .pure ⟨rfl, rfl, rfl⟩
  have larger := around.found base t first before (roots.kept tried.events) (tried.position.trans at_i) deep
  cases op <;> first | exact larger | cases proper

private theorem trailing {operand : Formula} {proper : op.trailsOperand = true} (tight : .operand ≤ operand.power)
    (here : env.stream.kindAt j = op) (readable : Readable env level operand i j) :
    Readable env level (.trailing operand op proper) i (j + 1) := by
  refine .of_operand fun _ _ _ rest => readable.operand tight ?_ (.loopOn (incrementStep_carries here proper) rest)
  rw [here]
  rintro rfl
  cases proper

private theorem leading {operand : Formula} {proper : op.leadsOperand = true} (tight : .unary ≤ operand.power)
    (room : level.depth < env.options.maxDepth) (here : env.stream.kindAt i = op)
    (readable : Readable env level.deeper operand (i + 1) j) : Readable env level (.leading op proper operand) i j := by
  refine .of_whole rfl fun ends bracket => ?_
  have forms : Forms env level i prefixExpr fun row k => row = [.node .prefixExpr [.token op 1, operand.shape]] ∧ k = j := by
    have taken : Follows env level i consumeAny fun _ row k => row = [.token op 1] ∧ k = i + 1 :=
      .consumeAny here (by rintro rfl; cases proper) ⟨rfl, rfl⟩
    have reads : ReadsNode env level (i + 1) (nested none (call .unary)) operand.shape j :=
      .nested room (.call (readable.whole tight ends bracket))
    refine Follows.forms_node (by decide) <| taken.bind fun _ row k given => ?_
    obtain ⟨rfl, rfl⟩ := given
    exact reads.discard.weaken fun _ row k given => by
      obtain ⟨rfl, rfl⟩ := given
      exact ⟨rfl, rfl⟩
  refine .look ?_
  rw [TokenCursor.nth_eq, Nat.add_zero, here]
  cases op <;> first | exact .always forms | cases proper

end Readable

private theorem Closes.of_operator (found : Operator.at? ⟨env.stream, i⟩ = some ⟨op, m, least⟩) (lays : env.stream.Lays op.written i j)
    (proper : op.isInfix = true) (loose : least < more) : Closes env i more := by
  have all : ∀ kind ∈ Kind.all, kind.isInfix = true → endsOperand kind = true ∧ kind ≠ .leftParen := by decide +kernel
  obtain ⟨kind, joint, rest, split, infixed, -⟩ := Kind.first_written proper
  rw [split] at lays
  obtain ⟨ends, bracket⟩ := all kind (Kind.mem_all kind) infixed
  refine ⟨lays.1 ▸ ends, lays.1 ▸ bracket, fun other same => ?_⟩
  cases found.symm.trans same
  exact loose

namespace Readable

/-- A left side, an operator that it binds at least as tightly as, and what the operator takes behind it. -/
theorem of_left {op : Operator} {kind : Kind} {back : List Shape} (first : Readable env level left i m)
    (found : Operator.at? ⟨env.stream, m⟩ = some op) (ended : Closes env m left.bound) (le : op.power ≤ left.power)
    (power : formula.power = op.power) (loose : op.power < .unary) (named : kind ≠ .tombstone)
    (shape : formula.shape = .node kind (left.shape :: back))
    (reads : Closes env j formula.bound → Follows env level m (operation op) fun answer row k => answer = kind ∧ row = back ∧ k = j) :
    Readable env level formula i j := by
  refine .of_operators (power ▸ loose) fun tight closes _ _ rest => ?_
  rw [power] at tight
  rw [shape] at rest
  exact first.operators (Nat.le_trans tight le) ended (.loopOn (operatorStep_carries found tight named (reads closes)) rest)

section Infix

variable (room : level.depth < env.options.maxDepth) (lays : env.stream.Lays op.written m l)
  (starts : (env.stream.kindAt l).startsFormula = true) (first : Readable env level left i m)
  (second : Readable env level.deeper right l j)

include lays starts

/-- An operator in front of an operand is found, and there is more of the input behind it. -/
theorem at_operator {power : Power} (found : Operator.power? op = some power) :
    Operator.at? ⟨env.stream, m⟩ = some ⟨op, op.written.length, power⟩ ∧ l = m + op.written.length ∧ l < env.stream.size := by
  have away {kind : Kind} (other : kind.startsFormula = false) : env.stream.kindAt l ≠ kind := by
    rintro rfl
    rw [starts] at other
    cases other
  exact ⟨Operator.at_written found lays (away rfl) (away rfl), lays.stop, TokenStream.lt_size_of_ne_eof rfl (away rfl)⟩

include room first second

private theorem binary {proper : op.isBinary = true} (le : op.power ≤ left.power) (less : op.power < right.power) :
    Readable env level (.binary op proper left right) i j := by
  obtain ⟨power, tight, loose, plain, other⟩ := Kind.power_of_binary proper
  obtain ⟨found, rfl, inside⟩ := at_operator lays starts power
  have bound : op.power < left.bound := by
    cases left with
    | binary => exact Nat.lt_succ_of_le le
    | name | literal | trailing | paren => exact Nat.lt_trans loose (show Power.unary < .operand by decide)
    | leading => exact loose
    | conditional => exact absurd (Nat.lt_of_lt_of_le tight le) (Nat.lt_irrefl _)
    | assign => exact absurd (Nat.lt_of_lt_of_le tight le) (show ¬ Power.conditional < .assignment by decide)
  refine first.of_left found (.of_operator found lays (Kind.isInfix_of_binary proper) bound) le rfl loose (by decide) rfl fun closes => ?_
  exact operation_binary ⟨plain, other⟩ (Nat.ne_of_gt (Nat.lt_trans (by decide) tight)) inside (second.expression room less closes)

private theorem assign {proper : op.isAssignment = true} (le : .conditional ≤ left.power) (le' : .assignment ≤ right.power) :
    Readable env level (.assign op proper left right) i j := by
  have power : Operator.power? op = some .assignment := beq_iff_eq.mp proper
  obtain ⟨found, rfl, inside⟩ := at_operator lays starts power
  have bound : .assignment < left.bound := Nat.lt_of_lt_of_le (by decide) (Nat.le_trans le left.power_le_bound)
  have plain : op ≠ .instanceofKw ∧ op ≠ .question := by constructor <;> (rintro rfl; cases proper)
  refine first.of_left found (.of_operator found lays (Kind.isInfix_of_assignment proper) bound)
    (Nat.le_trans (show Power.assignment ≤ .conditional by decide) le) rfl (show Power.assignment < .unary by decide) (by decide) rfl
    fun closes => ?_
  exact operation_assign plain rfl inside (second.expression room le' closes)

end Infix

private theorem conditional {condition yes no : Formula} (room : level.depth < env.options.maxDepth)
    (le : .logicalOr ≤ condition.power) (le' : .conditional ≤ no.power) (question : env.stream.kindAt m = .question)
    (colon : env.stream.kindAt l = .colon) (first : Readable env level condition i m)
    (second : Readable env level.deeper yes (m + 1) l) (third : Readable env level.deeper no (l + 1) j) :
    Readable env level (.conditional condition yes no) i j := by
  have current : (⟨env.stream, m⟩ : TokenCursor).current = .question := (TokenCursor.nth_eq _ 0).trans question
  have found : Operator.at? ⟨env.stream, m⟩ = some ⟨.question, 1, .conditional⟩ := by
    rw [Operator.at?, current]
    rfl
  have bound : .conditional < condition.bound := Nat.lt_of_lt_of_le (by decide) (Nat.le_trans le condition.power_le_bound)
  have ended : Closes env m condition.bound := by
    refine ⟨question ▸ rfl, by rw [question]; decide, fun op same => ?_⟩
    cases found.symm.trans same
    exact bound
  refine first.of_left found ended (Nat.le_trans (by decide) le) rfl (by decide) (by decide) rfl fun closes => ?_
  exact operation_conditional rfl question colon (second.expression room yes.assignment_le_power (.of_kind colon rfl (by decide)))
    (third.expression room le' closes)

end Readable

/-- An expression whose operands all are where they may be is read as its tree, wherever its tokens stand. -/
theorem readable_of_placed (formal : env.stream.Formal) (far : env.stream.size + 1 < env.options.lookaheadLimit)
    (placed : formula.Placed) (sound : level.sound = true) (deep : level.depth + formula.size ≤ env.options.maxDepth + 1)
    (lays : env.stream.Lays formula.written i j) : Readable env level formula i j := by
  induction formula generalizing level i j with
  | name =>
    obtain ⟨here, -, rfl⟩ := lays
    exact .name formal sound here
  | literal kind proper =>
    obtain ⟨here, -, rfl⟩ := lays
    exact .literal formal here
  | leading op proper operand ih =>
    obtain ⟨here, -, behind⟩ := lays
    have some := operand.size_pos
    simp only [Formula.size] at deep
    exact .leading placed.1 (by omega) here (ih placed.2 sound (by simp only [Level.deeper_depth]; omega) behind)
  | trailing operand op proper ih =>
    obtain ⟨k, inside, here, -, rfl⟩ := TokenStream.lays_append.mp lays
    simp only [Formula.size] at deep
    exact .trailing placed.1 here (ih placed.2 sound (by omega) inside)
  | binary op proper left right ih ih' =>
    obtain ⟨k, first, rest⟩ := TokenStream.lays_append.mp lays
    obtain ⟨l, between, second⟩ := TokenStream.lays_append.mp rest
    have some := left.size_pos
    have some' := right.size_pos
    simp only [Formula.size] at deep
    obtain ⟨le, less, placed, placed'⟩ := placed
    exact .binary (by omega) between (Formula.starts second) (ih placed sound (by omega) first)
      (ih' placed' sound (by simp only [Level.deeper_depth]; omega) second) le less
  | assign op proper left right ih ih' =>
    obtain ⟨k, first, rest⟩ := TokenStream.lays_append.mp lays
    obtain ⟨l, between, second⟩ := TokenStream.lays_append.mp rest
    have some := left.size_pos
    have some' := right.size_pos
    simp only [Formula.size] at deep
    obtain ⟨le, less, placed, placed'⟩ := placed
    exact .assign (by omega) between (Formula.starts second) (ih placed sound (by omega) first)
      (ih' placed' sound (by simp only [Level.deeper_depth]; omega) second) le less
  | conditional condition yes no ih ih' ih'' =>
    obtain ⟨k, first, question, -, rest⟩ := TokenStream.lays_append.mp lays
    obtain ⟨l, second, colon, -, third⟩ := TokenStream.lays_append.mp rest
    have some := condition.size_pos
    simp only [Formula.size] at deep
    obtain ⟨le, le', placed, placed', placed''⟩ := placed
    exact .conditional (by omega) le le' question colon (ih placed sound (by omega) first)
      (ih' placed' sound (by simp only [Level.deeper_depth]; omega) second)
      (ih'' placed'' sound (by simp only [Level.deeper_depth]; omega) third)
  | paren inner ih =>
    obtain ⟨opener, -, rest⟩ := lays
    obtain ⟨k, inside, closer, -, rfl⟩ := TokenStream.lays_append.mp rest
    have some := inner.size_pos
    simp only [Formula.size] at deep
    have breaks := (Formula.conjoined_or inside).resolve_left fun both => placed.1 both.1
    have readable := ih placed.2 (show level.deeper.sound = true from sound) (by simp only [Level.deeper_depth]; omega) inside
    exact .paren formal far breaks opener closer
      (readable.expression (by omega) inner.assignment_le_power (.of_kind closer rfl (by decide)))

end Reading

end Grammar

namespace Formula

variable {formula : Formula}

private theorem proper (formula : Formula) : formula.shape.Proper := by
  have infixed : ∀ op ∈ Kind.all, op.isInfix = true → op.isToken = true := by decide +kernel
  have inside : ∀ kind ∈ Kind.all, kind.inFormula = true → kind.isToken = true := by decide +kernel
  have leads {op : Kind} (proper : op.leadsOperand = true) : op.isToken = true :=
    inside op (Kind.mem_all op) (Kind.inFormula_of_leading proper)
  induction formula with
  | name => exact ⟨rfl, rfl, trivial⟩
  | literal kind proper => exact ⟨rfl, inside kind (Kind.mem_all kind) (Kind.inFormula_of_literal proper), trivial⟩
  | leading op proper operand ih => exact ⟨rfl, leads proper, ih, trivial⟩
  | trailing operand op proper ih => exact ⟨rfl, ih, leads (Kind.leads_of_trails proper), trivial⟩
  | binary op proper left right ih ih' =>
    exact ⟨rfl, ih, infixed op (Kind.mem_all op) (Kind.isInfix_of_binary proper), ih', trivial⟩
  | assign op proper left right ih ih' =>
    exact ⟨rfl, ih, infixed op (Kind.mem_all op) (Kind.isInfix_of_assignment proper), ih', trivial⟩
  | conditional condition yes no ih ih' ih'' => exact ⟨rfl, ih, rfl, ih', rfl, ih'', trivial⟩
  | paren inner ih => exact ⟨rfl, rfl, ih, rfl, trivial⟩

/-- An expression of names, literals, brackets and operators, each operand of which holds together as tightly as its
place asks for, parses to the tree it was written from: nothing is grouped otherwise, taken for a cast or for type
arguments, or reported. -/
theorem parses {stream : TokenStream} {options : ParseOptions} (placed : formula.Placed)
    (deep : 2 * formula.size < options.maxDepth) (far : formula.written.length + 2 < options.lookaheadLimit)
    (lays : stream.Lays (formula.written ++ [(.eof, false)]) 0 stream.size) :
    ∃ parse, Parse.run Grammar.expressionRoot stream options = .ok parse ∧ parse.diagnostics = [] ∧ parse.state = .normal ∧
      formula.shape.Depicts (.node parse.root) := by
  have formal := TokenStream.Formal.of_lays lays
  have size := lays.stop
  obtain ⟨j, inside, ended, -⟩ := TokenStream.lays_append.mp lays
  simp only [List.length_append, List.length_singleton] at size
  have some := formula.size_pos
  let env : Env := { stream, options }
  have readable : Grammar.Readable env Grammar.Level.top.deeper formula 0 j :=
    Grammar.readable_of_placed formal (show stream.size + 1 < options.lookaheadLimit by omega) placed rfl
      (show 0 + 1 + formula.size ≤ options.maxDepth + 1 by omega) inside
  have reads : Grammar.ReadsNode env .top 0 Grammar.anyExpression formula.shape j :=
    readable.expression (show 0 < options.maxDepth by omega) formula.assignment_le_power (.of_kind ended rfl (by decide))
  have delivers := Grammar.expressionRoot_delivers reads ended
  have proper := formula.proper
  cases formula <;> exact Parse.run_of_delivers proper delivers

/-- Every sort of operator, with `<` behind a name, a bracketed operand and operators of several `>`. -/
theorem parses_mixed :
    ∃ parse, Parse.run Grammar.expressionRoot (.lex "a>>=b<c>>>2?-(x+y)++:d&e") {} = .ok parse ∧ parse.diagnostics = [] ∧
      parse.root.kind = .assignExpr := by
  let condition : Formula := .binary .lt rfl .name (.binary .ushr rfl .name (.literal .intLiteral rfl))
  let yes : Formula := .leading .minus rfl (.trailing (.paren (.binary .plus rfl .name .name)) .plusPlus rfl)
  let formula : Formula := .assign .shrEq rfl .name (.conditional condition yes (.binary .amp rfl .name .name))
  have placed : formula.Placed := by decide
  have lays : (TokenStream.lex "a>>=b<c>>>2?-(x+y)++:d&e").Lays (formula.written ++ [(.eof, false)]) 0
      (TokenStream.lex "a>>=b<c>>>2?-(x+y)++:d&e").size := by decide +kernel
  have deep : 2 * formula.size < ({} : ParseOptions).maxDepth := by decide
  obtain ⟨parse, ran, clean, -, shown⟩ := parses placed deep (by decide) lays
  exact ⟨parse, ran, clean, shown.1⟩

end Formula

end LosslessJava
