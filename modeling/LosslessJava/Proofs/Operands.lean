import LosslessJava.Proofs.PredictedParses

/-! Operands, and what is read behind them: the way from the rule for an expression down to that for an
operand and back, if nothing is attached to the operand and no operator stands behind it. -/

namespace LosslessJava.Grammar

open LosslessJava.Parser

variable {env : Env} {level : Level} {i j k : Nat} {shape before after : Shape}

def endsOperand (kind : Kind) : Bool :=
  match kind with
  | .dot | .leftBracket | .colonColon | .plusPlus | .minusMinus => false
  | _ => true

def endsSelection (kind : Kind) : Bool :=
  match kind with
  | .dot | .leftBracket | .colonColon => false
  | _ => true

private theorem endsSelection_of_operand {kind : Kind} (ends : endsOperand kind = true) : endsSelection kind = true := by
  unfold endsSelection
  split <;> first | rfl | cases ends

def endsExpression (kind : Kind) : Bool := endsOperand kind && (Operator.power? kind).isNone

/-- A step that looks at the current token, and finds nothing there that it goes on with. -/
theorem rests_of_look {next : Kind → Completed → Rule (Option Completed)}
    (stays : ∀ node, next (env.stream.kindAt i) node = Pure.pure none) :
    Rests env i fun node => current >>= fun kind => next kind node := by
  intro first s here
  have looks : Views env current fun cursor => cursor.nth 0 := inferInstance
  obtain ⟨t, ran, tried⟩ := looks.views s
  refine ⟨t, ?_, tried⟩
  have kind : (s.cursor env).nth 0 = env.stream.kindAt i := by
    rw [TokenCursor.nth_eq, State.cursor, here]
    rfl
  rw [Program.exec_bind, ran, Program.andThen_ok, kind, stays]
  exact Program.exec_return _ _

theorem postfixStep_rests (ends : endsSelection (env.stream.kindAt i) = true) : Rests env i postfixStep := by
  refine rests_of_look fun node => ?_
  split
  · next here => rw [here] at ends; cases ends
  · next here => rw [here] at ends; cases ends
  · next here => rw [here] at ends; cases ends
  · rfl

theorem incrementStep_rests (ends : endsOperand (env.stream.kindAt i) = true) : Rests env i incrementStep := by
  refine rests_of_look fun node => ?_
  split
  · next here => rw [here] at ends; cases ends
  · next here => rw [here] at ends; cases ends
  · rfl

theorem postfixExpr_carries (ends : endsOperand (env.stream.kindAt i) = true) :
    Carries env level i postfixExpr shape shape i :=
  .andThen (.loopEnd (postfixStep_rests (endsSelection_of_operand ends))) (.loopEnd (incrementStep_rests ends))

/-- A loop over operators rests where an operator stands that binds too loosely, or none. -/
theorem operatorStep_rests {least : Power} (loose : ∀ op, Operator.at? ⟨env.stream, i⟩ = some op → op.power < least) :
    Rests env i (operatorStep least) := by
  intro first s here
  have looks : Views env Parser.cursor id := inferInstance
  obtain ⟨t, ran, tried⟩ := looks.views s
  refine ⟨t, ?_, tried⟩
  have cursor : id (s.cursor env) = ⟨env.stream, i⟩ := by rw [id, State.cursor, here]
  rw [operatorStep, Program.exec_bind, ran, Program.andThen_ok, cursor]
  split
  · next op found =>
    rw [if_pos (loose op found)]
    exact Program.exec_return _ _
  · exact Program.exec_return _ _

theorem at_none (ends : (Operator.power? (env.stream.kindAt i)).isNone = true) : Operator.at? ⟨env.stream, i⟩ = none := by
  have here : (⟨env.stream, i⟩ : TokenCursor).current = env.stream.kindAt i := by
    rw [TokenCursor.current, TokenCursor.nth_eq, Nat.add_zero]
  have away : env.stream.kindAt i ≠ .gt := by
    intro same
    rw [same] at ends
    cases ends
  rw [Operator.at?, here, if_neg away, Option.isNone_iff_eq_none.mp ends, Option.map_none]

theorem primary_nameExpr (here : env.stream.kindAt i = .identifier) (reads : ReadsNode env level i nameExpr shape j) :
    ReadsNode env level i primary shape j := by
  refine .look ?_
  rw [TokenCursor.nth_eq, Nat.add_zero, here]
  exact reads

theorem attachedOperand_reads {kind : Kind} {children : List Shape} (plain : kind ≠ .lambdaExpr)
    (operand : ReadsNode env level i primary (.node kind children) j)
    (attached : Carries env level j postfixExpr (.node kind children) shape k) :
    ReadsNode env level i attachedOperand shape k := by
  intro s here deep
  refine .bind (operand s here deep) fun found row t wrote given => ?_
  obtain ⟨first, rfl, roots, rfl, there⟩ := given
  dsimp only
  rw [if_neg (kind_of_roots roots ▸ plain)]
  exact .bind (attached s t first wrote roots there deep) fun outer row u wrote given => .pure wrote ⟨outer, rfl, by simpa using given⟩

def startsBare (kind : Kind) : Bool :=
  match kind with
  | .plus | .minus | .plusPlus | .minusMinus | .bang | .tilde | .leftParen => false
  | _ => true

theorem unary_attached (bare : startsBare (env.stream.kindAt i) = true)
    (operand : ReadsNode env level i attachedOperand shape j) : ReadsNode env level i unary shape j := by
  refine .look ?_
  have kind : (⟨env.stream, i⟩ : TokenCursor).nth 0 = env.stream.kindAt i := TokenCursor.nth_eq _ 0
  rw [kind]
  split
  all_goals first | exact operand | (next here => rw [here] at bare; cases bare)

theorem expression_reads {least : Power} (room : level.depth < env.options.maxDepth)
    (operand : ReadsNode env level.deeper i unary before j)
    (operators : Carries env level.deeper j (fun node => loopFrom node (operatorStep least)) before after k) :
    ReadsNode env level i (call (.expression least)) after k := by
  refine .call <| .nested room fun s here deep => .bind (operand s here deep) fun found row t wrote given => ?_
  obtain ⟨first, rfl, roots, rfl, there⟩ := given
  exact .bind (operators s t first wrote roots there deep) fun outer row u wrote given => .pure wrote ⟨outer, rfl, by simpa using given⟩

theorem expressionRoot_delivers (reads : ReadsNode env .top 0 anyExpression shape i) (ended : env.stream.kindAt i = .eof) :
    Delivers env {} expressionRoot {} fun _ row _ => row = [shape] := by
  have inner : Delivers env (State.start {}) (do
      let expression ← anyExpression
      if ← pure expression.isSome <&&> sees .eof then
        return none
      else
        restOfInput
        return some Kind.error) (State.start {}) fun found row _ => found = none ∧ row = [shape] := by
    refine .bind (reads _ rfl Level.top_holds.start) fun found row t wrote given => ?_
    obtain ⟨first, rfl, -, rfl, there⟩ := given
    refine .look wrote fun u tried before => ?_
    have kind : (t.cursor env).nth 0 = .eof := by rw [TokenCursor.nth_eq, State.cursor, there, Nat.add_zero, ended]
    rw [kind, if_pos (by rfl)]
    exact .pure before ⟨rfl, rfl⟩
  have whole := Delivers.nodeIf (s := {}) (P := fun _ _ => False) (Q := fun row _ => row = [shape]) <|
    inner.weaken fun found row t _ given => by
      obtain ⟨rfl, same⟩ := given
      exact same
  refine .discard <| whole.weaken fun found row t _ given => ?_
  cases found with
  | none => exact given
  | some => exact given.2.elim

end LosslessJava.Grammar
