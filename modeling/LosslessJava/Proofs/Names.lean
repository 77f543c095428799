import LosslessJava.Proofs.Operands
import LosslessJava.Proofs.Scans
import LosslessJava.Proofs.LookaheadLimits

/-! Names as expressions, by themselves and with round brackets behind them, and what may stand behind an expression
so that it ends there. -/

namespace LosslessJava.Grammar

open LosslessJava.Parser

variable {env : Env} {level : Level} {i j : Nat} {shape : Shape} {least : Power}

/-- A decision that does not run into the limit answers, and does nothing else. -/
theorem decideBy_follows {α : Type} [Inhabited α] {what : String} {peek : Lookahead.Peek α} {a : α}
    (clear : Lookahead.Clear ⟨⟨env.stream, i⟩, env.options.lookaheadLimit⟩ peek a) :
    Follows env level i (decideBy what peek) fun found row j => found = a ∧ row = [] ∧ j = i := by
  intro s here _
  have cursor : s.cursor env = ⟨env.stream, i⟩ := by rw [State.cursor, here]
  exact ⟨a, s, exec_decideBy (cursor ▸ clear), [], .refl, rfl, rfl, here⟩

/-- A test that is not made. -/
instance {rule : Rule Bool} : Views env (Pure.pure false <&&> rule) fun _ => false :=
  ⟨fun s => ⟨s, by
    refine (Program.exec_bind _ _ _).trans ?_
    rw [Program.exec_return, Program.andThen_ok]
    exact Program.exec_return _ _, rfl⟩⟩

structure EndsPlain (kind : Kind) : Prop where
  arrow : kind ≠ .arrow
  bracket : kind ≠ .leftBracket
  dot : kind ≠ .dot

def nameNode : Shape := .node .nameExpr [.token .identifier 1]

def callNode : Shape := .node .methodCall [.token .identifier 1, .node .argList [.token .leftParen 1, .token .rightParen 1]]

private theorem argList_none (opener : env.stream.kindAt i = .leftParen) (closer : env.stream.kindAt (i + 1) = .rightParen) :
    Follows env level i argList fun _ row j =>
      row = [.node .argList [.token .leftParen 1, .token .rightParen 1]] ∧ j = i + 2 := by
  refine .node (by decide) <| .withNoLambda <| .consumeThen opener (by decide) ?_
  have none : Follows env level (i + 1) (loop (delimitedRound .rightParen .comma "argument" First.expression do
      return (← anyExpression).isSome)) fun _ row k => row = [] ∧ k = i + 1 := by
    refine .loopEnd <| .look ?_
    rw [TokenCursor.nth_eq, Nat.add_zero, closer, if_pos (by simp)]
    exact .pure ⟨rfl, rfl, rfl⟩
  refine none.bind fun _ row k given => ?_
  obtain ⟨rfl, rfl⟩ := given
  exact .require closer (by decide) ⟨rfl, rfl⟩

theorem callOr_plain {plain : Kind} (away : env.stream.kindAt i ≠ .leftParen) :
    Follows env level i (callOr plain) fun kind row j => kind = plain ∧ row = [] ∧ j = i := by
  refine .look ?_
  rw [TokenCursor.nth_eq, Nat.add_zero, beq_eq_false_iff_ne.mpr away]
  exact .pure ⟨rfl, rfl, rfl⟩

private theorem callOr_call {plain : Kind} (opener : env.stream.kindAt i = .leftParen)
    (closer : env.stream.kindAt (i + 1) = .rightParen) :
    Follows env level i (callOr plain) fun kind row j => kind = .methodCall ∧
      row = [.node .argList [.token .leftParen 1, .token .rightParen 1]] ∧ j = i + 2 := by
  refine .look ?_
  rw [TokenCursor.nth_eq, Nat.add_zero, opener, if_pos (by rfl)]
  refine (argList_none opener closer).bind fun _ row j given => ?_
  obtain ⟨rfl, rfl⟩ := given
  exact .pure ⟨rfl, by simp, rfl⟩

theorem plainName_forms {kind : Kind} {back : List Shape} (here : env.stream.kindAt i = .identifier)
    (named : kind ≠ .tombstone)
    (rest : Follows env level (i + 1) (callOr .nameExpr) fun found row k => found = kind ∧ row = back ∧ k = j) :
    Forms env level i plainName fun row k => row = [.node kind (.token .identifier 1 :: back)] ∧ k = j := by
  intro s at_i deep
  have inner : Follows env level i (do consume .identifier; callOr .nameExpr) fun found row k =>
      found = kind ∧ row = .token .identifier 1 :: back ∧ k = j :=
    .consumeThen here (by decide) <| rest.weaken fun found row k given => by
      obtain ⟨rfl, rfl, rfl⟩ := given
      exact ⟨rfl, rfl, rfl⟩
  exact .nodeOf (P := fun row k => row = [.node kind (.token .identifier 1 :: back)] ∧ k = j) <|
    (inner s.start at_i deep.start).weaken fun found row t _ given => by
      obtain ⟨rfl, rfl, there⟩ := given
      exact ⟨named, rfl, there⟩

theorem simpleName_reads (next : EndsPlain (env.stream.kindAt (i + 1)))
    (name : Forms env level i plainName fun row k => row = [shape] ∧ k = j) :
    ReadsNode env level i (call .simpleName) shape j := by
  refine FormsSome.call ?_
  refine .look ?_
  have away : ((⟨env.stream, i⟩ : TokenCursor).nth 1 == .leftBracket || (⟨env.stream, i⟩ : TokenCursor).nth 1 == .dot) = false := by
    simp [TokenCursor.nth_eq, next.bracket, next.dot]
  rw [away]
  refine .look ?_
  exact .always name

theorem nameExpr_plain (next : EndsPlain (env.stream.kindAt (i + 1))) (angle : env.stream.kindAt (i + 1) ≠ .lt)
    (name : Forms env level i plainName fun row k => row = [shape] ∧ k = j) : ReadsNode env level i nameExpr shape j := by
  refine .look <| .askNoLambda fun noLambda => ?_
  rw [TokenCursor.nth_eq, if_neg (fun both => next.arrow both.1), if_neg angle]
  exact simpleName_reads next name

/-- An operand is all of an expression if what stands behind it ends expressions. -/
theorem operand_alone {kind : Kind} {children : List Shape} (plain : kind ≠ .lambdaExpr)
    (room : level.depth < env.options.maxDepth) (bare : startsBare (env.stream.kindAt i) = true)
    (operand : ReadsNode env level.deeper i primary (.node kind children) j)
    (ends : endsExpression (env.stream.kindAt j) = true) :
    ReadsNode env level i (call (.expression least)) (.node kind children) j := by
  have ⟨alone, last⟩ := Bool.and_eq_true_iff.mp ends
  have attached := attachedOperand_reads plain operand (postfixExpr_carries alone)
  refine expression_reads room (unary_attached bare attached) <| .loopEnd <| operatorStep_rests fun op found => ?_
  rw [at_none last] at found
  cases found

theorem name_reads (room : level.depth < env.options.maxDepth) (here : env.stream.kindAt i = .identifier)
    (next : EndsPlain (env.stream.kindAt (i + 1))) (paren : env.stream.kindAt (i + 1) ≠ .leftParen)
    (ends : endsExpression (env.stream.kindAt (i + 1)) = true) :
    ReadsNode env level i (call (.expression least)) nameNode (i + 1) := by
  have angle : env.stream.kindAt (i + 1) ≠ .lt := by
    intro same
    rw [same] at ends
    cases ends
  refine operand_alone (by decide) room (by rw [here]; rfl) (primary_nameExpr here (nameExpr_plain next angle ?_)) ends
  exact plainName_forms here (by decide) (callOr_plain paren)

/-- A call without arguments is an expression. -/
theorem call_reads (room : level.depth < env.options.maxDepth) (here : env.stream.kindAt i = .identifier)
    (opener : env.stream.kindAt (i + 1) = .leftParen) (closer : env.stream.kindAt (i + 2) = .rightParen)
    (ends : endsExpression (env.stream.kindAt (i + 3)) = true) :
    ReadsNode env level i (call (.expression least)) callNode (i + 3) := by
  have next : EndsPlain (env.stream.kindAt (i + 1)) := by rw [opener]; exact ⟨by decide, by decide, by decide⟩
  refine operand_alone (by decide) room (by rw [here]; rfl)
    (primary_nameExpr here (nameExpr_plain next (by rw [opener]; decide) ?_)) ends
  exact plainName_forms here (by decide) (callOr_call opener closer)

end LosslessJava.Grammar
