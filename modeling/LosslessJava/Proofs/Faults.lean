import LosslessJava.Grammar
import LosslessJava.Proofs.Runs
import LosslessJava.Proofs.State

/-! Where the grammar goes wrong. Some rules decide what stands at the current token, do something
that may fail, and consume the token afterwards without looking again; one loop goes round without
moving. Each such place is told by a state in which it does harm. -/

namespace LosslessJava.Parser.Program

variable {N : Type → Type}

/-- Rounds of a loop lead from a value and a state to others. -/
inductive Rounds (env : Env) (rules : (α : Type) → N α → Program N α) {α : Type}
    (step : α → Program N (Option α)) (a : α) (s : State) : α → State → Prop where
  | refl : Rounds env rules step a s a s
  | next {b c t u} (earlier : Rounds env rules step a s b t)
      (ran : (step b).exec env rules t = some (.ok (some c, u))) : Rounds env rules step a s c u

end LosslessJava.Parser.Program

namespace LosslessJava.Grammar

open LosslessJava.Parser Lookahead

variable (env : Env)

/-- A wildcard is made out ahead, but no `?` stands where its annotations end. -/
def MisledWildcard (s : State) : Prop :=
  ∃ seen found t, seesWildcard.exec env rule s = some (.ok (true, seen)) ∧
    annotations.exec env rule seen.start = some (.ok (found, t)) ∧ t.current env ≠ .question

/-- Clauses come to one that is out of order, and the report of it gives the input up. -/
def MisplacedClause (forms : List ClauseForm) (s : State) : Prop :=
  env.options.mode = .strict ∧ ∃ last t index form u,
    Program.Rounds env rule (clauseStep forms) none s last t ∧
      (clauseHere 0 forms).exec env rule t = some (.ok (some (index, form), u)) ∧
      last.any (index ≤ ·) ∧ u.Good env ∧ u.current env ≠ .eof ∧ form.1 ≠ .eof

/-- A label ends in the other way than those before it, and the report of it gives the input up. -/
def MixedLabel (form : Option Kind) (s : State) : Prop :=
  env.options.mode = .strict ∧ s.Good env ∧ (s.current env = .colon ∨ s.current env = .arrow) ∧
    form.getD (s.current env) ≠ s.current env

/-- It takes too many tokens to tell what a `(` opens, and the report of it gives the input up. -/
def UndecidedParen (s : State) : Prop :=
  env.options.mode = .strict ∧ s.Good env ∧ s.current env = .leftParen ∧
    ∃ kind, (parenKind s.noLambda).decide (s.cursor env) env.options.lookaheadLimit = some (kind, true)

/-- It takes too many tokens to tell a name from an array type, so it is taken for a name, and the
report of it gives the input up. -/
def UndecidedName (s : State) : Prop :=
  env.options.mode = .strict ∧ s.Good env ∧ s.current env = .identifier ∧
    ((s.cursor env).nth 1 = .leftBracket ∨ (s.cursor env).nth 1 = .dot) ∧
    (Lookahead.succeeds isArrayTypeLiteral).decide (s.cursor env) env.options.lookaheadLimit = some (false, true)

/-- One round of a list of lambda parameters. -/
def lambdaRound : Rule Bool :=
  delimitedRound .rightParen .comma "lambda parameter" First.type lambdaElement

/-- A lambda parameter is looked for at `@interface`, where there is no annotation and no type but
where another parameter could start. -/
def StuckParam (s : State) : Prop :=
  env.options.mode = .lenient ∧ s.Good env ∧ s.current env = .atSign ∧
    (s.cursor env).nth 1 = .interfaceKw ∧ s.depth < env.options.maxDepth

/-- A list of lambda parameters comes to a place where it goes round without end. -/
def StuckParamList (s : State) : Prop :=
  ∃ t u, s.start.consume env .leftParen = .ok t ∧
    Program.Rounds env rule (fun _ => stepTo () lambdaRound) () t () u ∧ StuckParam env u

/-- What is to be blamed where a parse stops or does not end. -/
def faults : Program.Faults Nonterminal where
  halts _ name s :=
    match name with
    | .typeArg => MisledWildcard env s
    | .clauses forms => MisplacedClause env forms s
    | .terminator form => MixedLabel env form s
    | .parenOperand => UndecidedParen env s
    | .simpleName => UndecidedName env s
    | _ => False
  sticks _ name s :=
    match name with
    | .lambdaParamList => StuckParamList env s
    | _ => False

/-- What follows a type makes no expression of it. -/
def Unsuffixed (s : State) : Prop :=
  s.current env ≠ .eof ∧ s.current env ≠ .colonColon ∧
    ¬ (s.current env = .dot ∧ (s.cursor env).nth 1 = .classKw)

/-- The operand that stands here is a type of which nothing makes an expression, and the report of
that gives the input up. -/
def BareType (s : State) : Prop :=
  env.options.mode = .strict ∧ ∃ type t, Unsuffixed env t ∧
    ((s.current env = .voidKw ∨ (s.current env).isPrimitiveType) ∧
        resultType.exec env rule s = some (.ok (some type, t)) ∨
      s.current env = .identifier ∧
        ((s.cursor env).nth 1 = .leftBracket ∨ (s.cursor env).nth 1 = .dot) ∧
        ∃ seen, seesArrayTypeLiteral.exec env rule s = some (.ok (true, seen)) ∧
          (call .type : Rule (Option Completed)).exec env rule seen = some (.ok (some type, t)))

/-- The expression that stands here is a type that stands by itself. -/
def BareExpression (s : State) : Prop := s.depth < env.options.maxDepth ∧ BareType env s.enter

end LosslessJava.Grammar
