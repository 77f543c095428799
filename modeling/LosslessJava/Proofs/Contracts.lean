import LosslessJava.Ast.View
import LosslessJava.Grammar.Operator
import LosslessJava.Proofs.Brackets
import LosslessJava.Proofs.Shape

/-! What nodes hold where no error was reported: contracts between the kind of a node and the kinds
of its elements, and rows of shapes that keep them. -/

namespace LosslessJava

namespace Kind

/-- The kinds of expressions. This and the like below are reducible, so that a fact about a kind is
found by evaluation. -/
@[reducible] def isExpr : Kind → Bool
  | .literal | .nameExpr | .parenExpr | .thisExpr | .superExpr | .classLiteral | .fieldAccess => true
  | .methodCall | .arrayAccess | .newExpr | .arrayCreation | .methodRef | .lambdaExpr | .castExpr => true
  | .prefixExpr | .postfixExpr | .binaryExpr | .assignExpr | .conditionalExpr | .instanceofExpr => true
  | .switchExpr => true
  | _ => false

theorem isExpr_eq (kind : Kind) : kind.isExpr = (Ast.exprForm? kind).isSome := by cases kind <;> rfl

@[reducible] def isType : Kind → Bool
  | .primitiveType | .voidType | .classType | .arrayType | .wildcardType => true
  | .intersectionType | .unionType => true
  | _ => false

theorem isType_eq (kind : Kind) : kind.isType = (Ast.typeForm? kind).isSome := by cases kind <;> rfl

@[reducible] def isPattern : Kind → Bool
  | .typePattern | .recordPattern | .guardedPattern | .parenPattern => true
  | _ => false

theorem isPattern_eq (kind : Kind) : kind.isPattern = (Ast.patternForm? kind).isSome := by cases kind <;> rfl

@[reducible] def isStatement : Kind → Bool
  | .block | .localVarDecl | .localTypeDecl | .exprStmt | .emptyStmt | .labeledStmt | .ifStmt => true
  | .assertStmt | .whileStmt | .doWhileStmt | .forStmt | .foreachStmt | .tryStmt | .switchStmt => true
  | .returnStmt | .throwStmt | .breakStmt | .continueStmt | .yieldStmt | .synchronizedStmt => true
  | _ => false

/-- The kinds of nodes for the parameters of a lambda. They stand in lambdas, and in lists of lambdas. -/
@[reducible] def isLambdaPart : Kind → Bool
  | .lambdaParam | .lambdaParamList => true
  | _ => false

@[reducible] def hasLambdaPart : Kind → Bool
  | .lambdaExpr | .lambdaParamList => true
  | _ => false

/-- Whether a token or node of a kind may stand beside any others: it is neither a bracket nor for the parameters of
a lambda. -/
@[reducible] def isLoose : Kind → Bool
  | .leftParen | .rightParen | .leftBracket | .rightBracket | .leftBrace | .rightBrace => false
  | .lambdaParam | .lambdaParamList => false
  | _ => true

@[reducible] def isElement (kind : Kind) : Bool := kind.isNode && !kind.isLambdaPart

/-- Nodes with commas between them. -/
inductive Separated : List Kind → Prop
  | one {kind : Kind} (node : kind.isNode = true) : Separated [kind]
  | more {kind : Kind} {row : List Kind} (node : kind.isNode = true) (rest : Separated row) : Separated (kind :: .comma :: row)

/-- Elements between brackets: none, or nodes with commas between them. Behind the last one, another comma may stand
if that is allowed. -/
def Listed (opener closer : Kind) (trailing : Bool) (row : List Kind) : Prop :=
  ∃ inner, row = opener :: (inner ++ [closer]) ∧
    (inner = [] ∨ Separated inner ∨ trailing = true ∧ ∃ front, Separated front ∧ inner = front ++ [.comma])

def Admits : Kind → List Kind → Prop
  | .binaryExpr, row | .assignExpr, row =>
    ∃ left operator right, row = [left, operator, right] ∧ left.isExpr ∧
      (Grammar.Operator.power? operator).isSome ∧ right.isExpr
  | .conditionalExpr, row =>
    ∃ test yes no, row = [test, .question, yes, .colon, no] ∧ test.isExpr ∧ yes.isExpr ∧ no.isExpr
  | .instanceofExpr, row =>
    ∃ tested target, row = [tested, .instanceofKw, target] ∧ tested.isExpr ∧
      (target.isType ∨ target.isPattern)
  | .castExpr, row => ∃ type operand, row = [.leftParen, type, .rightParen, operand] ∧ type.isType ∧ operand.isExpr
  | .prefixExpr, row => ∃ operator operand, row = [operator, operand] ∧ operator.isToken ∧ operand.isExpr
  | .postfixExpr, row => ∃ operand operator, row = [operand, operator] ∧ operand.isExpr ∧ operator.isToken
  | .parenExpr, row | .condition, row => ∃ inner, row = [.leftParen, inner, .rightParen] ∧ inner.isExpr
  | .fieldAccess, row => ∃ receiver, row = [receiver, .dot, .identifier] ∧ receiver.isExpr
  | .ifStmt, row => ∃ branch rest, row = .ifKw :: .condition :: branch :: rest ∧ branch.isStatement
  | .argList, row | .paramList, row | .recordHeader, row | .patternList, row => Listed .leftParen .rightParen true row
  | .typeParamList, row | .typeArgList, row => Listed .lt .gt true row
  | .lambdaExpr, row => ∃ params body, row = [params, .arrow, body] ∧ params.isLambdaPart ∧ body.isElement
  | .lambdaParamList, row =>
    Listed .leftParen .rightParen false row ∧ ∀ part ∈ row, part.isNode = true → part = .lambdaParam
  | .lambdaParam, row => ∃ front, row = front ++ [.identifier] ∧ .identifier ∉ front
  | _, _ => True

/-- Whether a token or node of a kind takes no part in any contract. Brackets have to be closed, and
no error has to have been reported for tokens that are not recognized and for error nodes. -/
@[reducible] def isPlain : Kind → Bool
  | .leftParen | .rightParen | .leftBracket | .rightBracket | .leftBrace | .rightBrace => false
  | .binaryExpr | .assignExpr | .conditionalExpr | .instanceofExpr | .castExpr | .prefixExpr => false
  | .postfixExpr | .parenExpr | .condition | .fieldAccess | .ifStmt => false
  | .argList | .paramList | .recordHeader | .patternList | .typeParamList | .typeArgList => false
  | .lambdaExpr | .lambdaParam | .lambdaParamList => false
  | .unknown | .error | .tombstone => false
  | _ => true

variable {kind : Kind}

private theorem isBracket_of_isLoose (loose : kind.isLoose = true) : kind.isBracket = false := by
  cases kind <;> first | rfl | cases loose

theorem isLambdaPart_of_isLoose (loose : kind.isLoose = true) : kind.isLambdaPart = false := by
  cases kind <;> first | rfl | cases loose

theorem isLoose_of_isPlain (plain : kind.isPlain = true) : kind.isLoose = true := by
  cases kind <;> first | rfl | cases plain

theorem isBracket_of_isPlain (plain : kind.isPlain = true) : kind.isBracket = false :=
  isBracket_of_isLoose (isLoose_of_isPlain plain)

private theorem admits_of_isPlain (plain : kind.isPlain = true) (row : List Kind) : kind.Admits row := by
  cases kind <;> trivial

def Apart (row : List Kind) : Prop := ∀ part ∈ row, part.isLambdaPart = false

/-- A row closes its brackets, and has no parameters of a lambda. -/
structure Orderly (row : List Kind) : Prop where
  nested : WellNested row
  apart : Apart row

namespace Orderly

variable {row front back : List Kind}

theorem nil : Orderly [] := ⟨.nil, nofun⟩

theorem plain (loose : kind.isLoose = true) : Orderly [kind] :=
  ⟨.plain (isBracket_of_isLoose loose), List.forall_mem_singleton.mpr (isLambdaPart_of_isLoose loose)⟩

theorem append (first : Orderly front) (second : Orderly back) : Orderly (front ++ back) :=
  ⟨first.nested.append second.nested, List.forall_mem_append.mpr ⟨first.apart, second.apart⟩⟩

theorem cons (loose : kind.isLoose = true) (later : Orderly row) : Orderly (kind :: row) := (plain loose).append later

theorem between {opener closer : Kind} (closes : Parser.Lookahead.closing? opener = some closer) (inside : Orderly row) :
    Orderly (opener :: (row ++ [closer])) := by
  have brackets : opener.isLambdaPart = false ∧ closer.isLambdaPart = false := by
    unfold Parser.Lookahead.closing? at closes
    split at closes <;> cases closes <;> exact ⟨rfl, rfl⟩
  refine ⟨inside.nested.between closes, List.forall_mem_cons.mpr ⟨brackets.1, List.forall_mem_append.mpr ⟨inside.apart, ?_⟩⟩⟩
  exact List.forall_mem_singleton.mpr brackets.2

end Orderly

/-- Whether a node of a kind may be made of such elements where no error was reported. -/
structure Holds (kind : Kind) (row : List Kind) : Prop where
  named : kind ≠ .tombstone
  sound : kind ≠ .error
  bracket : kind.isBracket = false
  admits : kind.Admits row
  nested : WellNested row
  apart : kind.hasLambdaPart = false → Apart row

theorem Holds.of_orderly {row : List Kind} (named : kind ≠ .tombstone) (sound : kind ≠ .error) (bracket : kind.isBracket = false)
    (admits : kind.Admits row) (orderly : Orderly row) : kind.Holds row :=
  ⟨named, sound, bracket, admits, orderly.nested, fun _ => orderly.apart⟩

theorem holds_of_isPlain (plain : kind.isPlain = true) {row : List Kind} (orderly : Orderly row) : kind.Holds row :=
  .of_orderly (by rintro rfl; cases plain) (by rintro rfl; cases plain) (isBracket_of_isPlain plain)
    (admits_of_isPlain plain row) orderly

theorem isBracket_of_isNode (node : kind.isNode = true) : kind.isBracket = false := by
  cases kind <;> first | rfl | cases node

theorem isNode_of_isElement (element : kind.isElement = true) : kind.isNode = true := (Bool.and_eq_true_iff.mp element).1

theorem isLoose_of_isElement (element : kind.isElement = true) : kind.isLoose = true := by
  cases kind <;> first | rfl | cases element

theorem isNode_of_isLambdaPart (part : kind.isLambdaPart = true) : kind.isNode = true := by
  cases kind <;> first | rfl | cases part

theorem isElement_of_isStatement (statement : kind.isStatement = true) : kind.isElement = true := by
  cases kind <;> first | rfl | cases statement

theorem isElement_of_isExpr (expr : kind.isExpr = true) : kind.isElement = true := by
  cases kind <;> first | rfl | cases expr

theorem isElement_of_isType (type : kind.isType = true) : kind.isElement = true := by
  cases kind <;> first | rfl | cases type

theorem isElement_of_isPattern (pattern : kind.isPattern = true) : kind.isElement = true := by
  cases kind <;> first | rfl | cases pattern

end Kind

namespace Shape

/-- The kind of a token or node. -/
def kind : Shape → Kind
  | .token kind _ => kind
  | .node kind _ => kind

/-- The kinds of the elements of a row, without what is below them. -/
def outline (row : List Shape) : List Kind := row.map kind

mutual

def Sound : Shape → Prop
  | .token kind _ => kind ≠ .unknown
  | .node kind children => kind.Holds (outline children) ∧ SoundAll children

def SoundAll : List Shape → Prop
  | [] => True
  | shape :: rest => shape.Sound ∧ SoundAll rest

end

theorem soundAll_append {front back : List Shape} :
    SoundAll (front ++ back) ↔ SoundAll front ∧ SoundAll back := by
  induction front with
  | nil => simp [SoundAll]
  | cons shape rest ih => simp [SoundAll, ih, and_assoc]

@[simp] theorem outline_nil : outline [] = [] := rfl

@[simp] theorem outline_token (kind : Kind) (rawCount : Nat) (row : List Shape) :
    outline (.token kind rawCount :: row) = kind :: outline row := rfl

@[simp] theorem outline_node (kind : Kind) (children row : List Shape) :
    outline (.node kind children :: row) = kind :: outline row := rfl

@[simp] theorem outline_append (front back : List Shape) :
    outline (front ++ back) = outline front ++ outline back := List.map_append

def leafKinds (row : List Shape) : List Kind := (tokensAll row).map Prod.fst

/-- Brackets that every node closes for itself are closed in the whole row. -/
theorem SoundAll.nested {row : List Shape} (sound : SoundAll row) (nested : Kind.WellNested (outline row)) :
    Kind.WellNested (leafKinds row) := by
  suffices all : ∀ opened, (leafKinds row).foldlM Kind.nest opened = (outline row).foldlM Kind.nest opened from
    (all []).trans nested
  clear nested
  induction row using row_induction with
  | nil => exact fun _ => rfl
  | token kind rawCount rest ih =>
    intro opened
    simp only [leafKinds, tokensAll, tokens, List.cons_append, List.nil_append, List.map_cons, List.foldlM_cons,
      outline_token]
    refine bind_congr fun after => ih sound.2 after
  | node kind children rest below ih =>
    intro opened
    obtain ⟨⟨holds, inner⟩, later⟩ := sound
    have closed : Kind.WellNested (leafKinds children) := (below inner []).trans holds.nested
    have split : leafKinds (.node kind children :: rest) = leafKinds children ++ leafKinds rest := by
      simp [leafKinds, tokensAll, tokens]
    rw [split, List.foldlM_append, closed.leaves, outline_node, List.foldlM_cons, Kind.nest_plain holds.bracket]
    exact ih later opened

end Shape

end LosslessJava
