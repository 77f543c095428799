import LosslessJava.Ast.Declarations
import LosslessJava.Ast.Expressions
import LosslessJava.Proofs.Elements

/-! What views of nodes find where no error was reported: all parts of an expression are there, and
each is what its accessor gives. -/

namespace LosslessJava

open LosslessJava.Tree LosslessJava.Shape

/-- A node of a tree. -/
def Tree.Has (tree : Tree) (node : Node) : Prop := node.tree = tree ∧ node.id < tree.nodeCount

namespace Ast

/-- An expression on either side of an operator, which is all that the node holds. -/
def Infix (node : Node) (left? : Option Expr) (operator? : Option Leaf) (right? : Option Expr) : Prop :=
  ∃ left operator right, node.elements = [.node left.node, .leaf operator, .node right.node] ∧
    (Grammar.Operator.power? operator.kind).isSome ∧ left? = some left ∧ operator? = some operator ∧
    right? = some right

def ConditionalExpr.Whole (expr : ConditionalExpr) : Prop :=
  ∃ test question yes colon no,
    expr.node.elements = [.node test.node, .leaf question, .node yes.node, .leaf colon, .node no.node] ∧
    question.kind = .question ∧ colon.kind = .colon ∧ expr.condition? = some test ∧ expr.thenExpr? = some yes ∧
    expr.elseExpr? = some no

/-- What is tested for is a type or a pattern, never both. -/
def InstanceofExpr.Whole (expr : InstanceofExpr) : Prop :=
  ∃ tested keyword target, expr.node.elements = [.node tested.node, .leaf keyword, .node target] ∧
    keyword.kind = .instanceofKw ∧ expr.expr? = some tested ∧
    ((∃ type, type.node = target ∧ expr.type? = some type ∧ expr.pattern? = none) ∨
      ∃ pattern, pattern.node = target ∧ expr.pattern? = some pattern ∧ expr.type? = none)

def CastExpr.Whole (cast : CastExpr) : Prop :=
  ∃ opener type closer operand,
    cast.node.elements = [.leaf opener, .node type.node, .leaf closer, .node operand.node] ∧
    opener.kind = .leftParen ∧ closer.kind = .rightParen ∧ cast.type? = some type ∧ cast.expr? = some operand

def PrefixExpr.Whole (expr : PrefixExpr) : Prop :=
  ∃ operator operand, expr.node.elements = [.leaf operator, .node operand.node] ∧
    expr.operator? = some operator ∧ expr.expr? = some operand

def PostfixExpr.Whole (expr : PostfixExpr) : Prop :=
  ∃ operand operator, expr.node.elements = [.node operand.node, .leaf operator] ∧
    expr.expr? = some operand ∧ expr.operator? = some operator

def ParenExpr.Whole (expr : ParenExpr) : Prop :=
  ∃ opener inner closer, expr.node.elements = [.leaf opener, .node inner.node, .leaf closer] ∧
    opener.kind = .leftParen ∧ closer.kind = .rightParen ∧ expr.expr? = some inner

def FieldAccess.Whole (access : FieldAccess) : Prop :=
  ∃ receiver dot name, access.node.elements = [.node receiver.node, .leaf dot, .leaf name] ∧
    dot.kind = .dot ∧ name.kind = .identifier ∧ access.receiver? = some receiver ∧ access.name? = some name

/-- No part of an expression is missing anywhere in a tree, and none stands in another one's place. -/
structure Whole (tree : Tree) : Prop where
  binary : ∀ expr : BinaryExpr, tree.Has expr.node → Infix expr.node expr.left? expr.operator? expr.right?
  assign : ∀ expr : AssignExpr, tree.Has expr.node → Infix expr.node expr.left? expr.operator? expr.right?
  conditional : ∀ expr : ConditionalExpr, tree.Has expr.node → expr.Whole
  instanceof : ∀ expr : InstanceofExpr, tree.Has expr.node → expr.Whole
  cast : ∀ expr : CastExpr, tree.Has expr.node → expr.Whole
  prefixed : ∀ expr : PrefixExpr, tree.Has expr.node → expr.Whole
  postfixed : ∀ expr : PostfixExpr, tree.Has expr.node → expr.Whole
  paren : ∀ expr : ParenExpr, tree.Has expr.node → expr.Whole
  fieldAccess : ∀ access : FieldAccess, tree.Has access.node → access.Whole
  ifStmt : ∀ stmt : IfStmt, tree.Has stmt.node → stmt.condition?.isSome ∧ stmt.thenBranch?.isSome

section Forms

variable {form? : Kind → Option String} {node : Node}

theorem ofNode?_form (form : Form form?) : NodeView.ofNode? form.node = some form := by
  obtain ⟨node, name, same⟩ := form
  simp only [NodeView.ofNode?]
  split
  · next h => cases same.symm.trans h; rfl
  · next h => cases same.symm.trans h

private theorem ofNode?_none (none : form? node.kind = none) : (NodeView.ofNode? node : Option (Form form?)) = .none := by
  simp only [NodeView.ofNode?]
  split
  · next h => cases none.symm.trans h
  · rfl

theorem exists_form (some : (form? node.kind).isSome) : ∃ form : Form form?, form.node = node := by
  obtain ⟨name, same⟩ := Option.isSome_iff_exists.mp some
  exact ⟨⟨node, name, same⟩, rfl⟩

end Forms

section Rows

variable {elements : List Element} {kind : Kind} {kinds : List Kind}

def Row (elements : List Element) (kinds : List Kind) : Prop :=
  ∃ row, List.Forall₂ Element.Shows elements row ∧ outline row = kinds ∧ SoundAll row ∧ ProperAll row

theorem Row.nil (row : Row elements []) : elements = [] := by
  obtain ⟨_, shows, same, -⟩ := row
  cases shows with
  | nil => rfl
  | cons => cases same

/-- The first element of a row is a node if it is of a kind of nodes, and its own elements keep its contract. -/
theorem Row.node (row : Row elements (kind :: kinds)) (node : kind.isNode = true) :
    ∃ n rest, elements = .node n :: rest ∧ n.kind = kind ∧ Row rest kinds ∧
      ∃ inner, Row n.elements inner ∧ kind.Holds inner := by
  obtain ⟨_, shows, same, sound, proper⟩ := row
  cases shows with
  | nil => cases same
  | @cons element shape rest row here later =>
    cases shape with
    | token other count =>
      simp only [outline_token, List.cons.injEq] at same
      obtain ⟨rfl, rfl⟩ := same
      have token : other.isToken = true := proper.1
      simp [Kind.isNode, token] at node
    | node other children =>
      simp only [outline_node, List.cons.injEq] at same
      obtain ⟨rfl, rfl⟩ := same
      cases element with
      | node n => exact ⟨n, rest, rfl, here.kind_eq, ⟨row, later, rfl, sound.2, proper.2⟩, outline children,
          ⟨children, here.elements, rfl, sound.1.2, proper.1.2⟩, sound.1.1⟩
      | leaf => exact here.elim

theorem Row.leaf (row : Row elements (kind :: kinds)) (token : kind.isToken = true) :
    ∃ leaf rest, elements = .leaf leaf :: rest ∧ leaf.kind = kind ∧ Row rest kinds := by
  obtain ⟨_, shows, same, sound, proper⟩ := row
  cases shows with
  | nil => cases same
  | @cons element shape rest row here later =>
    cases shape with
    | token other count =>
      simp only [outline_token, List.cons.injEq] at same
      obtain ⟨rfl, rfl⟩ := same
      cases element with
      | node => exact here.elim
      | leaf leaf => exact ⟨leaf, rest, rfl, here, row, later, rfl, sound.2, proper.2⟩
    | node other children =>
      simp only [outline_node, List.cons.injEq] at same
      obtain ⟨rfl, rfl⟩ := same
      have node : other.isNode = true := proper.1.1
      simp [Kind.isNode, token] at node

theorem Row.expr (row : Row elements (kind :: kinds)) (isExpr : kind.isExpr = true) :
    ∃ (expr : Expr) (rest : _), elements = .node expr.node :: rest ∧ expr.node.kind = kind ∧ Row rest kinds := by
  obtain ⟨n, rest, same, named, later, -⟩ := row.node (Kind.isNode_of_isElement (Kind.isElement_of_isExpr isExpr))
  obtain ⟨expr, rfl⟩ := @exists_form exprForm? n (by rw [named, ← Kind.isExpr_eq]; exact isExpr)
  exact ⟨expr, rest, same, named, later⟩

theorem Row.type (row : Row elements (kind :: kinds)) (isType : kind.isType = true) :
    ∃ (type : TypeUse) (rest : _), elements = .node type.node :: rest ∧ type.node.kind = kind ∧ Row rest kinds := by
  obtain ⟨n, rest, same, named, later, -⟩ := row.node (Kind.isNode_of_isElement (Kind.isElement_of_isType isType))
  obtain ⟨type, rfl⟩ := @exists_form typeForm? n (by rw [named, ← Kind.isType_eq]; exact isType)
  exact ⟨type, rest, same, named, later⟩

private theorem Row.pattern (row : Row elements (kind :: kinds)) (isPattern : kind.isPattern = true) :
    ∃ (pattern : Pattern) (rest : _), elements = .node pattern.node :: rest ∧ pattern.node.kind = kind ∧ Row rest kinds := by
  obtain ⟨n, rest, same, named, later, -⟩ := row.node (Kind.isNode_of_isElement (Kind.isElement_of_isPattern isPattern))
  obtain ⟨pattern, rfl⟩ := @exists_form patternForm? n (by rw [named, ← Kind.isPattern_eq]; exact isPattern)
  exact ⟨pattern, rest, same, named, later⟩

end Rows

section Contracts

variable {node : Node} {kinds : List Kind}

private theorem infix_of_row {left operator right : Kind} (row : Row node.elements [left, operator, right])
    (isExpr : left.isExpr = true) (power : (Grammar.Operator.power? operator).isSome = true)
    (isExpr' : right.isExpr = true) : Infix node (operand? node 0) (firstToken? node) (operand? node 1) := by
  have token : operator.isToken = true := by
    revert power
    cases operator <;> first | exact fun _ => rfl | exact fun power => nomatch power
  obtain ⟨left, _, same, -, row⟩ := row.expr isExpr
  obtain ⟨op, _, rfl, named, row⟩ := row.leaf token
  obtain ⟨right, _, rfl, -, row⟩ := row.expr isExpr'
  obtain rfl := row.nil
  refine ⟨left, op, right, same, named ▸ power, ?_, ?_, ?_⟩
  · simp [operand?, children, Node.children, same, ofNode?_form]
  · simp [firstToken?, Node.childTokens, same]
  · simp [operand?, children, Node.children, same, ofNode?_form]

private theorem ConditionalExpr.whole {expr : ConditionalExpr} (row : Row expr.node.elements kinds)
    (holds : Kind.conditionalExpr.Admits kinds) : expr.Whole := by
  obtain ⟨test, yes, no, rfl, isExpr, isExpr', isExpr''⟩ := holds
  obtain ⟨test, _, same, -, row⟩ := row.expr isExpr
  obtain ⟨question, _, rfl, named, row⟩ := row.leaf rfl
  obtain ⟨yes, _, rfl, -, row⟩ := row.expr isExpr'
  obtain ⟨colon, _, rfl, named', row⟩ := row.leaf rfl
  obtain ⟨no, _, rfl, -, row⟩ := row.expr isExpr''
  obtain rfl := row.nil
  refine ⟨test, question, yes, colon, no, same, named, named', ?_, ?_, ?_⟩
  all_goals simp [ConditionalExpr.condition?, ConditionalExpr.thenExpr?, ConditionalExpr.elseExpr?, operand?, children,
    Node.children, same, ofNode?_form]

private theorem typeForm_of_isExpr {kind : Kind} (isExpr : kind.isExpr = true) : typeForm? kind = none := by
  cases kind <;> first | rfl | cases isExpr

private theorem patternForm_of_isExpr {kind : Kind} (isExpr : kind.isExpr = true) : patternForm? kind = none := by
  cases kind <;> first | rfl | cases isExpr

private theorem other_of_isType {kind : Kind} (isType : kind.isType = true) :
    exprForm? kind = none ∧ patternForm? kind = none := by
  cases kind <;> first | exact ⟨rfl, rfl⟩ | cases isType

private theorem typeForm_of_isPattern {kind : Kind} (isPattern : kind.isPattern = true) : typeForm? kind = none := by
  cases kind <;> first | rfl | cases isPattern

private theorem InstanceofExpr.whole {expr : InstanceofExpr} (row : Row expr.node.elements kinds)
    (holds : Kind.instanceofExpr.Admits kinds) : expr.Whole := by
  obtain ⟨tested, target, rfl, isExpr, sorted⟩ := holds
  obtain ⟨test, _, same, named, row⟩ := row.expr isExpr
  obtain ⟨keyword, _, rfl, named', row⟩ := row.leaf rfl
  have noType := @ofNode?_none typeForm? test.node (named ▸ typeForm_of_isExpr isExpr)
  have noPattern := @ofNode?_none patternForm? test.node (named ▸ patternForm_of_isExpr isExpr)
  rcases sorted with isType | isPattern
  · obtain ⟨type, _, rfl, named'', row⟩ := row.type isType
    obtain rfl := row.nil
    have none := @ofNode?_none patternForm? type.node (named'' ▸ (other_of_isType isType).2)
    refine ⟨test, keyword, type.node, same, named', ?_, .inl ⟨type, rfl, ?_, ?_⟩⟩
    all_goals simp [InstanceofExpr.expr?, InstanceofExpr.type?, InstanceofExpr.pattern?, child?, Node.children, same,
      ofNode?_form, noType, noPattern, none]
  · obtain ⟨pattern, _, rfl, named'', row⟩ := row.pattern isPattern
    obtain rfl := row.nil
    have none := @ofNode?_none typeForm? pattern.node (named'' ▸ typeForm_of_isPattern isPattern)
    refine ⟨test, keyword, pattern.node, same, named', ?_, .inr ⟨pattern, rfl, ?_, ?_⟩⟩
    all_goals simp [InstanceofExpr.expr?, InstanceofExpr.type?, InstanceofExpr.pattern?, child?, Node.children, same,
      ofNode?_form, noType, noPattern, none]

private theorem CastExpr.whole {cast : CastExpr} (row : Row cast.node.elements kinds)
    (holds : Kind.castExpr.Admits kinds) : cast.Whole := by
  obtain ⟨type, operand, rfl, isType, isExpr⟩ := holds
  obtain ⟨opener, _, same, named, row⟩ := row.leaf rfl
  obtain ⟨type, _, rfl, sorted, row⟩ := row.type isType
  obtain ⟨closer, _, rfl, named', row⟩ := row.leaf rfl
  obtain ⟨operand, _, rfl, -, row⟩ := row.expr isExpr
  obtain rfl := row.nil
  have none := @ofNode?_none exprForm? type.node (sorted ▸ (other_of_isType isType).1)
  refine ⟨opener, type, closer, operand, same, named, named', ?_, ?_⟩
  all_goals simp [CastExpr.type?, CastExpr.expr?, child?, Node.children, same, ofNode?_form, none]

private theorem PrefixExpr.whole {expr : PrefixExpr} (row : Row expr.node.elements kinds)
    (holds : Kind.prefixExpr.Admits kinds) : expr.Whole := by
  obtain ⟨operator, operand, rfl, token, isExpr⟩ := holds
  obtain ⟨operator, _, same, -, row⟩ := row.leaf token
  obtain ⟨operand, _, rfl, -, row⟩ := row.expr isExpr
  obtain rfl := row.nil
  refine ⟨operator, operand, same, ?_, ?_⟩
  · simp [PrefixExpr.operator?, firstToken?, Node.childTokens, same]
  · simp [PrefixExpr.expr?, child?, Node.children, same, ofNode?_form]

private theorem PostfixExpr.whole {expr : PostfixExpr} (row : Row expr.node.elements kinds)
    (holds : Kind.postfixExpr.Admits kinds) : expr.Whole := by
  obtain ⟨operand, operator, rfl, isExpr, token⟩ := holds
  obtain ⟨operand, _, same, -, row⟩ := row.expr isExpr
  obtain ⟨operator, _, rfl, -, row⟩ := row.leaf token
  obtain rfl := row.nil
  refine ⟨operand, operator, same, ?_, ?_⟩
  · simp [PostfixExpr.expr?, child?, Node.children, same, ofNode?_form]
  · simp [PostfixExpr.operator?, firstToken?, Node.childTokens, same]

private theorem exists_inner (row : Row node.elements kinds)
    (holds : ∃ inner, kinds = [.leftParen, inner, .rightParen] ∧ inner.isExpr = true) :
    ∃ (opener : Leaf) (inner : Expr) (closer : Leaf), node.elements = [.leaf opener, .node inner.node, .leaf closer] ∧
      opener.kind = .leftParen ∧ closer.kind = .rightParen ∧ child? node = some inner := by
  obtain ⟨inner, rfl, isExpr⟩ := holds
  obtain ⟨opener, _, same, named, row⟩ := row.leaf rfl
  obtain ⟨inner, _, rfl, -, row⟩ := row.expr isExpr
  obtain ⟨closer, _, rfl, named', row⟩ := row.leaf rfl
  obtain rfl := row.nil
  exact ⟨opener, inner, closer, same, named, named', by simp [child?, Node.children, same, ofNode?_form]⟩

private theorem FieldAccess.whole {access : FieldAccess} (row : Row access.node.elements kinds)
    (holds : Kind.fieldAccess.Admits kinds) : access.Whole := by
  obtain ⟨receiver, rfl, isExpr⟩ := holds
  obtain ⟨receiver, _, same, -, row⟩ := row.expr isExpr
  obtain ⟨dot, _, rfl, named, row⟩ := row.leaf rfl
  obtain ⟨name, _, rfl, named', row⟩ := row.leaf rfl
  obtain rfl := row.nil
  refine ⟨receiver, dot, name, same, named, named', ?_, ?_⟩
  · simp [FieldAccess.receiver?, child?, Node.children, same, ofNode?_form]
  · simp [FieldAccess.name?, Ast.name?, Node.tokenOfKind?, Node.childTokens, same, named, named']

private theorem IfStmt.whole {stmt : IfStmt} (row : Row stmt.node.elements kinds) (holds : Kind.ifStmt.Admits kinds) :
    stmt.condition?.isSome ∧ stmt.thenBranch?.isSome := by
  obtain ⟨branch, rest, rfl, statement⟩ := holds
  obtain ⟨keyword, _, same, -, row⟩ := row.leaf rfl
  obtain ⟨condition, _, rfl, named, row, inner, elements, contract⟩ := row.node rfl
  obtain ⟨branch, _, rfl, named', -⟩ := row.node (Kind.isNode_of_isElement (Kind.isElement_of_isStatement statement))
  obtain ⟨_, _, _, -, -, -, found⟩ := exists_inner elements contract.admits
  have other : branch.kind ≠ .condition ∧ branch.kind ≠ .elseBranch := by
    constructor <;> (rintro same; rw [← named', same] at statement; cases statement)
  constructor
  · simp [IfStmt.condition?, conditionOf?, Node.childOfKind?, Node.children, same, named, found]
  · simp [IfStmt.thenBranch?, Node.children, same, named, other]

end Contracts

/-- The views of a tree that was parsed without a diagnostic are whole. -/
theorem whole_of_clean {entry : EntryPoint} {text : String} {options : ParseOptions} {parse : Parse}
    (parsed : entry.parse text options = .ok parse) (clean : parse.diagnostics = []) : Whole parse.tree := by
  obtain ⟨-, kind, children, sound⟩ := Parse.sound_of_clean parsed clean
  have keeps {node : Node} (has : parse.tree.Has node) :
      ∃ kinds, Row node.elements kinds ∧ node.kind.Holds kinds := by
    obtain ⟨tree, id⟩ := node
    obtain ⟨rfl, inside⟩ := has
    obtain ⟨kind, children, shows, holds, sound, proper⟩ := sound.find inside
    exact ⟨outline children, ⟨children, shows.elements, rfl, sound, proper⟩, shows.kind_eq ▸ holds⟩
  constructor
  all_goals
    intro view has
    obtain ⟨kinds, row, holds⟩ := keeps has
    have admits := view.kind_eq ▸ holds.admits
  case binary | assign =>
    obtain ⟨left, operator, right, rfl, isExpr, power, isExpr'⟩ := admits
    exact infix_of_row row isExpr power isExpr'
  case conditional => exact ConditionalExpr.whole row admits
  case instanceof => exact InstanceofExpr.whole row admits
  case cast => exact CastExpr.whole row admits
  case prefixed => exact PrefixExpr.whole row admits
  case postfixed => exact PostfixExpr.whole row admits
  case paren => exact exists_inner row admits
  case fieldAccess => exact FieldAccess.whole row admits
  case ifStmt => exact IfStmt.whole row admits

/-- An expression with operators of many sorts. -/
theorem whole_of_clean_expression :
    ∃ parse, EntryPoint.expression.parse "a = b instanceof C ? -d * e++ : (F) (g.h)" {} = .ok parse ∧
      parse.diagnostics = [] ∧ Whole parse.tree := by
  have found : Parse.givesWithin 900 (·.diagnostics.isEmpty) Grammar.expressionRoot
      (.lex "a = b instanceof C ? -d * e++ : (F) (g.h)") {} = true := by decide +kernel
  obtain ⟨parse, ran, clean⟩ := Parse.run_of_givesWithin found
  have parsed : EntryPoint.expression.parse "a = b instanceof C ? -d * e++ : (F) (g.h)" {} = .ok parse := ran
  have none : parse.diagnostics = [] := by simpa using clean
  exact ⟨parse, parsed, none, whole_of_clean parsed none⟩

end Ast

end LosslessJava
