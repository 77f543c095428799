import LosslessJava.Ast.Types

/-!
What expressions, patterns and switches hold.
-/
namespace LosslessJava.Ast

open LosslessJava.Tree

abbrev Literal := View .literal

abbrev NameExpr := View .nameExpr

abbrev ParenExpr := View .parenExpr

abbrev FieldAccess := View .fieldAccess

abbrev ArgList := View .argList

abbrev MethodCall := View .methodCall

abbrev CastExpr := View .castExpr

abbrev PrefixExpr := View .prefixExpr

abbrev PostfixExpr := View .postfixExpr

abbrev BinaryExpr := View .binaryExpr

abbrev AssignExpr := View .assignExpr

abbrev ConditionalExpr := View .conditionalExpr

abbrev InstanceofExpr := View .instanceofExpr

abbrev LambdaExpr := View .lambdaExpr

abbrev TypePattern := View .typePattern

abbrev RecordPattern := View .recordPattern

abbrev GuardedPattern := View .guardedPattern

abbrev Guard := View .guard

abbrev SwitchLabel := View .switchLabel

abbrev SwitchGroup := View .switchGroup

abbrev SwitchRule := View .switchRule

abbrev SwitchBlock := View .switchBlock

abbrev SwitchExpr := View .switchExpr

/-- The first of a node's own tokens. -/
def firstToken? (node : Node) : Option Leaf := node.childTokens.head?

/-- The expression at a place among those directly below a node. -/
def operand? (node : Node) (index : Nat) : Option Expr := (children node)[index]?

def Expr.asBinary? (expr : Expr) : Option BinaryExpr := NodeView.ofNode? expr.node

def Expr.asAssign? (expr : Expr) : Option AssignExpr := NodeView.ofNode? expr.node

def Literal.token? (literal : Literal) : Option Leaf := firstToken? literal.node

def NameExpr.name? (expr : NameExpr) : Option Leaf := Ast.name? expr.node

def ParenExpr.expr? (expr : ParenExpr) : Option Expr := child? expr.node

def FieldAccess.receiver? (access : FieldAccess) : Option Expr := child? access.node

def FieldAccess.name? (access : FieldAccess) : Option Leaf := Ast.name? access.node

def ArgList.args (list : ArgList) : List Expr := children list.node

/-- The expression in front of the dot, if there is one. -/
def MethodCall.receiver? (call : MethodCall) : Option Expr := child? call.node

/-- The method's name, or `this` or `super` in a constructor call. -/
def MethodCall.name? (call : MethodCall) : Option Leaf :=
  call.node.childTokens.find? fun token =>
    token.kind == .identifier || token.kind == .thisKw || token.kind == .superKw

def MethodCall.typeArgs? (call : MethodCall) : Option TypeArgList := child? call.node

def MethodCall.args? (call : MethodCall) : Option ArgList := child? call.node

def CastExpr.type? (cast : CastExpr) : Option TypeUse := child? cast.node

def CastExpr.expr? (cast : CastExpr) : Option Expr := child? cast.node

def PrefixExpr.operator? (expr : PrefixExpr) : Option Leaf := firstToken? expr.node

def PrefixExpr.expr? (expr : PrefixExpr) : Option Expr := child? expr.node

def PostfixExpr.operator? (expr : PostfixExpr) : Option Leaf := firstToken? expr.node

def PostfixExpr.expr? (expr : PostfixExpr) : Option Expr := child? expr.node

def BinaryExpr.left? (expr : BinaryExpr) : Option Expr := operand? expr.node 0

def BinaryExpr.operator? (expr : BinaryExpr) : Option Leaf := firstToken? expr.node

def BinaryExpr.right? (expr : BinaryExpr) : Option Expr := operand? expr.node 1

def AssignExpr.left? (expr : AssignExpr) : Option Expr := operand? expr.node 0

def AssignExpr.operator? (expr : AssignExpr) : Option Leaf := firstToken? expr.node

def AssignExpr.right? (expr : AssignExpr) : Option Expr := operand? expr.node 1

def ConditionalExpr.condition? (expr : ConditionalExpr) : Option Expr := operand? expr.node 0

def ConditionalExpr.thenExpr? (expr : ConditionalExpr) : Option Expr := operand? expr.node 1

def ConditionalExpr.elseExpr? (expr : ConditionalExpr) : Option Expr := operand? expr.node 2

def InstanceofExpr.expr? (expr : InstanceofExpr) : Option Expr := child? expr.node

/-- The type that is tested for, where no pattern stands in its place. -/
def InstanceofExpr.type? (expr : InstanceofExpr) : Option TypeUse := child? expr.node

def InstanceofExpr.pattern? (expr : InstanceofExpr) : Option Pattern := child? expr.node

/-- The names of all parameters below the lambda. -/
def LambdaExpr.paramNames (lambda : LambdaExpr) : List Leaf :=
  (lambda.node.descendants.filter (·.kind == .lambdaParam)).filterMap Ast.name?

def LambdaExpr.body? (lambda : LambdaExpr) : Option Node :=
  lambda.node.children.find? fun node => node.kind != .lambdaParam && node.kind != .lambdaParamList

def TypePattern.type? (pattern : TypePattern) : Option TypeUse := child? pattern.node

/-- The name that is bound. -/
def TypePattern.binding? (pattern : TypePattern) : Option Leaf := Ast.name? pattern.node

def RecordPattern.type? (pattern : RecordPattern) : Option TypeUse := child? pattern.node

def RecordPattern.components (pattern : RecordPattern) : List Pattern :=
  match pattern.node.childOfKind? .patternList with
  | some list => children list
  | none => []

def GuardedPattern.pattern? (pattern : GuardedPattern) : Option Pattern := child? pattern.node

def GuardedPattern.guard? (pattern : GuardedPattern) : Option Expr := child? pattern.node

def Guard.condition? (guard : Guard) : Option Expr := child? guard.node

def SwitchLabel.isDefault (label : SwitchLabel) : Bool := hasToken label.node .defaultKw

/-- Constants and patterns of the label. -/
def SwitchLabel.items (label : SwitchLabel) : List Node :=
  label.node.children.filter (·.kind != .guard)

def SwitchLabel.guard? (label : SwitchLabel) : Option Guard := child? label.node

/-- The colon or arrow at the label's end. -/
def SwitchLabel.terminator? (label : SwitchLabel) : Option Leaf :=
  label.node.childTokens.find? fun token => token.kind == .colon || token.kind == .arrow

def SwitchGroup.labels (group : SwitchGroup) : List SwitchLabel := children group.node

def SwitchGroup.statements (group : SwitchGroup) : List Node :=
  group.node.children.filter (·.kind != .switchLabel)

def SwitchRule.label? (rule : SwitchRule) : Option SwitchLabel := child? rule.node

/-- What stands behind the arrow. -/
def SwitchRule.body? (rule : SwitchRule) : Option Node :=
  rule.node.children.find? (·.kind != .switchLabel)

def SwitchBlock.groups (block : SwitchBlock) : List SwitchGroup := children block.node

def SwitchBlock.rules (block : SwitchBlock) : List SwitchRule := children block.node

/-- Whether the block has rules with arrows. -/
def SwitchBlock.isArrowForm (block : SwitchBlock) : Bool := !block.rules.isEmpty

/-- The expression in the brackets of a condition below a node. -/
def conditionOf? (node : Node) : Option Expr := (node.childOfKind? .condition).bind child?

def SwitchExpr.selector? (expr : SwitchExpr) : Option Expr := conditionOf? expr.node

def SwitchExpr.block? (expr : SwitchExpr) : Option SwitchBlock := child? expr.node

end LosslessJava.Ast
