import LosslessJava.Tree.Walk

/-!
Views: nodes of a tree whose kind is known, so that one can ask for what such nodes hold. A view
adds nothing to its node; what an incomplete input leaves out is simply not found.
-/
namespace LosslessJava.Ast

open LosslessJava.Tree

/-- A node of one kind. -/
structure View (kind : Kind) where
  node : Node
  kind_eq : node.kind = kind

/-- Types of views. -/
class NodeView (α : Type) where
  /-- The view of a node, if the node is of a fitting kind. -/
  ofNode? : Node → Option α
  node : α → Node

instance (kind : Kind) : NodeView (View kind) where
  ofNode? node := if h : node.kind = kind then some ⟨node, h⟩ else none
  node := View.node

/-- The kinds that have a view of their own. -/
def viewKinds : List Kind := [
  .compilationUnit, .packageDecl, .importDecl, .moduleDecl, .qualifiedName, .modifierList,
  .annotationUse, .classDecl, .interfaceDecl, .enumDecl, .recordDecl, .typeParamList,
  .extendsClause, .implementsClause, .permitsClause, .throwsClause, .classBody, .enumConstant,
  .recordComponent, .fieldDecl, .methodDecl, .constructorDecl, .paramList, .param,
  .variableDeclarator, .block,
  .localVarDecl, .ifStmt, .switchBlock, .switchGroup, .switchRule, .switchLabel, .guard,
  .typePattern, .recordPattern, .guardedPattern, .literal, .nameExpr, .parenExpr, .fieldAccess,
  .methodCall, .argList, .castExpr, .prefixExpr, .postfixExpr, .binaryExpr, .assignExpr,
  .conditionalExpr, .instanceofExpr, .lambdaExpr, .switchExpr, .typeArgList, .classType,
  .primitiveType, .arrayType]

/-- An upper-case word with only its first letter left upper-case. -/
def capitalize (word : String) : String :=
  match word.toList with
  | [] => ""
  | c :: rest => String.ofList (c :: rest.map Char.toLower)

/-- Name of the view of a kind: the words of the kind's name, joined. -/
def viewName? (kind : Kind) : Option String :=
  if viewKinds.contains kind then
    some (String.join ((kind.name.splitOn "_").map capitalize))
  else
    none

/-- A view's name and its node. -/
def describeAs (name : String) (node : Node) : String := name ++ "(" ++ node.describe ++ ")"

/-- Name of a form of expression. -/
def exprForm? : Kind → Option String
  | .literal => some "Literal"
  | .nameExpr => some "Name"
  | .parenExpr => some "Paren"
  | .thisExpr => some "This"
  | .superExpr => some "Super"
  | .classLiteral => some "ClassLiteral"
  | .fieldAccess => some "FieldAccess"
  | .methodCall => some "MethodCall"
  | .arrayAccess => some "ArrayAccess"
  | .newExpr => some "New"
  | .arrayCreation => some "ArrayCreation"
  | .methodRef => some "MethodRef"
  | .lambdaExpr => some "Lambda"
  | .castExpr => some "Cast"
  | .prefixExpr => some "Prefix"
  | .postfixExpr => some "Postfix"
  | .binaryExpr => some "Binary"
  | .assignExpr => some "Assign"
  | .conditionalExpr => some "Conditional"
  | .instanceofExpr => some "Instanceof"
  | .switchExpr => some "Switch"
  | _ => none

/-- Name of a form of type. -/
def typeForm? : Kind → Option String
  | .primitiveType => some "Primitive"
  | .voidType => some "Void"
  | .classType => some "Class"
  | .arrayType => some "Array"
  | .wildcardType => some "Wildcard"
  | .intersectionType => some "Intersection"
  | .unionType => some "Union"
  | _ => none

/-- Name of a form of pattern. -/
def patternForm? : Kind → Option String
  | .typePattern => some "Type"
  | .recordPattern => some "Record"
  | .guardedPattern => some "Guarded"
  | .parenPattern => some "Paren"
  | _ => none

/-- A node whose kind has a name among some forms. -/
structure Form (form? : Kind → Option String) where
  node : Node
  form : String
  form_eq : form? node.kind = some form

instance (form? : Kind → Option String) : NodeView (Form form?) where
  ofNode? node :=
    match h : form? node.kind with
    | some form => some ⟨node, form, h⟩
    | none => none
  node := Form.node

/-- The form's name and its node. -/
def Form.describe {form? : Kind → Option String} (f : Form form?) : String :=
  describeAs f.form f.node

/-- An expression of any form. -/
abbrev Expr := Form exprForm?

/-- A type of any form. -/
abbrev TypeUse := Form typeForm?

/-- A pattern of any form. -/
abbrev Pattern := Form patternForm?

/-- Kinds of nodes that declare a type. -/
def isTypeDecl : Kind → Bool
  | .classDecl | .interfaceDecl | .enumDecl | .recordDecl | .annotationTypeDecl => true
  | _ => false

/-- The first child that has a view of the asked type. -/
def child? {α : Type} [NodeView α] (node : Node) : Option α :=
  node.children.findSome? NodeView.ofNode?

/-- All children that have a view of the asked type. -/
def children {α : Type} [NodeView α] (node : Node) : List α :=
  node.children.filterMap NodeView.ofNode?

/-- The first identifier among a node's own tokens. -/
def name? (node : Node) : Option Leaf := node.tokenOfKind? .identifier

/-- All identifiers among a node's own tokens. -/
def names (node : Node) : List Leaf := node.childTokens.filter (·.kind == .identifier)

/-- Whether a node has a token of a kind of its own. -/
def hasToken (node : Node) (kind : Kind) : Bool := (node.tokenOfKind? kind).isSome

end LosslessJava.Ast
