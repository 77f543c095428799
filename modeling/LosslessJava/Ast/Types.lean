import LosslessJava.Ast.View

/-!
What types, names and modifiers hold.
-/
namespace LosslessJava.Ast

open LosslessJava.Tree

abbrev QualifiedName := View .qualifiedName

abbrev Annotation := View .annotationUse

abbrev ModifierList := View .modifierList

abbrev TypeParamList := View .typeParamList

abbrev TypeArgList := View .typeArgList

abbrev ClassType := View .classType

abbrev PrimitiveType := View .primitiveType

abbrev ArrayType := View .arrayType

def QualifiedName.segments (name : QualifiedName) : List Leaf := names name.node

/-- The name with dots between its segments and nothing else. -/
def QualifiedName.dotted (name : QualifiedName) : String :=
  ".".intercalate (name.segments.map Leaf.text)

def Annotation.name? (mark : Annotation) : Option QualifiedName := child? mark.node

def ModifierList.keywords (modifiers : ModifierList) : List Kind :=
  modifiers.node.childTokens.map Leaf.kind

def ModifierList.annotations (modifiers : ModifierList) : List Annotation := children modifiers.node

def ModifierList.has (modifiers : ModifierList) (keyword : Kind) : Bool :=
  modifiers.keywords.contains keyword

/-- The names of the type parameters. -/
def TypeParamList.names (params : TypeParamList) : List Leaf :=
  (params.node.children.filter (·.kind == .typeParam)).filterMap name?

def TypeArgList.types (args : TypeArgList) : List TypeUse := children args.node

def ClassType.segments (type : ClassType) : List Leaf := names type.node

def ClassType.typeArgs (type : ClassType) : List TypeArgList := children type.node

def PrimitiveType.keyword? (type : PrimitiveType) : Option Kind :=
  (type.node.childTokens.map Leaf.kind).find? Kind.isPrimitiveType

def ArrayType.element? (type : ArrayType) : Option TypeUse := child? type.node

end LosslessJava.Ast
