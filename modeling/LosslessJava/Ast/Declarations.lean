import LosslessJava.Ast.Expressions

/-!
What declarations and statements hold.
-/
namespace LosslessJava.Ast

open LosslessJava.Tree

abbrev PackageDecl := View .packageDecl

abbrev ImportDecl := View .importDecl

abbrev ModuleDecl := View .moduleDecl

abbrev CompilationUnit := View .compilationUnit

abbrev ExtendsClause := View .extendsClause

abbrev ImplementsClause := View .implementsClause

abbrev PermitsClause := View .permitsClause

abbrev ThrowsClause := View .throwsClause

abbrev ClassBody := View .classBody

abbrev ClassDecl := View .classDecl

abbrev InterfaceDecl := View .interfaceDecl

abbrev EnumDecl := View .enumDecl

abbrev EnumConstant := View .enumConstant

abbrev RecordDecl := View .recordDecl

abbrev RecordComponent := View .recordComponent

abbrev VariableDeclarator := View .variableDeclarator

abbrev FieldDecl := View .fieldDecl

abbrev LocalVarDecl := View .localVarDecl

abbrev Param := View .param

abbrev ParamList := View .paramList

abbrev Block := View .block

abbrev MethodDecl := View .methodDecl

abbrev ConstructorDecl := View .constructorDecl

abbrev IfStmt := View .ifStmt

def CompilationUnit.package? (unit : CompilationUnit) : Option PackageDecl := child? unit.node

def CompilationUnit.imports (unit : CompilationUnit) : List ImportDecl := children unit.node

def CompilationUnit.module? (unit : CompilationUnit) : Option ModuleDecl := child? unit.node

/-- The declarations of types at the top. -/
def CompilationUnit.typeDecls (unit : CompilationUnit) : List Node :=
  unit.node.children.filter (isTypeDecl ·.kind)

def PackageDecl.name? (decl : PackageDecl) : Option QualifiedName := child? decl.node

def ImportDecl.name? (decl : ImportDecl) : Option QualifiedName := child? decl.node

def ImportDecl.isStatic (decl : ImportDecl) : Bool := hasToken decl.node .staticKw

/-- Whether all of a package or type is imported. -/
def ImportDecl.isOnDemand (decl : ImportDecl) : Bool := hasToken decl.node .star

def ModuleDecl.name? (decl : ModuleDecl) : Option QualifiedName := child? decl.node

def ModuleDecl.isOpen (decl : ModuleDecl) : Bool := hasToken decl.node .openKw

/-- What the declarations of classes, interfaces, enums and records have in common. -/
structure TypeHeader where
  modifiers? : Option ModifierList
  name? : Option Leaf
  typeParams? : Option TypeParamList
  extends? : Option ExtendsClause
  implements? : Option ImplementsClause
  permits? : Option PermitsClause

def TypeHeader.ofNode (node : Node) : TypeHeader where
  modifiers? := child? node
  name? := Ast.name? node
  typeParams? := child? node
  extends? := child? node
  implements? := child? node
  permits? := child? node

def ClassDecl.header (decl : ClassDecl) : TypeHeader := .ofNode decl.node

def InterfaceDecl.header (decl : InterfaceDecl) : TypeHeader := .ofNode decl.node

def EnumDecl.header (decl : EnumDecl) : TypeHeader := .ofNode decl.node

def RecordDecl.header (decl : RecordDecl) : TypeHeader := .ofNode decl.node

def ClassDecl.body? (decl : ClassDecl) : Option ClassBody := child? decl.node

/-- The constants in the body. -/
def EnumDecl.constants (decl : EnumDecl) : List EnumConstant :=
  match decl.node.childOfKind? .enumBody with
  | some body => children body
  | none => []

def EnumConstant.name? (constant : EnumConstant) : Option Leaf := Ast.name? constant.node

/-- The components in the header. -/
def RecordDecl.components (decl : RecordDecl) : List RecordComponent :=
  match decl.node.childOfKind? .recordHeader with
  | some header => children header
  | none => []

def RecordDecl.body? (decl : RecordDecl) : Option ClassBody := child? decl.node

def RecordComponent.type? (component : RecordComponent) : Option TypeUse := child? component.node

def RecordComponent.name? (component : RecordComponent) : Option Leaf := Ast.name? component.node

def ExtendsClause.types (clause : ExtendsClause) : List TypeUse := children clause.node

def ImplementsClause.types (clause : ImplementsClause) : List TypeUse := children clause.node

def PermitsClause.types (clause : PermitsClause) : List TypeUse := children clause.node

def ThrowsClause.types (clause : ThrowsClause) : List TypeUse := children clause.node

def ClassBody.members (body : ClassBody) : List Node := body.node.children

def ClassBody.methods (body : ClassBody) : List MethodDecl := children body.node

def ClassBody.fields (body : ClassBody) : List FieldDecl := children body.node

def FieldDecl.type? (decl : FieldDecl) : Option TypeUse := child? decl.node

def FieldDecl.declarators (decl : FieldDecl) : List VariableDeclarator := children decl.node

def LocalVarDecl.type? (decl : LocalVarDecl) : Option TypeUse := child? decl.node

def LocalVarDecl.declarators (decl : LocalVarDecl) : List VariableDeclarator := children decl.node

def VariableDeclarator.name? (declarator : VariableDeclarator) : Option Leaf :=
  Ast.name? declarator.node

/-- The initial value: an expression, or values in braces. -/
def VariableDeclarator.initializer? (declarator : VariableDeclarator) : Option Node :=
  declarator.node.children.find? fun node =>
    node.kind == .arrayInitializer || (exprForm? node.kind).isSome

def MethodDecl.modifiers? (decl : MethodDecl) : Option ModifierList := child? decl.node

def MethodDecl.typeParams? (decl : MethodDecl) : Option TypeParamList := child? decl.node

def MethodDecl.returnType? (decl : MethodDecl) : Option TypeUse := child? decl.node

def MethodDecl.name? (decl : MethodDecl) : Option Leaf := Ast.name? decl.node

def MethodDecl.params? (decl : MethodDecl) : Option ParamList := child? decl.node

def MethodDecl.throws? (decl : MethodDecl) : Option ThrowsClause := child? decl.node

def MethodDecl.body? (decl : MethodDecl) : Option Block := child? decl.node

def ConstructorDecl.name? (decl : ConstructorDecl) : Option Leaf := Ast.name? decl.node

def ConstructorDecl.params? (decl : ConstructorDecl) : Option ParamList := child? decl.node

def ConstructorDecl.body? (decl : ConstructorDecl) : Option Block := child? decl.node

def ParamList.params (list : ParamList) : List Param := children list.node

def Param.type? (param : Param) : Option TypeUse := child? param.node

def Param.name? (param : Param) : Option Leaf := Ast.name? param.node

/-- Whether the parameter stands for any number of arguments. -/
def Param.isVarargs (param : Param) : Bool := hasToken param.node .ellipsis

def Block.statements (block : Block) : List Node := block.node.children

def IfStmt.condition? (stmt : IfStmt) : Option Expr := conditionOf? stmt.node

def IfStmt.thenBranch? (stmt : IfStmt) : Option Node :=
  stmt.node.children.find? fun node => node.kind != .condition && node.kind != .elseBranch

/-- The statement behind `else`. -/
def IfStmt.elseBranch? (stmt : IfStmt) : Option Node :=
  (stmt.node.childOfKind? .elseBranch).bind Node.firstChild?

end LosslessJava.Ast
