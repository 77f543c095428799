/-!
The closed set of kinds: what a token or a node of a Java syntax tree can be.

Kinds are declared in one order (punctuation, reserved words, contextual keywords, literals and
names, then nodes), and that order is the one in which sets of kinds list their members.
-/
namespace LosslessJava

/-- Kind of a token or of a node. Contextual keywords are kinds of tree tokens only: lexing gives
an identifier, and the grammar promotes it where the position calls for the keyword. -/
inductive Kind where
  | leftParen | rightParen | leftBrace | rightBrace | leftBracket | rightBracket | semicolon
  | comma | dot | ellipsis | atSign | colonColon | colon | question | arrow | eq | eqEq | bang
  | bangEq | tilde | lt | ltEq | gt | gtEq | shl | shr | ushr | plus | minus | star | slash
  | percent | amp | pipe | caret | ampAmp | pipePipe | plusPlus | minusMinus | plusEq | minusEq
  | starEq | slashEq | percentEq | ampEq | pipeEq | caretEq | shlEq | shrEq | ushrEq
  | abstractKw | assertKw | booleanKw | breakKw | byteKw | caseKw | catchKw | charKw | classKw
  | constKw | continueKw | defaultKw | doKw | doubleKw | elseKw | enumKw | extendsKw | finalKw
  | finallyKw | floatKw | forKw | gotoKw | ifKw | implementsKw | importKw | instanceofKw | intKw
  | interfaceKw | longKw | nativeKw | newKw | packageKw | privateKw | protectedKw | publicKw
  | returnKw | shortKw | staticKw | strictfpKw | superKw | switchKw | synchronizedKw | thisKw
  | throwKw | throwsKw | transientKw | tryKw | voidKw | volatileKw | whileKw | trueKw | falseKw
  | nullKw
  | exportsKw | moduleKw | nonSealedKw | openKw | opensKw | permitsKw | providesKw | recordKw
  | requiresKw | sealedKw | toKw | transitiveKw | usesKw | whenKw | withKw | yieldKw
  | intLiteral | floatLiteral | charLiteral | stringLiteral | textBlock | identifier | unknown
  | eof
  | compilationUnit | packageDecl | importDecl | moduleDecl | moduleBody | requiresDirective
  | exportsDirective | opensDirective | usesDirective | providesDirective | qualifiedName
  | modifierList | annotationUse | annotationArgList | elementValuePair | elementValueArray
  | classDecl | interfaceDecl | enumDecl | recordDecl | annotationTypeDecl | typeParamList
  | typeParam | typeBound | extendsClause | implementsClause | permitsClause | throwsClause
  | classBody | interfaceBody | enumBody | annotationTypeBody | enumConstant | recordHeader
  | recordComponent
  | fieldDecl | methodDecl | constructorDecl | compactConstructorDecl | annotationMethodDecl
  | defaultValue | initializerBlock | emptyDecl | paramList | param | receiverParam
  | variableDeclarator | dims | arrayInitializer
  | primitiveType | voidType | classType | arrayType | typeArgList | wildcardType
  | intersectionType | unionType
  | block | localVarDecl | localTypeDecl | exprStmt | emptyStmt | labeledStmt | ifStmt
  | elseBranch | condition | assertStmt | whileStmt | doWhileStmt | forStmt | forInit
  | forUpdate | foreachStmt | tryStmt | resourceSpec | resource | catchClause | catchParam
  | finallyClause | switchStmt | returnStmt | throwStmt | breakStmt | continueStmt | yieldStmt
  | synchronizedStmt
  | switchBlock | switchGroup | switchRule | switchLabel | guard | typePattern | recordPattern
  | patternList | guardedPattern | parenPattern | switchExpr
  | literal | nameExpr | parenExpr | thisExpr | superExpr | classLiteral | fieldAccess
  | methodCall | argList | arrayAccess | newExpr | arrayCreation | dimExpr | methodRef
  | lambdaExpr | lambdaParamList | lambdaParam | castExpr | prefixExpr | postfixExpr
  | binaryExpr | assignExpr | conditionalExpr | instanceofExpr
  | error
  | tombstone
  deriving DecidableEq, Repr, Inhabited

namespace Kind

/-- Every kind, in declaration order. -/
def all : List Kind := [
  .leftParen, .rightParen, .leftBrace, .rightBrace, .leftBracket, .rightBracket, .semicolon,
  .comma, .dot, .ellipsis, .atSign, .colonColon, .colon, .question, .arrow, .eq, .eqEq, .bang,
  .bangEq, .tilde, .lt, .ltEq, .gt, .gtEq, .shl, .shr, .ushr, .plus, .minus, .star, .slash,
  .percent, .amp, .pipe, .caret, .ampAmp, .pipePipe, .plusPlus, .minusMinus, .plusEq, .minusEq,
  .starEq, .slashEq, .percentEq, .ampEq, .pipeEq, .caretEq, .shlEq, .shrEq, .ushrEq, .abstractKw,
  .assertKw, .booleanKw, .breakKw, .byteKw, .caseKw, .catchKw, .charKw, .classKw, .constKw,
  .continueKw, .defaultKw, .doKw, .doubleKw, .elseKw, .enumKw, .extendsKw, .finalKw, .finallyKw,
  .floatKw, .forKw, .gotoKw, .ifKw, .implementsKw, .importKw, .instanceofKw, .intKw,
  .interfaceKw, .longKw, .nativeKw, .newKw, .packageKw, .privateKw, .protectedKw, .publicKw,
  .returnKw, .shortKw, .staticKw, .strictfpKw, .superKw, .switchKw, .synchronizedKw, .thisKw,
  .throwKw, .throwsKw, .transientKw, .tryKw, .voidKw, .volatileKw, .whileKw, .trueKw, .falseKw,
  .nullKw, .exportsKw, .moduleKw, .nonSealedKw, .openKw, .opensKw, .permitsKw, .providesKw,
  .recordKw, .requiresKw, .sealedKw, .toKw, .transitiveKw, .usesKw, .whenKw, .withKw, .yieldKw,
  .intLiteral, .floatLiteral, .charLiteral, .stringLiteral, .textBlock, .identifier, .unknown,
  .eof, .compilationUnit, .packageDecl, .importDecl, .moduleDecl, .moduleBody,
  .requiresDirective, .exportsDirective, .opensDirective, .usesDirective, .providesDirective,
  .qualifiedName, .modifierList, .annotationUse, .annotationArgList, .elementValuePair,
  .elementValueArray, .classDecl, .interfaceDecl, .enumDecl, .recordDecl, .annotationTypeDecl,
  .typeParamList, .typeParam, .typeBound, .extendsClause, .implementsClause, .permitsClause,
  .throwsClause, .classBody, .interfaceBody, .enumBody, .annotationTypeBody, .enumConstant,
  .recordHeader, .recordComponent, .fieldDecl, .methodDecl, .constructorDecl,
  .compactConstructorDecl, .annotationMethodDecl, .defaultValue, .initializerBlock, .emptyDecl,
  .paramList, .param, .receiverParam, .variableDeclarator, .dims, .arrayInitializer,
  .primitiveType, .voidType, .classType, .arrayType, .typeArgList, .wildcardType,
  .intersectionType, .unionType, .block, .localVarDecl, .localTypeDecl, .exprStmt, .emptyStmt,
  .labeledStmt, .ifStmt, .elseBranch, .condition, .assertStmt, .whileStmt, .doWhileStmt,
  .forStmt, .forInit, .forUpdate, .foreachStmt, .tryStmt, .resourceSpec, .resource, .catchClause,
  .catchParam, .finallyClause, .switchStmt, .returnStmt, .throwStmt, .breakStmt, .continueStmt,
  .yieldStmt, .synchronizedStmt, .switchBlock, .switchGroup, .switchRule, .switchLabel, .guard,
  .typePattern, .recordPattern, .patternList, .guardedPattern, .parenPattern, .switchExpr,
  .literal, .nameExpr, .parenExpr, .thisExpr, .superExpr, .classLiteral, .fieldAccess,
  .methodCall, .argList, .arrayAccess, .newExpr, .arrayCreation, .dimExpr, .methodRef,
  .lambdaExpr, .lambdaParamList, .lambdaParam, .castExpr, .prefixExpr, .postfixExpr, .binaryExpr,
  .assignExpr, .conditionalExpr, .instanceofExpr, .error, .tombstone]

/-- Position in declaration order. -/
def ordinal (k : Kind) : Nat := k.ctorIdx

/-- How many kinds there are. -/
def count : Nat := all.length

/-- Reads a position in declaration order back. -/
def ofOrdinal? (n : Nat) : Option Kind := all[n]?

theorem ofOrdinal?_ordinal (k : Kind) : ofOrdinal? k.ordinal = some k := by
  cases k <;> rfl

theorem ordinal_lt (k : Kind) : k.ordinal < count := (List.getElem?_eq_some_iff.mp (ofOrdinal?_ordinal k)).1

theorem mem_all (k : Kind) : k ∈ all := List.mem_of_getElem? (ofOrdinal?_ordinal k)

theorem ordinal_inj {k l : Kind} : k.ordinal = l.ordinal ↔ k = l := by
  constructor
  · intro same
    have found := ofOrdinal?_ordinal k
    rw [same, ofOrdinal?_ordinal l] at found
    exact (Option.some.inj found).symm
  · intro same
    rw [same]

/-- Upper-case name of a kind. -/
def name : Kind → String
  | .leftParen => "LEFT_PAREN"
  | .rightParen => "RIGHT_PAREN"
  | .leftBrace => "LEFT_BRACE"
  | .rightBrace => "RIGHT_BRACE"
  | .leftBracket => "LEFT_BRACKET"
  | .rightBracket => "RIGHT_BRACKET"
  | .semicolon => "SEMICOLON"
  | .comma => "COMMA"
  | .dot => "DOT"
  | .ellipsis => "ELLIPSIS"
  | .atSign => "AT"
  | .colonColon => "COLON_COLON"
  | .colon => "COLON"
  | .question => "QUESTION"
  | .arrow => "ARROW"
  | .eq => "EQ"
  | .eqEq => "EQ_EQ"
  | .bang => "BANG"
  | .bangEq => "BANG_EQ"
  | .tilde => "TILDE"
  | .lt => "LT"
  | .ltEq => "LT_EQ"
  | .gt => "GT"
  | .gtEq => "GT_EQ"
  | .shl => "SHL"
  | .shr => "SHR"
  | .ushr => "USHR"
  | .plus => "PLUS"
  | .minus => "MINUS"
  | .star => "STAR"
  | .slash => "SLASH"
  | .percent => "PERCENT"
  | .amp => "AMP"
  | .pipe => "PIPE"
  | .caret => "CARET"
  | .ampAmp => "AMP_AMP"
  | .pipePipe => "PIPE_PIPE"
  | .plusPlus => "PLUS_PLUS"
  | .minusMinus => "MINUS_MINUS"
  | .plusEq => "PLUS_EQ"
  | .minusEq => "MINUS_EQ"
  | .starEq => "STAR_EQ"
  | .slashEq => "SLASH_EQ"
  | .percentEq => "PERCENT_EQ"
  | .ampEq => "AMP_EQ"
  | .pipeEq => "PIPE_EQ"
  | .caretEq => "CARET_EQ"
  | .shlEq => "SHL_EQ"
  | .shrEq => "SHR_EQ"
  | .ushrEq => "USHR_EQ"
  | .abstractKw => "ABSTRACT_KW"
  | .assertKw => "ASSERT_KW"
  | .booleanKw => "BOOLEAN_KW"
  | .breakKw => "BREAK_KW"
  | .byteKw => "BYTE_KW"
  | .caseKw => "CASE_KW"
  | .catchKw => "CATCH_KW"
  | .charKw => "CHAR_KW"
  | .classKw => "CLASS_KW"
  | .constKw => "CONST_KW"
  | .continueKw => "CONTINUE_KW"
  | .defaultKw => "DEFAULT_KW"
  | .doKw => "DO_KW"
  | .doubleKw => "DOUBLE_KW"
  | .elseKw => "ELSE_KW"
  | .enumKw => "ENUM_KW"
  | .extendsKw => "EXTENDS_KW"
  | .finalKw => "FINAL_KW"
  | .finallyKw => "FINALLY_KW"
  | .floatKw => "FLOAT_KW"
  | .forKw => "FOR_KW"
  | .gotoKw => "GOTO_KW"
  | .ifKw => "IF_KW"
  | .implementsKw => "IMPLEMENTS_KW"
  | .importKw => "IMPORT_KW"
  | .instanceofKw => "INSTANCEOF_KW"
  | .intKw => "INT_KW"
  | .interfaceKw => "INTERFACE_KW"
  | .longKw => "LONG_KW"
  | .nativeKw => "NATIVE_KW"
  | .newKw => "NEW_KW"
  | .packageKw => "PACKAGE_KW"
  | .privateKw => "PRIVATE_KW"
  | .protectedKw => "PROTECTED_KW"
  | .publicKw => "PUBLIC_KW"
  | .returnKw => "RETURN_KW"
  | .shortKw => "SHORT_KW"
  | .staticKw => "STATIC_KW"
  | .strictfpKw => "STRICTFP_KW"
  | .superKw => "SUPER_KW"
  | .switchKw => "SWITCH_KW"
  | .synchronizedKw => "SYNCHRONIZED_KW"
  | .thisKw => "THIS_KW"
  | .throwKw => "THROW_KW"
  | .throwsKw => "THROWS_KW"
  | .transientKw => "TRANSIENT_KW"
  | .tryKw => "TRY_KW"
  | .voidKw => "VOID_KW"
  | .volatileKw => "VOLATILE_KW"
  | .whileKw => "WHILE_KW"
  | .trueKw => "TRUE_KW"
  | .falseKw => "FALSE_KW"
  | .nullKw => "NULL_KW"
  | .exportsKw => "EXPORTS_KW"
  | .moduleKw => "MODULE_KW"
  | .nonSealedKw => "NON_SEALED_KW"
  | .openKw => "OPEN_KW"
  | .opensKw => "OPENS_KW"
  | .permitsKw => "PERMITS_KW"
  | .providesKw => "PROVIDES_KW"
  | .recordKw => "RECORD_KW"
  | .requiresKw => "REQUIRES_KW"
  | .sealedKw => "SEALED_KW"
  | .toKw => "TO_KW"
  | .transitiveKw => "TRANSITIVE_KW"
  | .usesKw => "USES_KW"
  | .whenKw => "WHEN_KW"
  | .withKw => "WITH_KW"
  | .yieldKw => "YIELD_KW"
  | .intLiteral => "INT_LITERAL"
  | .floatLiteral => "FLOAT_LITERAL"
  | .charLiteral => "CHAR_LITERAL"
  | .stringLiteral => "STRING_LITERAL"
  | .textBlock => "TEXT_BLOCK"
  | .identifier => "NAME"
  | .unknown => "UNKNOWN"
  | .eof => "EOF"
  | .compilationUnit => "COMPILATION_UNIT"
  | .packageDecl => "PACKAGE_DECL"
  | .importDecl => "IMPORT_DECL"
  | .moduleDecl => "MODULE_DECL"
  | .moduleBody => "MODULE_BODY"
  | .requiresDirective => "REQUIRES_DIRECTIVE"
  | .exportsDirective => "EXPORTS_DIRECTIVE"
  | .opensDirective => "OPENS_DIRECTIVE"
  | .usesDirective => "USES_DIRECTIVE"
  | .providesDirective => "PROVIDES_DIRECTIVE"
  | .qualifiedName => "QUALIFIED_NAME"
  | .modifierList => "MODIFIER_LIST"
  | .annotationUse => "ANNOTATION"
  | .annotationArgList => "ANNOTATION_ARG_LIST"
  | .elementValuePair => "ELEMENT_VALUE_PAIR"
  | .elementValueArray => "ELEMENT_VALUE_ARRAY"
  | .classDecl => "CLASS_DECL"
  | .interfaceDecl => "INTERFACE_DECL"
  | .enumDecl => "ENUM_DECL"
  | .recordDecl => "RECORD_DECL"
  | .annotationTypeDecl => "ANNOTATION_TYPE_DECL"
  | .typeParamList => "TYPE_PARAM_LIST"
  | .typeParam => "TYPE_PARAM"
  | .typeBound => "TYPE_BOUND"
  | .extendsClause => "EXTENDS_CLAUSE"
  | .implementsClause => "IMPLEMENTS_CLAUSE"
  | .permitsClause => "PERMITS_CLAUSE"
  | .throwsClause => "THROWS_CLAUSE"
  | .classBody => "CLASS_BODY"
  | .interfaceBody => "INTERFACE_BODY"
  | .enumBody => "ENUM_BODY"
  | .annotationTypeBody => "ANNOTATION_TYPE_BODY"
  | .enumConstant => "ENUM_CONSTANT"
  | .recordHeader => "RECORD_HEADER"
  | .recordComponent => "RECORD_COMPONENT"
  | .fieldDecl => "FIELD_DECL"
  | .methodDecl => "METHOD_DECL"
  | .constructorDecl => "CONSTRUCTOR_DECL"
  | .compactConstructorDecl => "COMPACT_CONSTRUCTOR_DECL"
  | .annotationMethodDecl => "ANNOTATION_METHOD_DECL"
  | .defaultValue => "DEFAULT_VALUE"
  | .initializerBlock => "INITIALIZER_BLOCK"
  | .emptyDecl => "EMPTY_DECL"
  | .paramList => "PARAM_LIST"
  | .param => "PARAM"
  | .receiverParam => "RECEIVER_PARAM"
  | .variableDeclarator => "VARIABLE_DECLARATOR"
  | .dims => "DIMS"
  | .arrayInitializer => "ARRAY_INITIALIZER"
  | .primitiveType => "PRIMITIVE_TYPE"
  | .voidType => "VOID_TYPE"
  | .classType => "CLASS_TYPE"
  | .arrayType => "ARRAY_TYPE"
  | .typeArgList => "TYPE_ARG_LIST"
  | .wildcardType => "WILDCARD_TYPE"
  | .intersectionType => "INTERSECTION_TYPE"
  | .unionType => "UNION_TYPE"
  | .block => "BLOCK"
  | .localVarDecl => "LOCAL_VAR_DECL"
  | .localTypeDecl => "LOCAL_TYPE_DECL"
  | .exprStmt => "EXPR_STMT"
  | .emptyStmt => "EMPTY_STMT"
  | .labeledStmt => "LABELED_STMT"
  | .ifStmt => "IF_STMT"
  | .elseBranch => "ELSE_BRANCH"
  | .condition => "CONDITION"
  | .assertStmt => "ASSERT_STMT"
  | .whileStmt => "WHILE_STMT"
  | .doWhileStmt => "DO_WHILE_STMT"
  | .forStmt => "FOR_STMT"
  | .forInit => "FOR_INIT"
  | .forUpdate => "FOR_UPDATE"
  | .foreachStmt => "FOREACH_STMT"
  | .tryStmt => "TRY_STMT"
  | .resourceSpec => "RESOURCE_SPEC"
  | .resource => "RESOURCE"
  | .catchClause => "CATCH_CLAUSE"
  | .catchParam => "CATCH_PARAM"
  | .finallyClause => "FINALLY_CLAUSE"
  | .switchStmt => "SWITCH_STMT"
  | .returnStmt => "RETURN_STMT"
  | .throwStmt => "THROW_STMT"
  | .breakStmt => "BREAK_STMT"
  | .continueStmt => "CONTINUE_STMT"
  | .yieldStmt => "YIELD_STMT"
  | .synchronizedStmt => "SYNCHRONIZED_STMT"
  | .switchBlock => "SWITCH_BLOCK"
  | .switchGroup => "SWITCH_GROUP"
  | .switchRule => "SWITCH_RULE"
  | .switchLabel => "SWITCH_LABEL"
  | .guard => "GUARD"
  | .typePattern => "TYPE_PATTERN"
  | .recordPattern => "RECORD_PATTERN"
  | .patternList => "PATTERN_LIST"
  | .guardedPattern => "GUARDED_PATTERN"
  | .parenPattern => "PAREN_PATTERN"
  | .switchExpr => "SWITCH_EXPR"
  | .literal => "LITERAL"
  | .nameExpr => "NAME_EXPR"
  | .parenExpr => "PAREN_EXPR"
  | .thisExpr => "THIS_EXPR"
  | .superExpr => "SUPER_EXPR"
  | .classLiteral => "CLASS_LITERAL"
  | .fieldAccess => "FIELD_ACCESS"
  | .methodCall => "METHOD_CALL"
  | .argList => "ARG_LIST"
  | .arrayAccess => "ARRAY_ACCESS"
  | .newExpr => "NEW_EXPR"
  | .arrayCreation => "ARRAY_CREATION"
  | .dimExpr => "DIM_EXPR"
  | .methodRef => "METHOD_REF"
  | .lambdaExpr => "LAMBDA_EXPR"
  | .lambdaParamList => "LAMBDA_PARAM_LIST"
  | .lambdaParam => "LAMBDA_PARAM"
  | .castExpr => "CAST_EXPR"
  | .prefixExpr => "PREFIX_EXPR"
  | .postfixExpr => "POSTFIX_EXPR"
  | .binaryExpr => "BINARY_EXPR"
  | .assignExpr => "ASSIGN_EXPR"
  | .conditionalExpr => "CONDITIONAL_EXPR"
  | .instanceofExpr => "INSTANCEOF_EXPR"
  | .error => "ERROR"
  | .tombstone => "TOMBSTONE"

/-- Source text of a kind that has only one: punctuation and keywords. -/
def text? : Kind → Option String
  | .leftParen => some "("
  | .rightParen => some ")"
  | .leftBrace => some "\x7b"
  | .rightBrace => some "\x7d"
  | .leftBracket => some "["
  | .rightBracket => some "]"
  | .semicolon => some ";"
  | .comma => some ","
  | .dot => some "."
  | .ellipsis => some "..."
  | .atSign => some "@"
  | .colonColon => some "::"
  | .colon => some ":"
  | .question => some "?"
  | .arrow => some "->"
  | .eq => some "="
  | .eqEq => some "=="
  | .bang => some "!"
  | .bangEq => some "!="
  | .tilde => some "~"
  | .lt => some "<"
  | .ltEq => some "<="
  | .gt => some ">"
  | .gtEq => some ">="
  | .shl => some "<<"
  | .shr => some ">>"
  | .ushr => some ">>>"
  | .plus => some "+"
  | .minus => some "-"
  | .star => some "*"
  | .slash => some "/"
  | .percent => some "%"
  | .amp => some "&"
  | .pipe => some "|"
  | .caret => some "^"
  | .ampAmp => some "&&"
  | .pipePipe => some "||"
  | .plusPlus => some "++"
  | .minusMinus => some "--"
  | .plusEq => some "+="
  | .minusEq => some "-="
  | .starEq => some "*="
  | .slashEq => some "/="
  | .percentEq => some "%="
  | .ampEq => some "&="
  | .pipeEq => some "|="
  | .caretEq => some "^="
  | .shlEq => some "<<="
  | .shrEq => some ">>="
  | .ushrEq => some ">>>="
  | .abstractKw => some "abstract"
  | .assertKw => some "assert"
  | .booleanKw => some "boolean"
  | .breakKw => some "break"
  | .byteKw => some "byte"
  | .caseKw => some "case"
  | .catchKw => some "catch"
  | .charKw => some "char"
  | .classKw => some "class"
  | .constKw => some "const"
  | .continueKw => some "continue"
  | .defaultKw => some "default"
  | .doKw => some "do"
  | .doubleKw => some "double"
  | .elseKw => some "else"
  | .enumKw => some "enum"
  | .extendsKw => some "extends"
  | .finalKw => some "final"
  | .finallyKw => some "finally"
  | .floatKw => some "float"
  | .forKw => some "for"
  | .gotoKw => some "goto"
  | .ifKw => some "if"
  | .implementsKw => some "implements"
  | .importKw => some "import"
  | .instanceofKw => some "instanceof"
  | .intKw => some "int"
  | .interfaceKw => some "interface"
  | .longKw => some "long"
  | .nativeKw => some "native"
  | .newKw => some "new"
  | .packageKw => some "package"
  | .privateKw => some "private"
  | .protectedKw => some "protected"
  | .publicKw => some "public"
  | .returnKw => some "return"
  | .shortKw => some "short"
  | .staticKw => some "static"
  | .strictfpKw => some "strictfp"
  | .superKw => some "super"
  | .switchKw => some "switch"
  | .synchronizedKw => some "synchronized"
  | .thisKw => some "this"
  | .throwKw => some "throw"
  | .throwsKw => some "throws"
  | .transientKw => some "transient"
  | .tryKw => some "try"
  | .voidKw => some "void"
  | .volatileKw => some "volatile"
  | .whileKw => some "while"
  | .trueKw => some "true"
  | .falseKw => some "false"
  | .nullKw => some "null"
  | .exportsKw => some "exports"
  | .moduleKw => some "module"
  | .nonSealedKw => some "non-sealed"
  | .openKw => some "open"
  | .opensKw => some "opens"
  | .permitsKw => some "permits"
  | .providesKw => some "provides"
  | .recordKw => some "record"
  | .requiresKw => some "requires"
  | .sealedKw => some "sealed"
  | .toKw => some "to"
  | .transitiveKw => some "transitive"
  | .usesKw => some "uses"
  | .whenKw => some "when"
  | .withKw => some "with"
  | .yieldKw => some "yield"
  | _ => none

/-- Kinds of tokens are declared before kinds of nodes. -/
def isToken (k : Kind) : Bool := decide (k.ordinal < Kind.compilationUnit.ordinal)

/-- Kinds of nodes; the tombstone of an event that was never completed is neither node nor token. -/
def isNode (k : Kind) : Bool := !k.isToken && k != .tombstone

/-- Words that are never names, among them the literals that are words. -/
def isReservedWord (k : Kind) : Bool :=
  decide (Kind.abstractKw.ordinal ≤ k.ordinal) && decide (k.ordinal ≤ Kind.nullKw.ordinal)

/-- Words that are keywords in some positions and names in all others, and `non-sealed`. -/
def isContextualKeyword (k : Kind) : Bool :=
  decide (Kind.exportsKw.ordinal ≤ k.ordinal) && decide (k.ordinal ≤ Kind.yieldKw.ordinal)

def isKeyword (k : Kind) : Bool := k.isReservedWord || k.isContextualKeyword

def isLiteral : Kind → Bool
  | .intLiteral | .floatLiteral | .charLiteral | .stringLiteral | .textBlock => true
  | .trueKw | .falseKw | .nullKw => true
  | _ => false

def isPrimitiveType : Kind → Bool
  | .booleanKw | .byteKw | .charKw | .shortKw | .intKw | .longKw | .floatKw | .doubleKw => true
  | _ => false

/-- Reserved word with the given spelling. -/
def ofReservedWord? (word : String) : Option Kind :=
  all.find? fun k => k.isReservedWord && k.text? == some word

/-- Contextual keyword with the given spelling. -/
def ofContextualKeyword? (word : String) : Option Kind :=
  all.find? fun k => k.isContextualKeyword && k.text? == some word

/-- How a message names a kind: fixed texts stand in backticks, the others are described. -/
def describe (k : Kind) : String :=
  match k.text? with
  | some text => "`" ++ text ++ "`"
  | none =>
    match k with
    | .identifier => "identifier"
    | .intLiteral => "integer literal"
    | .floatLiteral => "floating-point literal"
    | .charLiteral => "character literal"
    | .stringLiteral => "string literal"
    | .textBlock => "text block"
    | .eof => "end of input"
    | other => other.name

end Kind

end LosslessJava
