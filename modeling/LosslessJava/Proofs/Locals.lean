import LosslessJava.Proofs.Accessors
import LosslessJava.Proofs.Bodies
import LosslessJava.Proofs.Operators

/-! Local variables and comparisons. A type with a name behind it declares a variable, whatever the type holds; a name,
`<` and another name compare the two. -/

namespace LosslessJava

open LosslessJava.Parser

namespace TypePart

variable {form : TypeForm}

private theorem tokens_arrayOf (element : Shape) (dims : Nat) :
    (arrayOf element dims).tokens.map Prod.fst = element.tokens.map Prod.fst ++ brackets dims := by
  induction dims generalizing element with
  | zero => simp [arrayOf, brackets]
  | succ dims ih => simp [arrayOf, ih, brackets, Shape.tokens, Shape.tokensAll]

private theorem tokens_row (part : TypePart form) : (Shape.tokensAll part.row).map Prod.fst = part.kinds := by
  induction part with
  | primitive kind proper dims => simp [row, kinds, Shape.tokensAll, tokens_arrayOf, Shape.tokens]
  | named rest dims ih => simp [row, kinds, Shape.tokensAll, tokens_arrayOf, Shape.tokens, ih]
  | bare rest ih => exact ih
  | diamond rest ih => simp [row, kinds, Shape.tokensAll, Shape.tokens, ih]
  | generic inside rest ih ih' => simp [row, kinds, Shape.tokensAll, Shape.tokens, Shape.tokensAll_append, ih, ih']
  | stop => rfl
  | next rest ih => simp [row, kinds, Shape.tokensAll, Shape.tokens, ih]
  | last first ih => exact ih
  | more first rest ih ih' => simp [row, kinds, Shape.tokensAll, Shape.tokens, Shape.tokensAll_append, ih, ih']
  | unbounded => rfl
  | bounded bound proper type ih => simp [row, kinds, Shape.tokensAll, Shape.tokens, ih]
  | only type ih => exact ih

private theorem tokens_shape (type : TypePart .type) : type.shape.tokens.map Prod.fst = type.kinds := by
  have whole := tokens_row type
  rw [row_type] at whole
  simpa [Shape.tokensAll] using whole

end TypePart

/-- If a name stands behind a type, then `<`, a dot, a bracket or that name stands behind the first name of the type. -/
theorem TokenStream.Spans.behind_name {stream : TokenStream} {rest : TypePart .segments} {count i j : Nat}
    (spans : stream.Spans (.named rest count) i j) (name : stream.kindAt j = .identifier) :
    stream.kindAt (i + 1) = .lt ∨ stream.kindAt (i + 1) = .dot ∨ stream.kindAt (i + 1) = .leftBracket ∨
      stream.kindAt (i + 1) = .identifier := by
  cases spans with
  | named here segments dims =>
    cases segments with
    | bare away further =>
      cases further with
      | stop =>
        cases dims with
        | stop => exact .inr (.inr (.inr name))
        | more opener => exact .inr (.inr (.inl opener))
      | next dot => exact .inr (.inl dot)
    | diamond opener | generic opener => exact .inl opener

/-- A name that is nothing else anywhere. -/
def Ordinary (name : String) : Prop := Kind.ofContextualKeyword? name = none ∧ name ≠ "non"

namespace Grammar

variable {env : Env} {level : Level} {i j : Nat}

private theorem isWordAt_ordinary {n : Nat} {keyword : Kind} (contextual : keyword.isContextualKeyword = true)
    (ordinary : Ordinary (env.stream.textAt (i + n))) : isWordAt ⟨env.stream, i⟩ n keyword = false := by
  rw [isWordAt, TokenCursor.nthText_eq, Bool.and_eq_false_iff]
  refine .inr (beq_false_of_ne fun same => ?_)
  have none := List.find?_eq_none.mp ordinary.1 keyword (Kind.mem_all keyword)
  simp [contextual, same] at none

private theorem Unmarked.of_name (here : env.stream.kindAt i = .identifier) (ordinary : Ordinary (env.stream.textAt i)) :
    Unmarked env.stream i := by
  have sealed : isWordAt ⟨env.stream, i⟩ 0 .sealedKw = false := isWordAt_ordinary (by decide) (by simpa using ordinary)
  refine ⟨by rw [here]; decide, by rw [here]; decide +kernel, by rw [isSealed, sealed, Bool.false_and], ?_⟩
  have other : ((⟨env.stream, i⟩ : TokenCursor).nthText 0 == "non") = false := by
    rw [TokenCursor.nthText_eq]
    exact beq_false_of_ne ordinary.2
  simp [isNonSealed, other]

private theorem variableDeclarators_follows (name : env.stream.kindAt i = .identifier)
    (ended : env.stream.kindAt (i + 1) = .semicolon) :
    Follows env level i variableDeclarators fun _ row k =>
      row = [.node .variableDeclarator [.token .identifier 1]] ∧ k = i + 1 := by
  have named : Follows env level i (require .identifier) fun _ row k => row = [.token .identifier 1] ∧ k = i + 1 :=
    .require name (by decide) ⟨rfl, rfl⟩
  have initial : Follows env level (i + 1) optionalInitializer fun _ row k => row = [] ∧ k = i + 1 := by
    have refused : Follows env level (i + 1) (accept .eq) fun found row k => found = false ∧ row = [] ∧ k = i + 1 :=
      .refuse (by rw [ended]; decide) ⟨rfl, rfl, rfl⟩
    refine refused.bind fun found row k given => ?_
    obtain ⟨rfl, rfl, rfl⟩ := given
    exact .pure ⟨rfl, rfl⟩
  have one : Follows env level i (Functor.discard (Parser.node .variableDeclarator do
      require .identifier
      dims
      optionalInitializer)) fun _ row k => row = [.node .variableDeclarator [.token .identifier 1]] ∧ k = i + 1 := by
    refine .node (by decide) <| named.bind fun _ row k given => ?_
    obtain ⟨rfl, rfl⟩ := given
    refine (dims_none (by rw [ended]; decide)).bind fun _ row k given => ?_
    obtain ⟨rfl, rfl⟩ := given
    exact initial.weaken fun _ row k ⟨empty, still⟩ => ⟨by rw [empty]; rfl, still⟩
  refine .loopEnd <| one.bind fun _ row k given => ?_
  obtain ⟨rfl, rfl⟩ := given
  exact .refuse (by rw [ended]; decide) ⟨rfl, rfl, rfl⟩

private theorem localVarDecl_follows {type : TypePart .type} (bare : Unmarked env.stream i) (spans : env.stream.Spans type i j)
    (room : level.depth + type.nesting < env.options.maxDepth) (name : env.stream.kindAt j = .identifier)
    (ended : env.stream.kindAt (j + 1) = .semicolon) :
    Follows env level i (localVarDecl statementEnd) fun _ row k => row = [.node .localVarDecl
      [type.shape, .node .variableDeclarator [.token .identifier 1], .token .semicolon 1]] ∧ k = j + 2 := by
  refine .node (by decide) <| (modifiers_none bare).forget.bind fun _ row k given => ?_
  obtain ⟨_, -, rfl, rfl⟩ := given
  refine (type_follows (agrees_of_spans spans (roomy_of_nesting spans room))).bind fun _ row k given => ?_
  obtain ⟨rfl, rfl⟩ := given
  refine (variableDeclarators_follows name ended).bind fun _ row k given => ?_
  obtain ⟨rfl, rfl⟩ := given
  refine (semicolon_follows ended).weaken fun _ row k given => ?_
  obtain ⟨rfl, rfl⟩ := given
  exact ⟨by simp [type.row_type], rfl⟩

private theorem mem_of_isPrimitiveType {kind : Kind} (primitive : kind.isPrimitiveType = true) :
    kind ∈ [.booleanKw, .byteKw, .charKw, .shortKw, .intKw, .longKw, .floatKw, .doubleKw] := by
  unfold Kind.isPrimitiveType at primitive
  split at primitive
  case h_9 => cases primitive
  all_goals simp

/-- A statement that begins with a keyword for a primitive type is a declaration or an expression. -/
theorem statement_primitive {kind : Kind} {answer : Bool} {told : List Shape → Nat → Prop}
    (room : level.depth < env.options.maxDepth) (here : env.stream.kindAt i = kind) (primitive : kind.isPrimitiveType = true)
    (decided : Lookahead.Clear ⟨⟨env.stream, i⟩, env.options.lookaheadLimit⟩
      (Lookahead.succeeds Lookahead.isLocalVarDecl) answer)
    (rest : Follows env level.deeper i (if answer then localVarDecl statementEnd else exprStmt) fun _ row k => told row k) :
    Follows env level i (call .statement) fun _ row k => told row k := by
  have other : startsLocalType kind = false := by
    have among := mem_of_isPrimitiveType primitive
    fin_cases among <;> rfl
  have variable' : startsLocalVar kind = true := by simp [startsLocalVar, primitive]
  have plain : Follows env level.deeper i plainStatement fun _ row k => told row k := by
    refine .look ?_
    rw [TokenCursor.nth_eq, Nat.add_zero, here, other, variable']
    refine .look ?_
    rw [if_neg (by simp)]
    refine (andThen_follows (decideBy_follows decided)).bind fun found row k given => ?_
    obtain ⟨rfl, rfl, rfl⟩ := given
    exact rest
  refine .call <| .nested room <| .look ?_
  rw [TokenCursor.nth_eq, Nat.add_zero, here]
  have among := mem_of_isPrimitiveType primitive
  fin_cases among <;> exact plain

private theorem isLocalVarDecl_clear {type : TypePart .type} (spans : env.stream.Spans type i j)
    (name : env.stream.kindAt j = .identifier) (ahead : j - i + 1 < env.options.lookaheadLimit) :
    Lookahead.Clear ⟨⟨env.stream, i⟩, env.options.lookaheadLimit⟩ (Lookahead.succeeds Lookahead.isLocalVarDecl) true := by
  have moved := spans.lt
  have final : env.stream.kindAt i ≠ .finalKw := by
    cases spans with
    | @primitive kind proper _ _ _ here =>
      rw [here]
      rintro rfl
      cases proper
    | named here => rw [here]; decide
  refine Lookahead.clear_succeeds (Lookahead.accepts_bind.mpr ⟨0, ?_, Lookahead.accepts_bind.mpr ⟨j - i, ?_, ?_⟩⟩)
  · exact Lookahead.accepts_localModifiers (Nat.zero_lt_of_lt ahead) spans.type_plain.1 final
  · exact Lookahead.accepts_type spans rfl (show j = i + (j - i) by omega) ahead
  · exact Lookahead.accepts_lift.mpr (Lookahead.sees_yes (Nat.lt_of_succ_lt ahead) (by
      rw [show i + (j - i) = j by omega]
      exact name))

private theorem localVar_follows {type : TypePart .type} (spans : env.stream.Spans type i j)
    (ordinary : env.stream.kindAt i = .identifier → Ordinary (env.stream.textAt i))
    (room : level.depth + 1 + type.nesting < env.options.maxDepth) (ahead : j - i + 1 < env.options.lookaheadLimit)
    (name : env.stream.kindAt j = .identifier) (ended : env.stream.kindAt (j + 1) = .semicolon) :
    Follows env level i (call .statement) fun _ row k => row = [.node .localVarDecl
      [type.shape, .node .variableDeclarator [.token .identifier 1], .token .semicolon 1]] ∧ k = j + 2 := by
  have decided := isLocalVarDecl_clear spans name ahead
  cases type with
  | primitive kind proper count =>
    obtain ⟨here, dims⟩ : env.stream.kindAt i = kind ∧ True := by cases spans; exact ⟨‹_›, trivial⟩
    have among := mem_of_isPrimitiveType proper
    have bare : Unmarked env.stream i := by
      refine .of_kind here ?_ ?_ ?_ <;> (fin_cases among <;> decide +kernel)
    exact statement_primitive (by omega) here proper decided (localVarDecl_follows bare spans room name ended)
  | named rest count =>
    have here : env.stream.kindAt i = .identifier := by cases spans; assumption
    have plain : BeginsPlain env i := by
      have next := spans.behind_name name
      refine ⟨here, ?_, ?_, fun both => ?_⟩
      · rcases next with same | same | same | same <;> (rw [same]; decide)
      · rw [isYieldStmt, isWordAt_ordinary (by decide) (by simpa using ordinary here), Bool.false_and]
      · rw [isWordAt_ordinary (by decide) (by simpa using ordinary here)] at both
        cases both.1
    exact statement_name (by omega) plain decided (localVarDecl_follows (.of_name here (ordinary here)) spans room name ended)

private theorem name_compared (plain : env.stream.Unannotated) (regular : env.stream.Regular)
    (bare : ∀ index, env.stream.kindAt index ≠ .colonColon) (sound : level.sound = true)
    (here : env.stream.kindAt i = .identifier) (angle : env.stream.kindAt (i + 1) = .lt) :
    ReadsNode env level i unary nameNode (i + 1) := by
  have name : Forms env level i plainName fun row k => row = [nameNode] ∧ k = i + 1 :=
    plainName_forms here (by decide) (callOr_plain (by rw [angle]; decide))
  refine unary_attached (by rw [here]; rfl) <|
    attachedOperand_reads (by decide) (primary_nameExpr here (nameExpr_compared plain regular bare sound here angle name)) ?_
  exact postfixExpr_carries (by rw [angle]; rfl)

def comparisonNode : Shape := .node .binaryExpr [nameNode, .token .lt 1, nameNode]

/-- A name, `<` and another name are a comparison where a semicolon stands behind them. -/
theorem comparison_follows (plain : env.stream.Unannotated) (regular : env.stream.Regular)
    (bare : ∀ index, env.stream.kindAt index ≠ .colonColon) (sound : level.sound = true)
    (ordinary : Ordinary (env.stream.textAt i)) (room : level.depth + 2 < env.options.maxDepth)
    (ahead : 4 < env.options.lookaheadLimit)
    (reads : env.stream.Stands [.identifier, .lt, .identifier, .semicolon] i j) :
    Follows env level i (call .statement) fun _ row k =>
      row = [.node .exprStmt [comparisonNode, .token .semicolon 1]] ∧ k = j := by
  obtain ⟨here, angle, other, ended, rfl⟩ := reads
  have begins : BeginsPlain env i := by
    refine ⟨here, by rw [angle]; decide, ?_, fun both => ?_⟩
    · rw [isYieldStmt, isWordAt_ordinary (by decide) (by simpa using ordinary), Bool.false_and]
    · rw [isWordAt_ordinary (by decide) (by simpa using ordinary)] at both
      cases both.1
  have argument : env.stream.Spans (.named (.bare .stop) 0) (i + 2) (i + 3) :=
    .named other (.bare (by rw [ended]; decide) (.stop fun dot => by rw [ended] at dot; cases dot))
      (.stop fun bracket => by rw [ended] at bracket; cases bracket)
  have decided : Lookahead.Clear ⟨⟨env.stream, i⟩, env.options.lookaheadLimit⟩
      (Lookahead.succeeds Lookahead.isLocalVarDecl) false := by
    refine Lookahead.clear_fails (Lookahead.clear_next
      (Lookahead.accepts_localModifiers (Nat.zero_lt_of_lt ahead) (by simp [here]) (by simp [here])) (Lookahead.rejects_first ?_))
    exact Lookahead.rejects_type here angle argument (by rw [ended]; decide) (by rw [ended]; decide) ahead
  have right : ReadsNode env level.deeper.deeper (i + 1 + 1) (call (.expression (Power.relational + 1))) nameNode (i + 3) :=
    name_reads room other (by rw [ended]; exact ⟨by decide, by decide, by decide⟩) (by rw [ended]; decide) (by rw [ended]; rfl)
  have at_angle : Operator.at? ⟨env.stream, i + 1⟩ = some ⟨.lt, 1, .relational⟩ := by
    have current : (⟨env.stream, i + 1⟩ : TokenCursor).current = .lt := by
      rw [TokenCursor.current, TokenCursor.nth_eq, Nat.add_zero, angle]
    rw [Operator.at?, current]
    rfl
  have compared : CarriesSome env level.deeper.deeper (i + 1) (operatorStep .assignment) nameNode comparisonNode (i + 3) :=
    operatorStep_carries at_angle (by decide) (by decide) (operation_binary ⟨by decide, by decide⟩ (by decide)
      (TokenStream.lt_size_of_ne_eof other (by decide)) right)
  have expression : ReadsNode env level.deeper i anyExpression comparisonNode (i + 3) := by
    refine expression_reads (show level.depth + 1 < _ by omega) (name_compared plain regular bare sound here angle)
      (.loopOn compared (.loopEnd (operatorStep_rests fun op found => ?_)))
    rw [at_none (by rw [ended]; rfl)] at found
    cases found
  exact statement_name (by omega) begins decided (exprStmt_follows expression ended)

end Grammar

section Texts

open LosslessJava.Tree

variable {text owner method : String} {options : ParseOptions}

def declarationSketch (type : Sketch) (name : String) : Sketch :=
  .node .localVarDecl [type, .node .variableDeclarator [.token .identifier name], .token .semicolon ";"]

/-- The statement that compares two names. -/
def comparisonSketch (left right : String) : Sketch :=
  .node .exprStmt [.node .binaryExpr [.node .nameExpr [.token .identifier left], .token .lt "<",
    .node .nameExpr [.token .identifier right]], .token .semicolon ";"]

private theorem TypePart.shape_node (type : TypePart .type) : ∃ kind children, type.shape = .node kind children ∧
    (kind = .primitiveType ∨ kind = .classType ∨ kind = .arrayType) := by
  have array {kind : Kind} {children : List Shape} (proper : kind = .primitiveType ∨ kind = .classType ∨ kind = .arrayType)
      (dims : Nat) : ∃ outer inner, arrayOf (.node kind children) dims = .node outer inner ∧
        (outer = .primitiveType ∨ outer = .classType ∨ outer = .arrayType) := by
    induction dims generalizing kind children with
    | zero => exact ⟨kind, children, rfl, proper⟩
    | succ dims ih => exact ih (.inr (.inr rfl))
  cases type with
  | primitive kind proper dims => exact array (.inl rfl) dims
  | named rest dims => exact array (.inr (.inl rfl)) dims

private theorem declaration_of_depicts {type : TypePart .type} {spelled : Sketch} {name : String} {node : Node}
    (typed : spelled.shape = type.shape) (depicts : (declarationSketch spelled name).Depicts (.node node)) :
    ∃ (decl : Ast.LocalVarDecl) (found : Ast.TypeUse) (declarator : Ast.VariableDeclarator) (leaf : Leaf), decl.node = node ∧
      decl.type? = some found ∧ spelled.Depicts (.node found.node) ∧ decl.declarators = [declarator] ∧
      declarator.name? = some leaf ∧ leaf.text = name := by
  obtain ⟨kind, children, same, proper⟩ := type.shape_node
  cases spelled with
  | token => rw [same] at typed; cases typed
  | node outer inner =>
    have outerKind : outer = kind := by
      rw [same] at typed
      exact (Shape.node.inj typed).1
    obtain ⟨here, row⟩ := depicts
    obtain ⟨first, _, written, rest, parts⟩ := List.forall₂_cons_left_iff.mp (Sketch.children_of_depicts row)
    obtain ⟨second, _, declared, nothing, parts'⟩ := List.forall₂_cons_left_iff.mp rest
    cases nothing
    rw [parts'] at parts
    have isType : first.kind = .primitiveType ∨ first.kind = .classType ∨ first.kind = .arrayType := by
      rw [written.1, outerKind]
      exact proper
    obtain ⟨found, rfl⟩ := @Ast.exists_form Ast.typeForm? first (by rcases isType with same | same | same <;> rw [same] <;> rfl)
    have other : found.node.kind ≠ .variableDeclarator := by
      rcases isType with same | same | same <;> rw [same] <;> decide
    obtain ⟨_, _, tokens, named, none⟩ := Sketch.depictsAll_cons.mp declared.2
    obtain ⟨leaf, rfl, isName, text⟩ := Sketch.depicts_token.mp named
    cases Sketch.depictsAll_nil.mp none
    refine ⟨⟨node, here⟩, found, ⟨second, declared.1⟩, leaf, rfl, ?_, written, ?_, ?_, text⟩
    · simp [Ast.LocalVarDecl.type?, Ast.child?, parts, Ast.ofNode?_form]
    · simp [Ast.LocalVarDecl.declarators, Ast.children, parts, Ast.NodeView.ofNode?, other, declared.1]
    · simp [Ast.VariableDeclarator.name?, Ast.name?, Node.tokenOfKind?, Node.childTokens, tokens, isName]

private theorem TokenStream.kindAt_lex_mem (text : String) (index : Nat) :
    (TokenStream.lex text).kindAt index ∈ (wordsOf text).map Prod.fst := by
  have inside : (TokenStream.lex text).tokenAt index ∈ (TokenStream.lex text).tokens := Array.getElem_mem _
  rw [tokens_lex, List.mem_toArray] at inside
  rw [wordsOf, List.map_map]
  exact List.mem_map_of_mem inside

open Grammar in
/-- A declaration of a variable is read as such, and its type as the type that was written. -/
theorem EntryPoint.parse_declaration {name : String} {type : TypePart .type} {spelled : Sketch}
    (typed : spelled.shape = type.shape) (ordinary : ∀ word, (Kind.identifier, word) ∈ spelled.words → Ordinary word)
    (room : 3 + type.nesting < options.maxDepth) (ahead : spelled.words.length + 1 < options.lookaheadLimit)
    (written : wordsOf text = bodyWords owner method (spelled.words ++ [(.identifier, name), (.semicolon, ";")])) :
    ∃ parse, EntryPoint.file.parse text options = .ok parse ∧ parse.diagnostics = [] ∧ parse.state = .normal ∧
      (Sketch.node .compilationUnit [classSketch owner method [declarationSketch spelled name], .token .eof ""]).Depicts
        (.node parse.root) := by
  have kinds : spelled.words.map Prod.fst = type.kinds := by rw [Sketch.words_kinds, typed, TypePart.tokens_shape]
  refine EntryPoint.parse_body written (by omega) ?_ fun j reads closer => ?_
  · simp [declarationSketch, Sketch.textsAll, Sketch.texts, Sketch.words_texts]
  obtain ⟨k, whole, named, -, ended, -, rfl⟩ := TokenStream.reads_append.mp reads
  have spans : (TokenStream.lex text).Spans type 8 k :=
    .of_stands (kinds ▸ whole.stands) (by rw [named]; simp [TokenStream.Ends])
  have first : (TokenStream.lex text).kindAt 8 = .identifier → Ordinary ((TokenStream.lex text).textAt 8) := by
    intro here
    have moved := spans.lt
    cases start : spelled.words with
    | nil =>
      have stopped := whole.stop
      rw [start, List.length_nil] at stopped
      omega
    | cons word rest =>
      rw [start] at whole
      have kind : word.1 = .identifier := whole.1.symm.trans here
      refine ordinary _ ?_
      rw [start, whole.2.1, ← kind]
      exact List.mem_cons_self
  have within : k - 8 + 1 < options.lookaheadLimit := by
    rw [whole.stop]
    omega
  have begins : (TokenStream.lex text).kindAt 8 ≠ .rightBrace ∧ (TokenStream.lex text).kindAt 8 ≠ .eof := by
    cases spans with
    | @primitive kind proper _ _ _ here =>
      rw [here]
      constructor <;> (rintro rfl; cases proper)
    | named here => rw [here]; decide
  have deep : (⟨2, true⟩ : Level).depth + 1 + type.nesting < (textEnv text options).options.maxDepth := room
  refine listUntil_single begins.1 begins.2 ?_ closer ((localVar_follows spans first deep within named ended).weaken
    fun _ row l given => ?_)
  · have moved := spans.lt
    omega
  · obtain ⟨rfl, rfl⟩ := given
    simp [declarationSketch, Sketch.shapes, Sketch.shape, typed]

open Grammar in
private theorem EntryPoint.parse_comparison {left right : String} (ordinary : Ordinary left) (room : 4 < options.maxDepth)
    (ahead : 4 < options.lookaheadLimit)
    (written : wordsOf text =
      bodyWords owner method [(.identifier, left), (.lt, "<"), (.identifier, right), (.semicolon, ";")]) :
    ∃ parse, EntryPoint.file.parse text options = .ok parse ∧ parse.diagnostics = [] ∧ parse.state = .normal ∧
      (Sketch.node .compilationUnit [classSketch owner method [comparisonSketch left right], .token .eof ""]).Depicts
        (.node parse.root) := by
  have away (kind : Kind) (other : kind ∉ (bodyWords owner method
      [(.identifier, left), (.lt, "<"), (.identifier, right), (.semicolon, ";")]).map Prod.fst) (index : Nat) :
      (TokenStream.lex text).kindAt index ≠ kind := by
    intro same
    have member := TokenStream.kindAt_lex_mem text index
    rw [same, written] at member
    exact other member
  refine EntryPoint.parse_body written (by omega) (by simp [comparisonSketch, Sketch.textsAll, Sketch.texts])
    fun j reads closer => ?_
  have plain : (TokenStream.lex text).Unannotated := away .atSign (by simp [bodyWords])
  have begins : (TokenStream.lex text).kindAt 8 = .identifier := reads.1
  have first : Ordinary ((TokenStream.lex text).textAt 8) := by
    rw [reads.2.1]
    exact ordinary
  have compared : Follows (textEnv text options) ⟨2, true⟩ 8 (call .statement) fun _ row k =>
      row = [.node .exprStmt [comparisonNode, .token .semicolon 1]] ∧ k = j :=
    comparison_follows plain (regular_lex text) (away .colonColon (by simp [bodyWords])) rfl first room ahead reads.stands
  refine listUntil_single (show (TokenStream.lex text).kindAt 8 ≠ _ by rw [begins]; decide)
    (show (TokenStream.lex text).kindAt 8 ≠ _ by rw [begins]; decide) ?_ closer compared
  rw [reads.stop]
  simp

private theorem comparison_of_depicts {left right : String} {node : Node}
    (depicts : (comparisonSketch left right).Depicts (.node node)) :
    ∃ (expr : Ast.BinaryExpr) (operator : Leaf), node.kind = .exprStmt ∧ node.children = [expr.node] ∧
      expr.operator? = some operator ∧ operator.kind = .lt := by
  obtain ⟨here, row⟩ := depicts
  obtain ⟨expr, _, compared, none, parts⟩ := List.forall₂_cons_left_iff.mp (Sketch.children_of_depicts row)
  cases none
  obtain ⟨kind, inside⟩ := compared
  obtain ⟨_, _, elements, first, rest⟩ := Sketch.depictsAll_cons.mp inside
  obtain ⟨_, rfl, -⟩ := Sketch.depicts_node.mp first
  obtain ⟨_, _, rfl, second, -⟩ := Sketch.depictsAll_cons.mp rest
  obtain ⟨operator, rfl, isLess, -⟩ := Sketch.depicts_token.mp second
  refine ⟨⟨expr, kind⟩, operator, here, parts, ?_, isLess⟩
  simp [Ast.BinaryExpr.operator?, Ast.firstToken?, Node.childTokens, elements]

/-- In the body of a method, a type and a name are a declaration of a variable of exactly that type, and a name, `<` and
another name compare the two. -/
theorem EntryPoint.local_or_comparison :
    (∀ {text owner method name : String} {options : ParseOptions} {type : TypePart .type} {spelled : Sketch},
      spelled.shape = type.shape → (∀ word, (Kind.identifier, word) ∈ spelled.words → Ordinary word) →
      3 + type.nesting < options.maxDepth → spelled.words.length + 1 < options.lookaheadLimit →
      wordsOf text = bodyWords owner method (spelled.words ++ [(.identifier, name), (.semicolon, ";")]) →
      ∃ (parse : Parse) (decl : Ast.LocalVarDecl) (found : Ast.TypeUse) (declarator : Ast.VariableDeclarator) (leaf : Leaf),
        EntryPoint.file.parse text options = .ok parse ∧ parse.diagnostics = [] ∧ parse.state = .normal ∧
        bodyStatements parse.root = [decl.node] ∧ decl.type? = some found ∧ spelled.Depicts (.node found.node) ∧
        decl.declarators = [declarator] ∧ declarator.name? = some leaf ∧ leaf.text = name) ∧
    ∀ {text owner method left right : String} {options : ParseOptions}, Ordinary left →
      4 < options.maxDepth → 4 < options.lookaheadLimit →
      wordsOf text = bodyWords owner method [(.identifier, left), (.lt, "<"), (.identifier, right), (.semicolon, ";")] →
      ∃ (parse : Parse) (stmt : Node) (expr : Ast.BinaryExpr) (operator : Leaf),
        EntryPoint.file.parse text options = .ok parse ∧ parse.diagnostics = [] ∧ parse.state = .normal ∧
        bodyStatements parse.root = [stmt] ∧ (comparisonSketch left right).Depicts (.node stmt) ∧
        stmt.kind = .exprStmt ∧ stmt.children = [expr.node] ∧ expr.operator? = some operator ∧ operator.kind = .lt := by
  constructor
  · intro text owner method name options type spelled typed ordinary room ahead written
    obtain ⟨parse, parsed, silent, normal, depicts⟩ := EntryPoint.parse_declaration typed ordinary room ahead written
    obtain ⟨node, _, here, none, statements⟩ := List.forall₂_cons_left_iff.mp (bodyStatements_of_depicts depicts)
    cases none
    obtain ⟨decl, found, declarator, leaf, rfl, type', spells, declares, named, text⟩ := declaration_of_depicts typed here
    exact ⟨parse, decl, found, declarator, leaf, parsed, silent, normal, statements, type', spells, declares, named, text⟩
  · intro text owner method left right options ordinary room ahead written
    obtain ⟨parse, parsed, silent, normal, depicts⟩ := EntryPoint.parse_comparison ordinary room ahead written
    obtain ⟨stmt, _, here, none, statements⟩ := List.forall₂_cons_left_iff.mp (bodyStatements_of_depicts depicts)
    cases none
    obtain ⟨expr, operator, kind, single, found, isLess⟩ := comparison_of_depicts here
    exact ⟨parse, stmt, expr, operator, parsed, silent, normal, statements, here, kind, single, found, isLess⟩

/-- An array of a qualified type with arguments of its own is declared, and two names are compared. -/
theorem EntryPoint.local_or_comparison_nested :
    (∃ (parse : Parse) (decl : Ast.LocalVarDecl) (declarator : Ast.VariableDeclarator),
      EntryPoint.file.parse "class A{void m(){a.b<c[],? extends d<e>>[] f;}}" {} = .ok parse ∧ parse.diagnostics = [] ∧
      bodyStatements parse.root = [decl.node] ∧ decl.declarators = [declarator]) ∧
    ∃ (parse : Parse) (stmt : Node) (expr : Ast.BinaryExpr),
      EntryPoint.file.parse "class A{void m(){a<b;}}" {} = .ok parse ∧ parse.diagnostics = [] ∧
      bodyStatements parse.root = [stmt] ∧ stmt.children = [expr.node] := by
  let word (text : String) : Sketch := .token .identifier text
  let array (element : Sketch) : Sketch := .node .arrayType [element, .token .leftBracket "[", .token .rightBracket "]"]
  let inner : Sketch := .node .classType [word "d", .node .typeArgList [.token .lt "<", .node .classType [word "e"], .token .gt ">"]]
  let spelled : Sketch := array (.node .classType [word "a", .token .dot ".", word "b", .node .typeArgList [.token .lt "<",
    array (.node .classType [word "c"]), .token .comma ",",
    .node .wildcardType [.token .question "?", .token .extendsKw "extends", inner], .token .gt ">"]])
  let plain (dims : Nat) : TypePart .type := .named (.bare .stop) dims
  let type : TypePart .type := .named (.bare (.next (.generic (.more (.only (plain 1)) (.last (.bounded .extendsKw (by decide)
    (.named (.generic (.last (.only (plain 0))) .stop) 0)))) .stop))) 1
  have typed : spelled.shape = type.shape := by rfl
  have written : wordsOf "class A{void m(){a.b<c[],? extends d<e>>[] f;}}" =
      bodyWords "A" "m" (spelled.words ++ [(.identifier, "f"), (.semicolon, ";")]) := by decide +kernel
  have written' : wordsOf "class A{void m(){a<b;}}" =
      bodyWords "A" "m" [(.identifier, "a"), (.lt, "<"), (.identifier, "b"), (.semicolon, ";")] := by decide +kernel
  have ordinary : ∀ word, (Kind.identifier, word) ∈ spelled.words → Ordinary word := by
    intro text member
    simp [spelled, array, inner, word, Sketch.words, Sketch.wordsAll] at member
    rcases member with rfl | rfl | rfl | rfl | rfl <;> exact ⟨by decide, by decide⟩
  let options : ParseOptions := {}
  have room : 3 + type.nesting < options.maxDepth ∧ 4 < options.maxDepth := by decide
  have ahead : spelled.words.length + 1 < options.lookaheadLimit ∧ 4 < options.lookaheadLimit := by decide
  have ordinary' : Ordinary "a" := ⟨by decide, by decide⟩
  obtain ⟨parse, decl, _, declarator, _, parsed, silent, -, statements, -, -, single, -⟩ :=
    EntryPoint.local_or_comparison.1 typed ordinary room.1 ahead.1 written
  obtain ⟨parse', stmt, expr, _, parsed', silent', -, statements', -, -, single', -⟩ :=
    EntryPoint.local_or_comparison.2 ordinary' room.2 ahead.2 written'
  exact ⟨⟨parse, decl, declarator, parsed, silent, statements, single⟩,
    parse', stmt, expr, parsed', silent', statements', single'⟩

end Texts

end LosslessJava
