import LosslessJava.Proofs.Files
import LosslessJava.Proofs.TypeScans
import LosslessJava.Proofs.Names

/-! Methods whose bodies are known: statements that can be followed, one behind the other, are the body of the only
method of the only class of a file. -/

namespace LosslessJava

open LosslessJava.Parser

namespace Grammar

variable {env : Env} {level : Level} {i j k : Nat} {told middle : List Shape → Nat → Prop}

theorem Follows.nodeIf {rule : Rule (Option Kind)} (inner : Follows env level i rule fun found row j =>
      ∃ kind, found = some kind ∧ kind ≠ .tombstone ∧ told [.node kind row] j) :
    Follows env level i (Functor.discard (Parser.nodeIf rule)) fun _ row j => told row j := by
  intro s here deep
  have node := Delivers.nodeIf (s := s) (P := told) (Q := fun _ _ => False) <|
    (inner s.start here deep.start).weaken fun found row t _ given => by
      obtain ⟨kind, rfl, named, holds⟩ := given
      exact ⟨named, holds⟩
  refine .discard <| node.weaken fun found row t _ given => ?_
  cases found with
  | some => exact given.2
  | none => exact given.elim

private theorem Follows.loopStop {α : Type} {a : α} {step : α → Rule (Option α)}
    (round : Follows env level i (step a) fun found row j => found = none ∧ row = [] ∧ j = i) :
    Follows env level i (Parser.loopFrom a step) fun b row j => b = a ∧ row = [] ∧ j = i := by
  intro s here deep
  refine .loopFrom <| (round s here deep).weaken fun found row t _ given => ?_
  obtain ⟨rfl, empty, still⟩ := given
  exact ⟨rfl, empty, still⟩

theorem semicolon_follows {recovery : KindSet} (here : env.stream.kindAt i = .semicolon) :
    Follows env level i (semicolon recovery) fun _ row j => row = [.token .semicolon 1] ∧ j = i + 1 := by
  have taken : Follows env level i (accept .semicolon) fun found row j =>
      found = true ∧ row = [.token .semicolon 1] ∧ j = i + 1 := .accept here (by decide) ⟨rfl, rfl, rfl⟩
  have found : Follows env level i (expect .semicolon) fun found row j =>
      found = true ∧ row = [.token .semicolon 1] ∧ j = i + 1 := by
    refine taken.bind fun found row j given => ?_
    obtain ⟨rfl, rfl, rfl⟩ := given
    exact .pure ⟨rfl, by simp, rfl⟩
  refine found.bind fun found row j given => ?_
  obtain ⟨rfl, rfl, rfl⟩ := given
  exact .pure ⟨by simp, rfl⟩

private theorem skipUnmoved_follows {rule : Rule Unit} {issue : Kind → Issue}
    (item : Follows env level i rule fun _ row j => i < j ∧ told row j) :
    Follows env level i (skipUnmoved rule issue) fun _ row j => told row j := by
  refine .look <| item.bind fun _ row j ⟨moved, holds⟩ => .look ?_
  rw [if_neg (Nat.ne_of_gt moved)]
  exact .pure (by simpa using holds)

private theorem listUntil_on {closer : Kind} {rule : Rule Unit} (away : env.stream.kindAt i ≠ closer)
    (more : env.stream.kindAt i ≠ .eof) (item : Follows env level i rule fun _ row j => i < j ∧ middle row j)
    (rest : ∀ front j, middle front j → Follows env level j (listUntil closer rule) fun _ back k => told (front ++ back) k) :
    Follows env level i (listUntil closer rule) fun _ row j => told row j := by
  refine .loopOn ?_ rest
  refine .look ?_
  have inside : ((⟨env.stream, i⟩ : TokenCursor).nth 0 == closer || (⟨env.stream, i⟩ : TokenCursor).nth 0 == .eof) = false := by
    simp only [TokenCursor.nth_eq, Nat.add_zero, Bool.or_eq_false_iff, beq_eq_false_iff_ne]
    exact ⟨away, more⟩
  rw [inside]
  refine (skipUnmoved_follows item).bind fun _ row j holds => .pure ⟨rfl, by simpa using holds⟩

theorem listUntil_single {closer : Kind} {rule : Rule Unit} {row : List Shape} (away : env.stream.kindAt i ≠ closer)
    (more : env.stream.kindAt i ≠ .eof) (later : i < j) (closed : env.stream.kindAt j = closer)
    (item : Follows env level i rule fun _ found k => found = row ∧ k = j) :
    Follows env level i (listUntil closer rule) fun _ found k => found = row ∧ k = j := by
  have moving : Follows env level i rule fun _ found k => i < k ∧ found = row ∧ k = j :=
    item.weaken fun _ _ _ given => ⟨given.2 ▸ later, given⟩
  refine listUntil_on away more moving fun front k given => ?_
  obtain ⟨rfl, rfl⟩ := given
  refine (listUntil_end closed).weaken fun _ back l given => ?_
  obtain ⟨rfl, rfl⟩ := given
  exact ⟨by simp, rfl⟩

private theorem block_follows {row : List Shape} (room : level.depth < env.options.maxDepth) (opener : env.stream.kindAt i = .leftBrace)
    (closer : env.stream.kindAt j = .rightBrace)
    (statements : Follows env level.deeper (i + 1) (listUntil .rightBrace (call .statement)) fun _ found k => found = row ∧ k = j) :
    Follows env level i (call .block) fun _ found k =>
      found = [.node .block (.token .leftBrace 1 :: (row ++ [.token .rightBrace 1]))] ∧ k = j + 1 := by
  refine .call <| .look ?_
  rw [TokenCursor.nth_eq, Nat.add_zero, opener, beq_self_eq_true, if_pos rfl]
  refine .nested room <| .node (by decide) <| .consumeThen opener (by decide) <| statements.bind fun _ found k given => ?_
  obtain ⟨rfl, rfl⟩ := given
  exact .require closer (by decide) ⟨rfl, rfl⟩

section Statements

variable {shape : Shape}

theorem exprStmt_follows (reads : ReadsNode env level i anyExpression shape j) (ended : env.stream.kindAt j = .semicolon) :
    Follows env level i exprStmt fun _ row k => row = [.node .exprStmt [shape, .token .semicolon 1]] ∧ k = j + 1 := by
  refine .nodeIf <| .look ?_
  have whole : Follows env level i exprAndSemicolon fun _ row k => i < k ∧ row = [shape, .token .semicolon 1] ∧ k = j + 1 := by
    intro s here deep
    refine .bind (reads s here deep) fun found row t wrote given => ?_
    obtain ⟨first, rfl, -, rfl, there⟩ := given
    have later := wrote.position_le
    refine .behind wrote (semicolon_follows ended t there (deep.wrote wrote)) fun _ back u _ given => ?_
    obtain ⟨rfl, moved⟩ := given
    exact ⟨by omega, rfl, moved⟩
  refine whole.bind fun _ row k given => ?_
  obtain ⟨moved, rfl, rfl⟩ := given
  refine .look ?_
  rw [if_neg (Nat.ne_of_gt moved)]
  exact .pure ⟨_, rfl, by decide, rfl, rfl⟩

structure BeginsPlain (env : Env) (i : Nat) : Prop where
  name : env.stream.kindAt i = .identifier
  unlabelled : env.stream.kindAt (i + 1) ≠ .colon
  yielding : isYieldStmt ⟨env.stream, i⟩ = false
  record : ¬ (isWordAt ⟨env.stream, i⟩ 0 .recordKw ∧ env.stream.kindAt (i + 1) = .identifier)

theorem andThen_follows {test : Rule Bool} {answer : Bool}
    (follows : Follows env level i test fun found row k => found = answer ∧ row = [] ∧ k = i) :
    Follows env level i (Pure.pure true <&&> test) fun found row k => found = answer ∧ row = [] ∧ k = i := by
  have first : Follows env level i (Pure.pure true : Rule Bool) fun found row k => found = true ∧ row = [] ∧ k = i :=
    .pure ⟨rfl, rfl, rfl⟩
  refine first.bind fun found row k given => ?_
  obtain ⟨rfl, rfl, rfl⟩ := given
  exact follows

/-- A statement that begins with a name is a declaration of local variables or an expression. -/
theorem statement_name {answer : Bool} (room : level.depth < env.options.maxDepth) (plain : BeginsPlain env i)
    (decided : Lookahead.Clear ⟨⟨env.stream, i⟩, env.options.lookaheadLimit⟩
      (Lookahead.succeeds Lookahead.isLocalVarDecl) answer)
    (rest : Follows env level.deeper i (if answer then localVarDecl statementEnd else exprStmt) fun _ row k => told row k) :
    Follows env level i (call .statement) fun _ row k => told row k := by
  have other : startsLocalType .identifier = false := rfl
  have variable' : startsLocalVar .identifier = true := rfl
  refine .call <| .nested room <| .look ?_
  rw [TokenCursor.nth_eq, Nat.add_zero, plain.name]
  refine .look ?_
  rw [TokenCursor.nth_eq, id, if_neg plain.unlabelled, plain.yielding, if_neg (by simp), if_neg plain.record]
  refine .look ?_
  rw [TokenCursor.nth_eq, Nat.add_zero, plain.name, other, variable']
  refine .look ?_
  rw [if_neg (by simp)]
  refine (andThen_follows (decideBy_follows decided)).bind fun found row k given => ?_
  obtain ⟨rfl, rfl, rfl⟩ := given
  exact rest

end Statements

section Methods

def methodNode (body : List Shape) : Shape :=
  .node .methodDecl [.node .voidType [.token .voidKw 1], .token .identifier 1,
    .node .paramList [.token .leftParen 1, .token .rightParen 1],
    .node .block (.token .leftBrace 1 :: (body ++ [.token .rightBrace 1]))]

private theorem paramList_none (opener : env.stream.kindAt i = .leftParen) (closer : env.stream.kindAt (i + 1) = .rightParen) :
    Follows env level i paramList fun _ row j =>
      row = [.node .paramList [.token .leftParen 1, .token .rightParen 1]] ∧ j = i + 2 := by
  refine .look ?_
  rw [TokenCursor.nth_eq, Nat.add_zero, opener, beq_self_eq_true, if_pos rfl]
  refine .node (by decide) <| .consumeThen opener (by decide) ?_
  have none : Follows env level (i + 1)
      (loop (delimitedRound .rightParen .comma "parameter" First.param (formalParam .param))) fun _ row k =>
        row = [] ∧ k = i + 1 := by
    refine .loopEnd <| .look ?_
    rw [TokenCursor.nth_eq, Nat.add_zero, closer, if_pos (by simp)]
    exact .pure ⟨rfl, rfl, rfl⟩
  refine none.bind fun _ row k given => ?_
  obtain ⟨rfl, rfl⟩ := given
  exact .require closer (by decide) ⟨rfl, rfl⟩

/-- No dimensions stand where no bracket does. -/
theorem dims_none (away : env.stream.kindAt i ≠ .leftBracket) :
    Follows env level i dims fun _ row j => row = [] ∧ j = i := by
  refine .look ?_
  rw [TokenCursor.nth_eq, Nat.add_zero, beq_eq_false_iff_ne.mpr away, Bool.false_and, if_neg (by simp)]
  exact .pure ⟨rfl, rfl⟩

private theorem clauses_none {forms : List ClauseForm} (here : env.stream.kindAt i = .leftBrace)
    (away : ∀ form ∈ forms, form.1 ≠ .leftBrace) :
    Follows env level i (call (.clauses forms)) fun _ row j => row = [] ∧ j = i := by
  have stopped : Follows env level i (loopFrom none (clauseStep forms)) fun _ row j => row = [] ∧ j = i := by
    refine (Follows.loopStop <| .look ?_).weaken fun _ _ _ given => given.2
    rw [clauseAt_none here away]
    exact .pure ⟨rfl, rfl, rfl⟩
  exact .call (.discard stopped)

/-- A member that begins with `void` and goes on as a method without parameters. -/
theorem methodOrField_void {body : List Shape} (room : level.depth < env.options.maxDepth)
    (reads : env.stream.Stands [.voidKw, .identifier, .leftParen, .rightParen, .leftBrace] i k)
    (closer : env.stream.kindAt j = .rightBrace)
    (statements : Follows env level.deeper k (listUntil .rightBrace (call .statement)) fun _ found l => found = body ∧ l = j) :
    Follows env level i (methodOrField .classBody) fun kind row l =>
      kind = .methodDecl ∧ [.node kind row] = [methodNode body] ∧ l = j + 1 := by
  obtain ⟨type, name, left, right, opener, rfl⟩ := reads
  have void : Follows env level i resultType fun _ row j => row = [.node .voidType [.token .voidKw 1]] ∧ j = i + 1 := by
    refine .look ?_
    rw [TokenCursor.nth_eq, Nat.add_zero, type, beq_self_eq_true, if_pos rfl]
    intro s here deep
    have taken : Follows env level i (consume .voidKw) fun _ row j => row = [.token .voidKw 1] ∧ j = i + 1 :=
      .consume type (by decide) ⟨rfl, rfl⟩
    have node := Delivers.nodeOf (P := fun row j => row = [.node .voidType [.token .voidKw 1]] ∧ j = i + 1) <|
      .bind (taken s.start here deep.start) fun _ row t wrote given => by
        obtain ⟨rfl, there⟩ := given
        exact .pure (a := Kind.voidType) wrote ⟨by decide, rfl, there⟩
    exact .bind node fun _ _ _ wrote given => .pure wrote given.2
  refine void.forget.bind fun _ row l given => ?_
  obtain ⟨_, rfl, rfl⟩ := given
  refine .look ?_
  rw [TokenCursor.nth_eq, TokenCursor.nth_eq, Nat.add_zero, name, left, if_pos (by rfl)]
  refine .consumeThen name (by decide) ?_
  refine (paramList_none left right).bind fun _ row l given => ?_
  obtain ⟨rfl, rfl⟩ := given
  refine (dims_none (by rw [opener]; decide)).bind fun _ row l given => ?_
  obtain ⟨rfl, rfl⟩ := given
  refine (clauses_none opener (by decide)).bind fun _ row l given => ?_
  obtain ⟨rfl, rfl⟩ := given
  have plain : Follows env level (i + 1 + 1 + 2) (defaultValueIn .classBody) fun _ row l => row = [] ∧ l = i + 1 + 1 + 2 :=
    .pure ⟨rfl, rfl⟩
  refine plain.bind fun _ row l given => ?_
  obtain ⟨rfl, rfl⟩ := given
  have block : Follows env level (i + 1 + 1 + 2) methodBody fun _ row l =>
      row = [.node .block (.token .leftBrace 1 :: (body ++ [.token .rightBrace 1]))] ∧ l = j + 1 := by
    refine .look ?_
    rw [TokenCursor.nth_eq, Nat.add_zero, opener, beq_self_eq_true, if_pos rfl]
    exact block_follows room opener closer statements
  refine block.bind fun _ row l given => ?_
  obtain ⟨rfl, rfl⟩ := given
  exact .pure ⟨rfl, rfl, rfl⟩

private theorem method_follows {body : List Shape} (room : level.depth < env.options.maxDepth)
    (reads : env.stream.Stands [.voidKw, .identifier, .leftParen, .rightParen, .leftBrace] i k)
    (closer : env.stream.kindAt j = .rightBrace)
    (statements : Follows env level.deeper k (listUntil .rightBrace (call .statement)) fun _ found l => found = body ∧ l = j) :
    Follows env level i (member .classBody) fun _ row l => row = [methodNode body] ∧ l = j + 1 := by
  have current : (⟨env.stream, i⟩ : TokenCursor).current = .voidKw := by
    rw [TokenCursor.current, TokenCursor.nth_eq, Nat.add_zero, reads.1]
  refine .look ?_
  rw [TokenCursor.nth_eq, Nat.add_zero, reads.1, if_neg (by simp)]
  refine .look ?_
  rw [TokenCursor.nth_eq, TokenCursor.nth_eq, Nat.add_zero, reads.1, if_neg (by simp)]
  refine .nodeIf <| (modifiers_none (.of_kind reads.1 (by decide) (by decide) (by decide +kernel))).forget.bind fun _ row l given => ?_
  obtain ⟨_, -, rfl, rfl⟩ := given
  refine .look ?_
  simp only [id, current, isTypeDecl]
  refine (methodOrField_void room reads closer statements).bind fun kind row l given => ?_
  obtain ⟨rfl, same, rfl⟩ := given
  exact .pure ⟨_, rfl, by decide, by simpa using same, rfl⟩

private theorem classDecl_single {row : List Shape} (room : level.depth < env.options.maxDepth)
    (reads : env.stream.Stands [.classKw, .identifier, .leftBrace] i k) (later : k < j)
    (away : env.stream.kindAt k ≠ .rightBrace ∧ env.stream.kindAt k ≠ .eof) (closer : env.stream.kindAt j = .rightBrace)
    (only : Follows env level.deeper k (member .classBody) fun _ found l => found = row ∧ l = j) :
    Follows env level i classDecl fun _ found l =>
      found = [.token .classKw 1, .token .identifier 1, .node .classBody (.token .leftBrace 1 :: (row ++ [.token .rightBrace 1]))] ∧
        l = j + 1 := by
  obtain ⟨keyword, name, opener, rfl⟩ := reads
  refine .consumeThen keyword (by decide) ?_
  have named : Follows env level (i + 1) (require .identifier) fun _ row k =>
      row = [.token .identifier 1] ∧ k = i + 1 + 1 := .require name (by decide) ⟨rfl, rfl⟩
  refine named.bind fun _ row l given => ?_
  obtain ⟨rfl, rfl⟩ := given
  have params : Follows env level (i + 1 + 1) (whenSees .lt typeParams) fun _ row k => row = [] ∧ k = i + 1 + 1 :=
    .skip (by rw [opener]; decide) ⟨rfl, rfl⟩
  refine params.bind fun _ row l given => ?_
  obtain ⟨rfl, rfl⟩ := given
  refine (clauses_none opener (by decide)).bind fun _ row l given => ?_
  obtain ⟨rfl, rfl⟩ := given
  refine .call <| .look ?_
  rw [TokenCursor.nth_eq, Nat.add_zero, opener, beq_self_eq_true, if_pos rfl]
  refine .nested room <| .node (by decide) <| .consumeThen opener (by decide) ?_
  have constants : Follows env level.deeper (i + 1 + 1 + 1) (enumConstantsIn .classBody) fun _ row j => row = [] ∧ j = i + 1 + 1 + 1 :=
    .pure ⟨rfl, rfl⟩
  refine constants.bind fun _ row l given => ?_
  obtain ⟨rfl, rfl⟩ := given
  refine (listUntil_single away.1 away.2 later closer only).bind fun _ row l given => ?_
  obtain ⟨rfl, rfl⟩ := given
  exact .require closer (by decide) ⟨by simp, rfl⟩

private theorem file_single {row : List Shape} (room : level.depth < env.options.maxDepth)
    (reads : env.stream.Stands [.classKw, .identifier, .leftBrace] i k) (later : k < j)
    (away : env.stream.kindAt k ≠ .rightBrace ∧ env.stream.kindAt k ≠ .eof) (closer : env.stream.kindAt j = .rightBrace)
    (ended : env.stream.kindAt (j + 1) = .eof)
    (only : Follows env level.deeper k (member .classBody) fun _ found l => found = row ∧ l = j) :
    Follows env level i (loop fileRound) fun _ found l =>
      found = [.node .classDecl [.token .classKw 1, .token .identifier 1,
        .node .classBody (.token .leftBrace 1 :: (row ++ [.token .rightBrace 1]))]] ∧ l = j + 1 := by
  have here := reads.1
  have current : (⟨env.stream, i⟩ : TokenCursor).current = .classKw := by
    rw [TokenCursor.current, TokenCursor.nth_eq, Nat.add_zero, here]
  have before : i < j + 1 := by
    have stop := reads.stop
    simp only [List.length_cons, List.length_nil] at stop
    omega
  have item : Follows env level i topLevelItem fun _ found l => i < l ∧
      found = [.node .classDecl [.token .classKw 1, .token .identifier 1,
        .node .classBody (.token .leftBrace 1 :: (row ++ [.token .rightBrace 1]))]] ∧ l = j + 1 := by
    refine .nodeIf <| (modifiers_none (.of_kind here (by decide) (by decide) (by decide +kernel))).bind fun found _ l given => ?_
    obtain ⟨rfl, rfl, rfl⟩ := given
    refine .look ?_
    have module : isModuleDecl ⟨env.stream, l⟩ = false := by
      have named : env.stream.kindAt (l + 0) ≠ .identifier := by simp [here]
      simp [isModuleDecl, isWordAt_eq_false named]
    simp only [id, current, module]
    refine .look ?_
    simp only [id, isTypeDecl, current]
    refine (classDecl_single room reads later away closer only).bind fun _ found l given => ?_
    obtain ⟨rfl, rfl⟩ := given
    exact .pure ⟨_, rfl, by decide, before, rfl, rfl⟩
  have round : Follows env level i fileRound fun more found l => more = true ∧
      found = [.node .classDecl [.token .classKw 1, .token .identifier 1,
        .node .classBody (.token .leftBrace 1 :: (row ++ [.token .rightBrace 1]))]] ∧ l = j + 1 := by
    refine .look ?_
    rw [TokenCursor.nth_eq, Nat.add_zero, here, if_neg (by simp)]
    refine (skipUnmoved_follows item).bind fun _ found l given => ?_
    obtain ⟨rfl, rfl⟩ := given
    exact .pure ⟨rfl, by simp, rfl⟩
  refine .loopOn round fun found l given => ?_
  obtain ⟨rfl, rfl⟩ := given
  refine (file_end ended).weaken fun _ found l given => ?_
  obtain ⟨rfl, rfl⟩ := given
  exact ⟨rfl, rfl⟩

end Methods

end Grammar

section Texts

/-- The words of a file with a class that has a method with such a body. -/
def bodyWords (type method : String) (words : List (Kind × String)) : List (Kind × String) :=
  (.classKw, "class") :: (.identifier, type) :: (.leftBrace, "\x7b") :: (.voidKw, "void") :: (.identifier, method) ::
    (.leftParen, "(") :: (.rightParen, ")") :: (.leftBrace, "\x7b") ::
      (words ++ [(.rightBrace, "\x7d"), (.rightBrace, "\x7d"), (.eof, "")])

def classSketch (type method : String) (statements : List Sketch) : Sketch :=
  .node .classDecl [.token .classKw "class", .token .identifier type, .node .classBody [.token .leftBrace "\x7b",
    .node .methodDecl [.node .voidType [.token .voidKw "void"], .token .identifier method,
      .node .paramList [.token .leftParen "(", .token .rightParen ")"],
      .node .block (.token .leftBrace "\x7b" :: (statements ++ [.token .rightBrace "\x7d"]))],
    .token .rightBrace "\x7d"]]

/-- The statements of the body of the first member of the first declaration of a file. -/
def bodyStatements (root : Tree.Node) : List Tree.Node :=
  match ((root.firstChild?.bind (·.childOfKind? .classBody)).bind Tree.Node.firstChild?).bind (·.childOfKind? .block) with
  | some block => block.children
  | none => []

open Grammar in
/-- Statements that can be followed are the body of a method. -/
theorem EntryPoint.parse_body {text type method : String} {options : ParseOptions} {words : List (Kind × String)}
    {statements : List Sketch} (written : wordsOf text = bodyWords type method words) (room : 1 < options.maxDepth)
    (texts : Sketch.textsAll statements = words.map Prod.snd)
    (body : ∀ j, (TokenStream.lex text).Reads words 8 j → (TokenStream.lex text).kindAt j = .rightBrace →
      Follows (textEnv text options) ⟨2, true⟩ 8 (listUntil .rightBrace (call .statement)) fun _ row k =>
        row = Sketch.shapes statements ∧ k = j) :
    ∃ parse, EntryPoint.file.parse text options = .ok parse ∧ parse.diagnostics = [] ∧ parse.state = .normal ∧
      (Sketch.node .compilationUnit [classSketch type method statements, .token .eof ""]).Depicts (.node parse.root) := by
  have all := TokenStream.reads_lex written
  obtain ⟨keyword, -, named, -, opener, -, void, -, name, -, left, -, right, -, brace, -, rest⟩ := all
  obtain ⟨j, inside, close, -, close', -, ended, -⟩ := TokenStream.reads_append.mp rest
  have stop := inside.stop
  let env := textEnv text options
  have statements' := body j inside close
  have member : Follows env Level.top.deeper 3 (member .classBody) fun _ row l =>
      row = [methodNode (Sketch.shapes statements)] ∧ l = j + 1 :=
    method_follows room ⟨void, name, left, right, brace, rfl⟩ close statements'
  have away : env.stream.kindAt 3 ≠ .rightBrace ∧ env.stream.kindAt 3 ≠ .eof := by
    have here : env.stream.kindAt 3 = .voidKw := void
    rw [here]
    decide
  have file := file_single (Nat.zero_lt_of_lt room) (show env.stream.Stands _ 0 3 from ⟨keyword, named, opener, rfl⟩) (by omega)
    away close' ended member
  have items : Notes env (loop fileRound) (State.start {}) fun _ row told t => env.stream.kindAt t.position = .eof ∧
      row = Sketch.shapes [classSketch type method statements] ∧ told = [] := by
    refine (Notes.of_delivers hears_start.going (file _ rfl Level.top_holds.start)).weaken fun _ row told t _ given => ?_
    obtain ⟨rfl, rfl, there⟩ := given
    exact ⟨there ▸ ended, by simp [classSketch, Sketch.shapes, Sketch.shape, methodNode], rfl⟩
  obtain ⟨parse, parsed, normal, silent, depicts⟩ := EntryPoint.parse_of_items (P := fun told => told = []) written
    (by simp [bodyWords, classSketch, Sketch.textsAll, Sketch.texts, texts]) items
  exact ⟨parse, parsed, silent, normal, depicts⟩

open LosslessJava.Tree in
/-- The statements of the body are those that were sketched. -/
theorem bodyStatements_of_depicts {type method : String} {statements : List Sketch} {root : Node}
    (depicts : (Sketch.node .compilationUnit [classSketch type method statements, .token .eof ""]).Depicts (.node root)) :
    List.Forall₂ (fun sketch node => Sketch.Depicts sketch (.node node)) (statements.filter Sketch.isNode) (bodyStatements root) := by
  obtain ⟨decl, _, declared, -, top⟩ := List.forall₂_cons_left_iff.mp (Sketch.children_of_depicts depicts.2)
  obtain ⟨body, _, inside, -, parts⟩ := List.forall₂_cons_left_iff.mp (Sketch.children_of_depicts declared.2)
  obtain ⟨method, _, member, -, members⟩ := List.forall₂_cons_left_iff.mp (Sketch.children_of_depicts inside.2)
  obtain ⟨result, _, void, rest, inner⟩ := List.forall₂_cons_left_iff.mp (Sketch.children_of_depicts member.2)
  obtain ⟨params, _, none, rest, same⟩ := List.forall₂_cons_left_iff.mp rest
  obtain ⟨block, _, braced, -, same'⟩ := List.forall₂_cons_left_iff.mp rest
  rw [same, same'] at inner
  have found : decl.childOfKind? .classBody = some body := by
    simp [Node.childOfKind?, parts, inside.1]
  have found' : method.childOfKind? .block = some block := by
    simp [Node.childOfKind?, inner, void.1, none.1, braced.1]
  have statements := Sketch.children_of_depicts braced.2
  simpa [bodyStatements, Node.firstChild?, top, members, found, found', Sketch.isNode] using statements

end Texts

end LosslessJava
