import LosslessJava.Proofs.ExpectedRules
import LosslessJava.Proofs.Grammar.Statements
import LosslessJava.Proofs.Order

/-! What the rules of declarations and statements leave in doubt, and with them the whole grammar. So a diagnostic does not
expect the token it is about, but where that token is looked behind or overruled. -/

namespace LosslessJava

open LosslessJava.Parser

namespace Grammar

set_option synthInstance.maxSize 2000

variable {bounds : Bounds} {kinds : KindSet} {kind : Kind}

section Declarations

variable [heeds : Heeds bounds]

instance : Clears bounds .empty optionalInitializer := by
  unfold optionalInitializer
  infer_instance

instance : Clears bounds .empty variableDeclarators := by
  unfold variableDeclarators
  infer_instance

instance : Clears bounds (.singleton .identifier) variableDeclarators := by
  unfold variableDeclarators
  infer_instance

omit heeds in
private theorem seesKeyword_asks {keyword : Kind} : Asks bounds .empty (seesKeyword keyword) (.singleton keyword) .empty := by
  unfold seesKeyword
  split
  · next contextual =>
    have spares : Spares bounds (seesWord keyword) := seesWord_spares contextual
    exact Asks.of_spares.weaken (.inl rfl) (.inl rfl)
  · infer_instance

omit heeds in
/-- Of the keywords that were looked for, only one that was found is in doubt. -/
theorem clauseHere_leads {index : Nat} {forms : List ClauseForm} :
    Leads bounds .empty (clauseHere index forms) (·.elim .empty fun found => .singleton found.2.1) := by
  induction forms generalizing index with
  | nil => exact .pure rfl
  | cons form rest ih => exact .ask seesKeyword_asks (.pure rfl) ih

instance {keyword kind : Kind} {inOrder : Bool} : Clears bounds (.singleton keyword) (orderedClause keyword kind inOrder) := by
  have late : Clears bounds (.singleton keyword) (report (.clauseOrder keyword)) := report_clears fun found given _ => by
    obtain rfl : keyword = found := by simpa using given
    exact .clause
  unfold orderedClause
  infer_instance

instance {forms : List ClauseForm} {last : Option Nat} : Clears bounds .empty (clauseStep forms last) where
  leads := clauseHere_leads.bind fun found => by
    rcases found with _ | ⟨index, keyword, kind⟩
    · exact .pure rfl
    · exact Leads.bind (Clears.leads : Leads bounds (.singleton keyword) (orderedClause keyword kind _) _) fun _ => .pure rfl

instance {forms : List ClauseForm} : Clears bounds .empty (clauses forms) := by
  unfold clauses
  infer_instance

instance : Clears bounds .empty throwsClause := by
  unfold throwsClause
  infer_instance

instance : Clears bounds .empty implementsClause := by
  unfold implementsClause
  infer_instance

instance : Spares bounds ellipsisHere := by
  unfold ellipsisHere
  infer_instance

/-- A name that is not that of a receiver is left to the parameter. -/
instance : Asks bounds .empty receiver .empty (.singleton .identifier) where
  leads := by
    have this : Asks bounds .empty (sees .thisKw) (.singleton .thisKw) .empty := inferInstance
    have name (dot self : Bool) : Asks bounds .empty (sees .identifier <&&> pure (dot && self)) (.singleton .identifier)
        (.singleton .identifier) := inferInstance
    exact .ask this .clear <| Leads.spare.bind fun dot => Leads.spare.bind fun self => .ask (name dot self) .clear (.pure rfl)

instance {kind : Kind} : Clears bounds .empty (formalParam kind) := by
  unfold formalParam
  infer_instance

instance : Clears bounds .empty paramList := by
  unfold paramList
  infer_instance

instance : Clears bounds .empty defaultValue := by
  unfold defaultValue
  infer_instance

instance {body : Kind} : Clears bounds .empty (defaultValueIn body) := by
  unfold defaultValueIn
  infer_instance

instance : Clears bounds .empty methodBody := by
  unfold methodBody
  infer_instance

instance {body : Kind} : Clears bounds .empty (methodRest body) := by
  unfold methodRest
  infer_instance

instance : Clears bounds kinds constructorDecl := by
  unfold constructorDecl
  infer_instance

instance {body : Kind} : Clears bounds .empty (methodOrField body) := by
  unfold methodOrField
  infer_instance

instance {body : Kind} : Clears bounds .empty (genericMember body) := by
  unfold genericMember
  infer_instance

instance : Clears bounds .empty classDecl := by
  unfold classDecl
  infer_instance

instance : Clears bounds .empty interfaceDecl := by
  unfold interfaceDecl
  infer_instance

instance : Clears bounds .empty enumDecl := by
  unfold enumDecl
  infer_instance

instance : Clears bounds .empty recordHeader := by
  unfold recordHeader
  infer_instance

instance : Clears bounds .empty recordDecl := by
  unfold recordDecl
  infer_instance

instance : Clears bounds .empty annotationTypeDecl := by
  unfold annotationTypeDecl
  infer_instance

instance : Clears bounds .empty typeDeclRest where
  leads := Leads.spare.bind fun cursor => .ite (by split <;> exact Clears.leads) Clears.leads

instance : Clears bounds .empty typeDecl := by
  unfold typeDecl
  infer_instance

instance {body : Kind} : Clears bounds .empty (memberDeclRest body) := by
  unfold memberDeclRest
  infer_instance

/-- A keyword that is a modifier is taken as one. -/
instance : Clears bounds (.singleton .staticKw) modifier where
  leads := by
    have annotated : Asks bounds (.singleton .staticKw) seesAnnotation (.singleton .atSign) (.singleton .staticKw) := inferInstance
    refine .ask annotated Clears.leads fun s found t gives sincere => ?_
    obtain ⟨cursor, u, read, rest⟩ := gives.bind
    cases read.act
    split at rest
    · exact Clears.leads rest sincere
    · next other =>
      have away : s.Sincere bounds.env .empty := sincere.weaken fun given => by
        have here : Kind.staticKw = s.current bounds.env := by simpa using given
        have member : First.modifier.contains .staticKw = true := by decide +kernel
        exact absurd (show First.modifier.contains (s.current bounds.env) = true from here ▸ member) other
      exact Clears.leads rest away

instance : Clears bounds (.singleton .staticKw) modifiers := by
  unfold modifiers
  infer_instance

instance {body : Kind} : Clears bounds (.singleton .staticKw) (memberDecl body) := by
  unfold memberDecl
  infer_instance

instance {no : KindSet} [asks : Asks bounds kinds (accept kind) .empty no] : Defers bounds kinds (discard (accept kind)) no where
  leads := asks.leads.bind fun answer => by
    cases answer with
    | true => exact (Leads.pure rfl : Leads bounds .empty _ fun _ => .empty).weaken fun _ => .inl rfl
    | false => exact .pure rfl

instance {body : Kind} : Clears bounds .empty (member body) := by
  unfold member
  infer_instance

instance : Clears bounds ((KindSet.singleton .identifier).union (.singleton .atSign)) enumConstant := by
  unfold enumConstant
  infer_instance

/-- Behind the constants the closing brace may be in doubt. -/
instance : Defers bounds .empty enumConstants (.singleton .rightBrace) where
  leads := by
    have closer : Asks bounds .empty (sees .rightBrace) (.singleton .rightBrace) .empty := inferInstance
    exact Leads.clear.andThen _ fun _ => .ask closer (.pure rfl) .clear

instance {body : Kind} : Defers bounds .empty (enumConstantsIn body) (.singleton .rightBrace) where
  leads := .ite Defers.leads .clear

instance : Clears bounds kinds (bracedBody kind) := by
  unfold bracedBody
  infer_instance

instance : Clears bounds (.singleton .leftBrace) (classBody kind) := by
  unfold classBody
  infer_instance

end Declarations

section Modules

variable [heeds : Heeds bounds]

instance : Spares bounds (seesWord .toKw) := seesWord_spares rfl

instance : Spares bounds (seesWord .withKw) := seesWord_spares rfl

instance : Spares bounds (seesWord .requiresKw) := seesWord_spares rfl

instance : Spares bounds (seesWord .exportsKw) := seesWord_spares rfl

instance : Spares bounds (seesWord .opensKw) := seesWord_spares rfl

instance : Spares bounds (seesWord .usesKw) := seesWord_spares rfl

instance : Spares bounds (seesWord .providesKw) := seesWord_spares rfl

instance : Spares bounds (seesWord .openKw) := seesWord_spares rfl

instance : Clears bounds .empty requiresModifiers := by
  unfold requiresModifiers
  infer_instance

instance : Clears bounds .empty targets := by
  unfold targets
  infer_instance

instance : Clears bounds .empty implementations := by
  unfold implementations
  infer_instance

instance : Clears bounds .empty directiveHead := by
  unfold directiveHead
  infer_instance

instance : Clears bounds .empty directiveRest where
  leads := Clears.leads.bind fun found => by cases found <;> exact Clears.leads

instance : Clears bounds .empty directive := by
  unfold directive
  infer_instance

instance : Clears bounds .empty moduleBody := by
  unfold moduleBody
  infer_instance

instance : Clears bounds .empty optionalOpen := by
  unfold optionalOpen
  infer_instance

instance : Clears bounds .empty moduleDecl := by
  unfold moduleDecl
  infer_instance

end Modules

section Statements

variable [heeds : Heeds bounds]

instance : Clears bounds (.singleton .leftBrace) block := by
  unfold block
  infer_instance

instance {ending : Rule Unit} [Clears bounds .empty ending] : Clears bounds .empty (localVarDecl ending) := by
  unfold localVarDecl
  infer_instance

instance : Clears bounds .empty statementEnd := by
  unfold statementEnd
  infer_instance

instance : Clears bounds (.singleton .semicolon) statementEnd := by
  unfold statementEnd
  infer_instance

instance {keyword : Kind} {rest : Rule Unit} [Clears bounds .empty rest] : Clears bounds kinds (keywordStmt kind keyword rest) := by
  unfold keywordStmt
  infer_instance

private theorem ifLink_leads {opened : List OpenIf} :
    Leads bounds (.singleton .ifKw) (ifLink opened) fun link => bif link.2 then .singleton .ifKw else .empty := by
  have otherwise : Asks bounds .empty (sees .elseKw) (.singleton .elseKw) .empty := inferInstance
  have again : Asks bounds .empty (sees .ifKw) (.singleton .ifKw) .empty := inferInstance
  refine Leads.spare.bind fun mark => .andThen .empty .clear fun _ => .andThen .empty .clear fun _ => .andThen .empty .clear fun _ => ?_
  refine .ask otherwise (Leads.spare.bind fun branch => .andThen .empty .clear fun _ => ?_) .clear
  exact .ask again (.pure rfl) .clear

instance {branch : Option Mark} : Spares bounds (closeBranch branch) := by
  cases branch <;> (unfold closeBranch; infer_instance)

omit heeds in
private theorem closeIfs_spares (opened : List OpenIf) : Spares bounds (closeIfs opened) := by
  induction opened with
  | nil => exact inferInstanceAs (Spares bounds (pure ()))
  | cons link rest ih =>
    unfold closeIfs
    infer_instance

instance : Clears bounds .empty ifStmt where
  leads := by
    have round (answer : List OpenIf × Bool) : Leads bounds (bif answer.2 then .singleton .ifKw else .empty) (ifRound answer)
        (·.elim .empty fun link => bif link.2 then .singleton .ifKw else .empty) := by
      rcases answer with ⟨opened, more⟩
      cases more with
      | true => exact ifLink_leads.bind fun link => .pure rfl
      | false => exact .pure rfl
    have chain : Leads bounds .empty (loopFrom ([], true) ifRound) fun _ => .empty := (Leads.loopFrom _ round).of_empty
    rw [ifStmt_eq]
    exact chain.bind fun answer => (closeIfs_spares answer.1).leads .empty

instance : Clears bounds .empty exprList := by
  unfold exprList
  infer_instance

instance : Clears bounds .empty foreachHeader := by
  unfold foreachHeader
  infer_instance

instance : Clears bounds .empty forInit := by
  unfold forInit
  infer_instance

/-- What a rule is not run for is left to the one behind it. -/
instance {rule : Rule Unit} [Clears bounds .empty rule] : Defers bounds .empty (unlessSees kind rule) (.singleton kind) where
  leads := .ask (inferInstance : Asks bounds .empty (sees kind) (.singleton kind) .empty) (.pure rfl) .clear

instance : Defers bounds .empty forHeader (.singleton .rightParen) where
  leads := by
    refine .andThen (.singleton .semicolon) Defers.leads fun _ => .andThen .empty .clear fun _ => ?_
    exact .andThen (.singleton .semicolon) Defers.leads fun _ => .andThen .empty .clear fun _ => Defers.leads

instance : Defers bounds .empty loopHeader (.singleton .rightParen) where
  leads := .ask Asks.of_spares .clear (Defers.leads.andThen _ fun _ => .pure rfl)

instance : Clears bounds kinds forStmt := by
  unfold forStmt
  infer_instance

instance : Clears bounds .empty resourceVariable := by
  unfold resourceVariable
  infer_instance

instance : Clears bounds .empty resource := by
  unfold resource
  infer_instance

instance : Clears bounds kinds resourceSpec := by
  unfold resourceSpec
  infer_instance

instance : Clears bounds kinds catchClause := by
  unfold catchClause
  infer_instance

instance : Clears bounds .empty catchClauses := by
  unfold catchClauses
  infer_instance

instance : Clears bounds .empty optionalResources := by
  unfold optionalResources
  infer_instance

instance : Clears bounds kinds tryStmt := by
  unfold tryStmt
  infer_instance

instance : Clears bounds .empty plainStatement := by
  unfold plainStatement
  infer_instance

instance : Clears bounds .empty nameStatement := by
  unfold nameStatement
  infer_instance

instance [Inner kinds] : Clears bounds kinds (jumpStmt kind) := by
  unfold jumpStmt
  infer_instance

instance : Clears bounds .empty assertMessage := by
  unfold assertMessage
  infer_instance

instance : Clears bounds .empty statementHere where
  leads := Leads.spare.bind fun found => by split <;> exact Clears.leads

instance : Clears bounds .empty statement := by
  unfold statement
  infer_instance

end Statements

/-- Every rule that has a name takes the kinds that may be in doubt where it is run. -/
theorem rule_heeds {α : Type} [heeds : Heeds bounds] (name : Nonterminal α) : Clears bounds name.doubts (rule α name) := by
  cases name with
  | type => exact inferInstanceAs (Clears bounds ((KindSet.singleton .identifier).union (.singleton .atSign)) type)
  | typeArg => exact inferInstanceAs (Clears bounds .empty typeArg)
  | expression least => exact inferInstanceAs (Clears bounds (.singleton .identifier) (expression least))
  | unary => exact inferInstanceAs (Clears bounds (.singleton .identifier) unary)
  | parenOperand => exact inferInstanceAs (Clears bounds .empty parenOperand)
  | simpleName => exact inferInstanceAs (Clears bounds (.singleton .identifier) simpleName)
  | lambdaParamList => exact inferInstanceAs (Clears bounds (.singleton .leftParen) lambdaParamList)
  | elementValue => exact inferInstanceAs (Clears bounds (.singleton .identifier) elementValue)
  | arrayInitializer => exact inferInstanceAs (Clears bounds (.singleton .leftBrace) arrayInitializer)
  | pattern => exact inferInstanceAs (Clears bounds .empty pattern)
  | terminator form => exact inferInstanceAs (Clears bounds .empty (terminator form))
  | block => exact inferInstanceAs (Clears bounds (.singleton .leftBrace) block)
  | statement => exact inferInstanceAs (Clears bounds .empty statement)
  | classBody kind => exact inferInstanceAs (Clears bounds (.singleton .leftBrace) (classBody kind))
  | clauses forms => exact inferInstanceAs (Clears bounds .empty (clauses forms))

private theorem heeds_within (env : Env) (depth : Nat) : Heeds ⟨env, depth⟩ := by
  induction depth with
  | zero => exact ⟨fun name => ⟨fun s a t gives => by obtain ⟨_, impossible, -⟩ := gives.call; cases impossible⟩⟩
  | succ depth ih =>
    refine ⟨fun name => ⟨fun s a t gives sincere => ?_⟩⟩
    obtain ⟨_, same, body⟩ := gives.call
    cases same
    have clears := @rule_heeds ⟨env, depth⟩ _ ih name
    exact clears.leads body sincere

section Inputs

variable [heeds : Heeds bounds]

omit heeds in
private theorem loop_exits {step : Rule Bool} {s t : State} (gives : bounds.Gives (loop step) s () t) :
    ∃ u, bounds.Gives step u false t := by
  rcases bounds with ⟨env, depth⟩
  obtain ⟨_, run⟩ := gives
  refine run.loop_induction (motive := fun _ _ r _ => r = .ok ((), t) → ∃ u, Bounds.Gives ⟨env, depth⟩ step u false t)
    (fun round given => ?_) (fun _ given => nomatch given) (fun _ _ _ later => later) rfl
  cases given
  have last : Bounds.Gives ⟨env, depth⟩ (stepTo () step) _ none t := ⟨_, round⟩
  obtain ⟨goes, u, ran, told⟩ := last.bind
  obtain ⟨same, rfl⟩ := told.pure
  cases goes with
  | true => cases same
  | false => exact ⟨_, ran⟩

omit heeds in
private theorem probe_fails {next : Kind} {s t : State} (gives : bounds.Gives (sees kind <&&> nthIs 1 next) s false t)
    (here : t.current bounds.env = kind) : (t.cursor bounds.env).nth 1 ≠ next := by
  obtain ⟨found, u, seen, rest⟩ := gives.bind
  obtain ⟨-, told⟩ := gives_sees seen
  cases found with
  | false =>
    obtain ⟨-, rfl⟩ := rest.pure
    exact absurd here (beq_eq_false_iff_ne.mp told.symm)
  | true =>
    obtain ⟨rfl, same⟩ := nthIs_gives rest
    exact beq_eq_false_iff_ne.mp same.symm

omit heeds in
private theorem qualifiedName_stops {s t : State} (gives : bounds.Gives qualifiedName s () t) (sincere : s.Sincere bounds.env .empty) :
    t.isTold = true ∨ (t.current bounds.env = .dot → (t.cursor bounds.env).nth 1 ≠ .identifier) := by
  obtain ⟨found, u, seen, rest⟩ := gives.bind
  have asks : Asks bounds .empty (sees .identifier) (.singleton .identifier) .empty := inferInstance
  have behind := asks.leads seen sincere
  cases found with
  | false =>
    obtain ⟨here, v, looked, told⟩ := (show bounds.Gives (expectedHere "identifier") u () t from rest).bind
    obtain ⟨rfl, rfl⟩ := gives_current looked
    exact .inl (State.report_sincere behind (by simp) (Result.of_done told.act)).2
  | true =>
    obtain ⟨node, v, ran, last⟩ := (show bounds.Gives (discard (node .qualifiedName _)) u () t from rest).bind
    obtain ⟨-, rfl⟩ := last.pure
    obtain ⟨mark, w, started, gives⟩ := ran.bind
    obtain ⟨kind, x, named, closed⟩ := gives.bind
    obtain ⟨_, y, named, told⟩ := named.bind
    obtain ⟨-, rfl⟩ := told.pure
    obtain ⟨_, z, first, rounds⟩ := named.bind
    obtain ⟨u, last⟩ := loop_exits rounds
    obtain ⟨goes, w, asked, rest⟩ := last.bind
    obtain ⟨r, completed, same⟩ := map_eq_ok.mp closed.act
    cases same
    have position := (State.complete_same completed).position
    cases goes with
    | true =>
      obtain ⟨_, _, -, rest⟩ := rest.bind
      obtain ⟨_, _, -, rest⟩ := rest.bind
      cases rest.pure.1
    | false =>
      obtain ⟨-, rfl⟩ := rest.pure
      refine .inr fun here => ?_
      rw [State.current, State.cursor, position] at here
      rw [State.cursor, position]
      exact probe_fails asked here

/-- What is left of a dot behind a name is one that a star follows. -/
instance : Clears bounds .empty importRest where
  leads s a t gives sincere := by
    obtain ⟨_, u, taken, gives⟩ := gives.bind
    obtain ⟨_, v, static, gives⟩ := gives.bind
    obtain ⟨_, w, named, gives⟩ := gives.bind
    obtain ⟨star, x, asked, gives⟩ := gives.bind
    have before : v.Sincere bounds.env .empty := Clears.leads static (Clears.leads taken sincere)
    have behind : w.Sincere bounds.env .empty := Clears.leads named before
    have asks : Asks bounds .empty (sees .dot <&&> nthIs 1 .star) (.singleton .dot) (.singleton .dot) := inferInstance
    have dotted := asks.leads asked behind
    cases star with
    | true =>
      rw [if_pos rfl] at gives
      exact (Clears.leads : Leads bounds (.singleton .dot) _ _) gives dotted
    | false =>
      obtain ⟨-, rfl⟩ := gives.pure
      have still : t.isTold = w.isTold ∧ t.cursor bounds.env = w.cursor bounds.env := by
        obtain ⟨found, u, seen, rest⟩ := asked.bind
        obtain ⟨rfl, -⟩ := gives_sees seen
        cases found with
        | false => obtain ⟨-, rfl⟩ := rest.pure; exact ⟨rfl, rfl⟩
        | true => obtain ⟨rfl, -⟩ := nthIs_gives rest; exact ⟨rfl, rfl⟩
      rcases qualifiedName_stops named before with told | stops
      · exact .of_told dotted.told (still.1.trans told)
      · refine dotted.weaken fun given => .inr ?_
        have here : Kind.dot = t.current bounds.env := by simpa using given
        have probed := (inferInstance : Probes .dot .identifier).probed _ (stops (by rw [State.current, ← still.2]; exact here.symm))
        rw [State.Waives, ← here, still.2, Kind.isPassed, probed, Bool.true_or]

instance {modified : Bool} : Clears bounds .empty (topLevelRest modified) := by
  unfold topLevelRest
  infer_instance

instance : Clears bounds .empty topLevelItem := by
  unfold topLevelItem
  infer_instance

omit heeds in
private theorem leads_toEnd {step : Rule Bool} [Clears bounds .empty step] : Leads bounds .empty (loop do
    if ← sees .eof then return false else step) fun _ => .singleton .eof :=
  .loop (.ask (inferInstance : Asks bounds .empty (sees .eof) (.singleton .eof) .empty) (.pure rfl) .clear)

instance : Clears bounds .empty compilationUnit where
  leads := by
    have items : Defers bounds .empty (loop do
        if ← sees .eof then return false else do skipUnmoved topLevelItem (.expected "a declaration"); return true)
          (.singleton .eof) := ⟨leads_toEnd⟩
    have whole : Clears bounds .empty compilationUnit := by
      unfold compilationUnit
      infer_instance
    exact whole.leads

omit heeds in
private theorem restOfInput_leads : Leads bounds .empty restOfInput fun _ => .singleton .eof := by
  refine .ask (inferInstance : Asks bounds .empty (sees .eof) (.singleton .eof) .empty) (.pure rfl) ?_
  exact .andThen .empty .clear fun _ => leads_toEnd

private theorem expressionRoot_leads : Leads bounds .empty expressionRoot fun _ => .singleton .eof := by
  unfold expressionRoot nodeIf
  refine Leads.bind (Leads.spare.bind fun mark => ?_ : Leads bounds .empty _ fun _ => .singleton .eof) fun _ => .pure rfl
  refine Leads.bind (Clears.leads.bind fun expression => ?_ : Leads bounds .empty _ fun _ => .singleton .eof) fun found => ?_
  · have ends : Asks bounds .empty (pure expression.isSome <&&> sees .eof) (.singleton .eof) .empty := inferInstance
    exact .ask ends (.pure rfl) (restOfInput_leads.bind fun _ => .pure rfl)
  · cases found <;> exact Leads.spare.bind fun _ => .pure rfl

end Inputs

end Grammar

private theorem Lexer.lexeme_plain (c : Char) (rest : List Char) : (lexeme c rest).1.isContextualKeyword = false := by
  have varied {kind : Kind} (given : Varied kind) : kind.isContextualKeyword = false := by
    have spelled : ∀ kind ∈ Kind.all, kind.isContextualKeyword = true → kind.text? ≠ none := by decide +kernel
    exact Bool.eq_false_iff.mpr fun contextual => spelled kind (Kind.mem_all kind) contextual given.2
  unfold lexeme
  split
  · exact varied (varied_number c rest)
  split
  · unfold word
    dsimp only
    cases found : Kind.ofReservedWord? (String.ofList (c :: rest.take (Measure.run Text.isIdentifierPart rest))) with
    | none => rfl
    | some kind =>
      have reserved := List.find?_some found
      simp only [Bool.and_eq_true, beq_iff_eq] at reserved
      have words : ∀ kind ∈ Kind.all, kind.isReservedWord → kind.isContextualKeyword = false := by decide +kernel
      exact words kind (Kind.mem_all kind) reserved.1
  split
  · exact varied (varied_character rest)
  split
  · exact varied (varied_string rest)
  split
  · rfl
  · unfold operator
    cases found : punctuation.findSome? (matchText? c rest) with
    | none => rfl
    | some longest =>
      obtain ⟨kind, member, matched⟩ := List.exists_of_findSome?_eq_some found
      have marks : ∀ kind ∈ punctuation, kind.isContextualKeyword = false := by decide
      unfold matchText? at matched
      split at matched
      · split at matched
        · cases matched
          exact marks kind member
        · cases matched
      · cases matched

private theorem Lexer.tokensFrom_plain (offset : Nat) (text : List Char) :
    ∀ token ∈ tokensFrom offset text, token.kind.isContextualKeyword = false := by
  have scanned (offset : Nat) (text : List Char) : (scan offset text).1.kind.isContextualKeyword = false := by
    unfold scan
    dsimp only
    split
    · rfl
    · exact lexeme_plain _ _
  fun_induction tokensFrom offset text with
  | case1 offset text found ended => simpa using scanned offset text
  | case2 offset text found more ih => simpa using ⟨scanned offset text, ih⟩

variable {entry : EntryPoint} {text : String} {options : ParseOptions} {parse : Parse}

/-- A syntax error does not expect the token it is about, but where a rule looked behind this and left it, or where the
error is that a token that could stand there is not wanted. -/
theorem Parse.expected_without_found (parsed : entry.parse text options = .ok parse) :
    ∀ d ∈ parse.diagnostics, d.kind = .syntaxError → ∃ token, (tokenize text)[d.tokenIndex]? = some token ∧
      (d.expected.contains token.kind = true →
        (∃ next, (tokenize text)[d.tokenIndex + 1]? = some next ∧ token.kind.isProbed next.kind = true) ∨
        ∃ issue : Issue, d.message = issue.message ∧ issue.Overrules token.kind) := by
  rw [EntryPoint.parse_eq] at parsed
  obtain ⟨t, ran, built⟩ := Parse.run_ok parsed
  obtain ⟨steps, tree, -, -, rfl⟩ := Parse.ofState_ok built
  cases entry.sorts text options with
  | gives ran' sorts =>
    cases ran.symm.trans ran'.exec_eq
    obtain ⟨u, ordered, inside, told⟩ := sorts
    have heeds := Grammar.heeds_within (textEnv text options)
    have leads (depth : Nat) : ∃ left, Grammar.Leads ⟨textEnv text options, depth⟩ .empty entry.rule fun _ => left := by
      cases entry with
      | file => exact ⟨.empty, (inferInstance : Grammar.Clears _ .empty Grammar.compilationUnit).leads⟩
      | expression => exact ⟨.singleton .eof, Grammar.expressionRoot_leads⟩
    obtain ⟨left, leads⟩ := leads _
    have sincere := leads ⟨_, ran'⟩ ⟨by simp, .inr (by simp)⟩
    intro d member syntaxError
    have reached : d.tokenIndex < (tokenize text).length := by
      have before := ordered.reached d (told ▸ member)
      have size := size_lex text
      simp only [textEnv] at inside
      omega
    refine ⟨(tokenize text)[d.tokenIndex], List.getElem?_eq_getElem reached, fun found => ?_⟩
    have kindAt {index : Nat} (reached : index < (tokenize text).length) :
        (textEnv text options).stream.kindAt index = (tokenize text)[index].kind := congrArg Token.kind (tokenAt_lex reached)
    have plain := Lexer.tokensFrom_plain 0 text.toList _ (List.getElem_mem reached)
    rcases sincere.told d member syntaxError (by rwa [kindAt reached]) with passed | overruled
    · rw [kindAt reached, Kind.isPassed, plain, Bool.or_false] at passed
      have more : d.tokenIndex + 1 < (tokenize text).length := by
        refine Nat.lt_of_not_le fun last => ?_
        have ended : (tokenize text)[d.tokenIndex].kind = .eof :=
          (kindAt reached).symm.trans (TokenStream.kind_tokenAt_of_le (by simp only [textEnv, size_lex]; omega))
        rw [ended] at passed
        cases passed
      exact .inl ⟨_, List.getElem?_eq_getElem more, by rwa [← kindAt more]⟩
    · exact .inr (by rwa [kindAt reached] at overruled)
  | halts ran' => cases ran.symm.trans ran'.exec_eq
  | sticks cause => cases ran.symm.trans (Grammar.exec_eq_none_of_sticks cause)

/-- A class without a name. -/
theorem Parse.expected_without_found_name :
    ∃ parse, EntryPoint.file.parse "class \x7b\x7d" {} = .ok parse ∧
      (∃ d ∈ parse.diagnostics, d.kind = .syntaxError ∧ d.expected.contains .identifier = true) ∧
      ∀ d ∈ parse.diagnostics, d.kind = .syntaxError → ∃ token, (tokenize "class \x7b\x7d")[d.tokenIndex]? = some token ∧
        (d.expected.contains token.kind = true →
          (∃ next, (tokenize "class \x7b\x7d")[d.tokenIndex + 1]? = some next ∧ token.kind.isProbed next.kind = true) ∨
          ∃ issue : Issue, d.message = issue.message ∧ issue.Overrules token.kind) := by
  have found : Parse.givesWithin 300 (fun parse => parse.diagnostics.any fun d =>
      d.kind == .syntaxError && d.expected.contains .identifier) Grammar.compilationUnit (.lex "class \x7b\x7d") {} = true := by
    decide +kernel
  obtain ⟨parse, ran, named⟩ := Parse.run_of_givesWithin found
  have parsed : EntryPoint.file.parse "class \x7b\x7d" {} = .ok parse := ran
  simp only [List.any_eq_true, Bool.and_eq_true, beq_iff_eq] at named
  exact ⟨parse, parsed, named, Parse.expected_without_found parsed⟩

/-- At the end of an unfinished class, the end of the input is told to be missing along with the brace. -/
theorem Parse.end_expected_at_end :
    ∃ parse, EntryPoint.file.parse "class A \x7b" {} = .ok parse ∧ ∃ d ∈ parse.diagnostics, d.kind = .syntaxError ∧
      ∃ token, (tokenize "class A \x7b")[d.tokenIndex]? = some token ∧ token.kind = .eof ∧ d.expected.contains .eof = true := by
  have found : Parse.givesWithin 300 (fun parse => parse.diagnostics.any fun d =>
      d.kind == .syntaxError && ((tokenize "class A \x7b")[d.tokenIndex]?).any (fun token => token.kind == .eof)
        && d.expected.contains .eof) Grammar.compilationUnit (.lex "class A \x7b") {} = true := by decide +kernel
  obtain ⟨parse, ran, checked⟩ := Parse.run_of_givesWithin found
  simp only [List.any_eq_true, Bool.and_eq_true, beq_iff_eq, Option.any_eq_true] at checked
  obtain ⟨d, member, ⟨syntaxError, token, stands, ended⟩, told⟩ := checked
  exact ⟨parse, ran, d, member, syntaxError, token, stands, ended, told⟩

end LosslessJava
