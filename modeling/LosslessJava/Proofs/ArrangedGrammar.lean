import LosslessJava.Proofs.ArrangedSwitches

/-! All rules of the grammar but those that end labels lead back to where they stand. -/

namespace LosslessJava.Grammar

open LosslessJava.Parser

set_option synthInstance.maxSize 4000

section Rules

variable {setting : Setting Nonterminal} [arranged : Arranged setting] {quiet : Bool} {α : Type}

section Expressions

instance : Arranging setting quiet argList := by
  unfold argList
  infer_instance

instance : Arranging setting quiet variableInitializer := by
  unfold variableInitializer
  infer_instance

instance : Arranging setting quiet arrayInitializer := by
  unfold arrayInitializer
  infer_instance

instance : Arranging setting quiet lambdaParamList := by
  unfold lambdaParamList lambdaElement lambdaParam
  infer_instance

instance : Arranging setting quiet lambdaExpr := by
  unfold lambdaExpr lambdaParams
  infer_instance

instance : Arranging setting false reference := by
  unfold reference
  infer_instance

instance : Tells Kind.isOrdinary reference := by
  unfold reference
  infer_instance

instance {node : Completed} : Arranging setting quiet (methodRef node) := by
  unfold methodRef
  infer_instance

instance {node : Completed} : Arranging setting quiet (typeLiteralSuffix node) := by
  unfold typeLiteralSuffix
  infer_instance

instance : Arranging setting quiet arrayCreationRest := by
  unfold arrayCreationRest dimExpr
  infer_instance

instance : Arranging setting quiet objectCreationRest := by
  unfold objectCreationRest
  infer_instance

instance : Arranging setting quiet creation := by
  unfold creation
  infer_instance

instance : Tells Kind.isOrdinary creation := by
  unfold creation
  infer_instance

instance : Arranging setting false genericCallName := by
  unfold genericCallName
  refine .andThen fun kind => ?_
  split <;> infer_instance

instance : Arranging setting false genericCallRest := by
  unfold genericCallRest
  infer_instance

instance {kind : Kind} : Arranging setting quiet (callOr kind) := by
  unfold callOr
  infer_instance

instance {kind : Kind} [ordinary : Evident kind.isOrdinary] : Tells Kind.isOrdinary (callOr kind) := by
  unfold callOr
  infer_instance

instance : Arranging setting false selected := by
  unfold selected
  refine .andThen fun kind => ?_
  split <;> infer_instance

instance : Tells Kind.isOrdinary selected := by
  unfold selected
  refine .andThen fun kind => ?_
  split <;> infer_instance

instance {node : Completed} : Arranging setting quiet (postfixStep node) := by
  unfold postfixStep dotSuffix arrayAccess subscript
  refine .andThen fun kind => ?_
  split <;> infer_instance

instance {node : Completed} : Arranging setting quiet (incrementStep node) := by
  unfold incrementStep
  refine .andThen fun kind => ?_
  split <;> infer_instance

instance {node : Completed} : Arranging setting quiet (postfixExpr node) := by
  unfold postfixExpr
  infer_instance

instance : Arranging setting quiet genericReceiver? := by
  unfold genericReceiver?
  refine .tried (.andThen fun found => ?_)
  split <;> infer_instance

instance : Arranging setting quiet simpleName := by
  unfold simpleName plainName
  refine .andThen fun next => .andThen fun literal => ?_
  split
  · refine .andThen fun found => ?_
    split <;> infer_instance
  · infer_instance

instance : Arranging setting quiet nameExpr := by
  unfold nameExpr
  refine .andThen fun next => .andThen fun barred => ?_
  split
  · infer_instance
  · split
    · refine .andThen fun found => ?_
      split <;> infer_instance
    · infer_instance

instance {kind plain : Kind} [ordinary : Evident plain.isOrdinary] : Arranging setting quiet (selfExpr kind plain) := by
  unfold selfExpr
  infer_instance

instance : Arranging setting quiet genericSelfCall := by
  unfold genericSelfCall genericSelfName
  infer_instance

instance : Arranging setting quiet missingExpression := by
  unfold missingExpression
  dsimp only
  infer_instance

instance : Arranging setting quiet literalType := by
  unfold literalType
  refine .andThen fun found => ?_
  split <;> infer_instance

instance : Arranging setting quiet primary := by
  unfold primary
  refine .andThen fun kind => ?_
  split
  · infer_instance
  · split
    · infer_instance
    · split <;> infer_instance

instance : Arranging setting quiet castExpr := by
  unfold castExpr intersectionType
  infer_instance

instance : Arranging setting quiet parenExpr := by
  unfold parenExpr
  infer_instance

instance {kind : ParenKind} : Arranging setting quiet (operandOf kind) := by
  unfold operandOf
  split <;> infer_instance

instance : Arranging setting quiet parenOperand := by
  unfold parenOperand
  infer_instance

instance : Arranging setting quiet attachedOperand := by
  unfold attachedOperand
  refine .andThen fun found => ?_
  split <;> infer_instance

instance : Arranging setting quiet prefixExpr := by
  unfold prefixExpr
  infer_instance

instance : Arranging setting quiet unary := by
  unfold unary
  refine .andThen fun kind => ?_
  split <;> infer_instance

instance : Arranging setting quiet instanceofTarget := by
  unfold instanceofTarget
  infer_instance

instance {op : Operator} : Arranging setting false (operation op) := by
  unfold operation
  split <;> infer_instance

instance {op : Operator} : Tells Kind.isOrdinary (operation op) := by
  unfold operation
  split <;> infer_instance

instance {least : Power} {node : Completed} : Arranging setting quiet (operatorStep least node) := by
  unfold operatorStep
  refine .andThen fun cursor => ?_
  split <;> infer_instance

instance {least : Power} : Arranging setting quiet (expression least) := by
  unfold expression
  refine .deeper (.andThen fun found => ?_)
  split <;> infer_instance

end Expressions

section Declarations

instance : Evident (areOrdinary []) := ⟨rfl⟩

instance {keyword kind : Kind} {rest : List ClauseForm} [ordinary : Evident kind.isOrdinary] [proper : Evident (areOrdinary rest)] :
    Evident (areOrdinary ((keyword, kind) :: rest)) :=
  ⟨by
    rw [areOrdinary, List.all_cons]
    exact Bool.and_eq_true_iff.mpr ⟨ordinary.holds, proper.holds⟩⟩

private theorem seesKeyword_arranging {keyword : Kind} : Arranging setting quiet (seesKeyword keyword) := by
  unfold seesKeyword
  infer_instance

private theorem clauseHere_arranging {forms : List ClauseForm} {index : Nat} :
    Arranging setting quiet (clauseHere index forms) := by
  induction forms generalizing index with
  | nil => exact inferInstanceAs (Arranging setting quiet (Pure.pure none))
  | cons form rest ih =>
    unfold clauseHere
    have here := @seesKeyword_arranging setting _ quiet form.1
    exact .andThen fun _ => inferInstance

private theorem clauseHere_tells_ordinary {forms : List ClauseForm} (proper : areOrdinary forms = true) {index : Nat} :
    Tells (fun answer => answer.all (·.2.2.isOrdinary)) (clauseHere index forms) := by
  induction forms generalizing index with
  | nil => exact .of_pure rfl
  | cons form rest ih =>
    obtain ⟨ordinary, proper⟩ : form.2.isOrdinary = true ∧ areOrdinary rest = true := by
      simpa [areOrdinary] using proper
    have later := @ih proper (index + 1)
    have found : Tells (fun answer => answer.all (·.2.2.isOrdinary)) (Pure.pure (some (index, form)) : Rule _) := .of_pure ordinary
    unfold clauseHere
    infer_instance

instance : Arranging setting quiet optionalInitializer := by
  unfold optionalInitializer
  infer_instance

instance : Arranging setting quiet variableDeclarators := by
  unfold variableDeclarators
  infer_instance

private theorem clauses_arranging {forms : List ClauseForm} (proper : areOrdinary forms = true) :
    Arranging setting quiet (clauses forms) := by
  have round (last : Option Nat) : Arranging setting quiet (clauseStep forms last) := by
    refine .told clauseHere_arranging (clauseHere_tells_ordinary proper) fun answer ordinary => ?_
    cases answer with
    | none => exact inferInstanceAs (Arranging setting quiet (Pure.pure none))
    | some given =>
      have ordinary : Evident given.2.2.isOrdinary := ⟨ordinary⟩
      dsimp only
      unfold orderedClause
      infer_instance
  unfold clauses
  infer_instance

instance : Arranging setting quiet throwsClause := by
  unfold throwsClause
  infer_instance

instance : Arranging setting quiet implementsClause := by
  unfold implementsClause
  infer_instance

instance : Arranging setting quiet receiver := by
  unfold receiver
  infer_instance

instance : Arranging setting quiet ellipsisHere := by
  unfold ellipsisHere
  infer_instance

instance {kind : Kind} [ordinary : Evident kind.isOrdinary] : Arranging setting quiet (formalParam kind) := by
  unfold formalParam
  infer_instance

instance : Arranging setting quiet paramList := by
  unfold paramList
  infer_instance

instance : Arranging setting quiet methodBody := by
  unfold methodBody
  infer_instance

instance {body : Kind} : Arranging setting quiet (methodRest body) := by
  unfold methodRest defaultValueIn defaultValue
  infer_instance

instance : Arranging setting quiet constructorDecl := by
  unfold constructorDecl
  infer_instance

instance {body : Kind} : Arranging setting quiet (methodOrField body) := by
  unfold methodOrField
  infer_instance

instance {body : Kind} : Arranging setting quiet (genericMember body) := by
  unfold genericMember
  infer_instance

instance : Arranging setting quiet classDecl := by
  unfold classDecl
  infer_instance

instance : Arranging setting quiet interfaceDecl := by
  unfold interfaceDecl
  infer_instance

instance : Arranging setting quiet enumDecl := by
  unfold enumDecl
  infer_instance

instance : Arranging setting quiet recordDecl := by
  unfold recordDecl recordHeader
  infer_instance

instance : Arranging setting quiet annotationTypeDecl := by
  unfold annotationTypeDecl
  infer_instance

instance : Arranging setting quiet typeDeclRest := by
  unfold typeDeclRest
  refine .andThen fun cursor => ?_
  split
  · split <;> infer_instance
  · infer_instance

instance : Tells ordinaryIf typeDeclRest := by
  unfold typeDeclRest
  refine .andThen fun cursor => ?_
  split
  · split <;> infer_instance
  · infer_instance

instance : Arranging setting quiet typeDecl := by
  unfold typeDecl
  infer_instance

instance {body : Kind} : Arranging setting quiet (memberDeclRest body) := by
  unfold memberDeclRest
  infer_instance

instance {body : Kind} : Tells Kind.isOrdinary (methodRest body) := by
  unfold methodRest
  infer_instance

instance : Tells Kind.isOrdinary constructorDecl := by
  unfold constructorDecl
  infer_instance

instance {body : Kind} : Tells Kind.isOrdinary (genericMember body) := by
  unfold genericMember
  infer_instance

instance {body : Kind} : Tells Kind.isOrdinary (methodOrField body) := by
  unfold methodOrField
  infer_instance

instance {body : Kind} : Tells ordinaryIf (memberDeclRest body) := by
  unfold memberDeclRest
  infer_instance

instance {body : Kind} : Arranging setting quiet (memberDecl body) := by
  unfold memberDecl
  infer_instance

instance {body : Kind} : Arranging setting quiet (member body) := by
  unfold member
  infer_instance

instance : Arranging setting quiet enumConstants := by
  unfold enumConstants enumConstant
  infer_instance

instance {body : Kind} [ordinary : Evident body.isOrdinary] : Arranging setting quiet (bracedBody body) := by
  unfold bracedBody enumConstantsIn
  infer_instance

private theorem classBody_arranging {body : Kind} (orderly : body.isOrdinary = true) : Arranging setting quiet (classBody body) := by
  have ordinary : Evident body.isOrdinary := ⟨orderly⟩
  unfold classBody
  infer_instance

end Declarations

section Chains

open LosslessJava.Parser.State (Arranges failures_grow)

variable {calls steps : Nat} {errors : Errors} {site : Site} {s t u : State} {opened : List OpenIf}

/-- The nodes of a chain of `if` that are open, with what was recorded since each of them was started. -/
inductive OpenIfs (errors : Errors) (site : Site) (s : State) : List OpenIf → State → Prop where
  | nil {t : State} (arranges : s.Arranges errors site site t) : OpenIfs errors site s [] t
  | link {rest : List OpenIf} {u t : State} (outer : OpenIfs errors site s rest u)
      (arranges : u.start.Arranges errors .elsewhere .elsewhere t) : OpenIfs errors site s (⟨u.mark, none⟩ :: rest) t
  | branch {rest : List OpenIf} {u v t : State} (outer : OpenIfs errors site s rest u)
      (front : u.start.Arranges errors .elsewhere .elsewhere v) (arranges : v.start.Arranges errors .elsewhere .elsewhere t) :
      OpenIfs errors site s (⟨u.mark, some v.mark⟩ :: rest) t

private theorem start_tight (tight : s.Tight) : s.start.Tight := by
  have opens : State.Opens true s s.start := State.start_opens
  exact opens.tight tight

namespace OpenIfs

private theorem tight (links : OpenIfs errors site s opened t) (tight : s.Tight) : t.Tight := by
  induction links with
  | nil arranges => exact arranges.tight tight
  | link _ arranges ih => exact arranges.tight (start_tight ih)
  | branch _ front arranges ih => exact arranges.tight (start_tight (front.tight (start_tight ih)))

private theorem trans (links : OpenIfs errors site s opened t) (within : site.Hosts true)
    (arranges : ∀ {site : Site}, site.Hosts true → t.Arranges errors site site u) : OpenIfs errors site s opened u := by
  cases links with
  | nil before => exact .nil (before.trans (arranges within))
  | link outer before => exact .link outer (before.trans (arranges trivial))
  | branch outer front before => exact .branch outer front (before.trans (arranges trivial))

end OpenIfs

omit arranged in
private theorem complete_arranges_of_runs {kind : Kind} (ordinary : kind.isOrdinary = true) (hosts : site.Hosts true)
    (within : s.start.Arranges errors .elsewhere .elsewhere t)
    (run : Program.Runs setting.env setting.rules calls (discard (s.mark.complete kind)) t (.ok ((), u)) steps) :
    s.Arranges errors site site u := by
  obtain ⟨_, _, _, _, closed, still⟩ := bind_of_runs run rfl
  cases pure_of_runs still
  exact State.complete_plain ordinary hosts State.start_opens within (complete_of_runs closed)

omit arranged in
private theorem OpenIfs.closeIfs_arranges (links : OpenIfs errors site s opened t) (hosts : site.Hosts true)
    (run : Program.Runs setting.env setting.rules calls (closeIfs opened) t (.ok ((), u)) steps) : s.Arranges errors site site u := by
  induction opened generalizing t steps with
  | nil =>
    cases links with
    | nil arranges =>
      cases pure_of_runs run
      exact arranges
  | cons link rest ih =>
    obtain ⟨_, _, _, _, branch, run'⟩ := bind_of_runs run rfl
    obtain ⟨_, _, _, _, closed, last⟩ := bind_of_runs run' rfl
    cases links with
    | link outer arranges =>
      cases pure_of_runs branch
      exact ih (outer.trans hosts fun within => complete_arranges_of_runs rfl within arranges closed) last
    | branch outer front arranges =>
      have whole := front.trans (complete_arranges_of_runs rfl trivial arranges branch)
      exact ih (outer.trans hosts fun within => complete_arranges_of_runs rfl within whole closed) last

private theorem within_of_runs {β : Type} {rule : Rule β} [anywhere : Arranging setting false rule] {b : β} (same : calls = setting.calls)
    (run : Program.Runs setting.env setting.rules calls rule s (.ok (b, t)) steps) (fit : s.Fit setting.env)
    (grow : (t.failures setting.env).Grow errors) : s.Arranges errors .elsewhere .elsewhere t ∧ t.Fit setting.env := by
  have arranges : s.Arranges errors .elsewhere .elsewhere t := anywhere.arranges same run rfl fit grow trivial
  exact ⟨arranges, fit.later arranged.regular run (arranges.tight fit.tight)⟩

private theorem OpenIfs.ifLink {answer : List OpenIf × Bool} (links : OpenIfs errors site s opened t)
    (same : calls = setting.calls) (fit : t.Fit setting.env)
    (run : Program.Runs setting.env setting.rules calls (ifLink opened) t (.ok (answer, u)) steps)
    (grow : (u.failures setting.env).Grow errors) : OpenIfs errors site s answer.1 u := by
  obtain ⟨_, _, _, _, started, run⟩ := bind_of_runs run rfl
  obtain ⟨rfl, rfl⟩ := start_of_runs started
  have fit := fit.later arranged.regular started fit.start_tight
  obtain ⟨_, _, _, _, keyword, run⟩ := bind_of_runs run rfl
  obtain ⟨_, _, _, _, tested, later⟩ := bind_of_runs run rfl
  obtain ⟨_, _, _, _, done, rest⟩ := bind_of_runs later rfl
  obtain ⟨otherwise, v, _, _, looked, ends⟩ := bind_of_runs rest rfl
  obtain ⟨one, fit⟩ := within_of_runs same keyword fit ((failures_grow run).trans grow)
  obtain ⟨two, fit⟩ := within_of_runs same tested fit ((failures_grow later).trans grow)
  obtain ⟨three, fit⟩ := within_of_runs same done fit ((failures_grow rest).trans grow)
  obtain ⟨four, fit⟩ := within_of_runs same looked fit ((failures_grow ends).trans grow)
  have front := one.trans (two.trans (three.trans four))
  split at ends
  · obtain ⟨_, _, _, _, started, run⟩ := bind_of_runs ends rfl
    obtain ⟨rfl, rfl⟩ := start_of_runs started
    have fit := fit.later arranged.regular started fit.start_tight
    obtain ⟨_, _, _, _, keyword, rest⟩ := bind_of_runs run rfl
    obtain ⟨again, w, _, _, looked, ends⟩ := bind_of_runs rest rfl
    obtain ⟨one, fit⟩ := within_of_runs same keyword fit ((failures_grow rest).trans grow)
    obtain ⟨two, fit⟩ := within_of_runs same looked fit ((failures_grow ends).trans grow)
    have branch := one.trans two
    split at ends
    · cases pure_of_runs ends
      exact .branch links front branch
    · obtain ⟨_, _, _, _, done, ends⟩ := bind_of_runs ends rfl
      obtain ⟨_, _, _, _, closed, last⟩ := bind_of_runs ends rfl
      obtain ⟨three, -⟩ := within_of_runs same done fit ((failures_grow ends).trans grow)
      cases pure_of_runs last
      exact .link links (front.trans (complete_arranges_of_runs rfl trivial (branch.trans three) closed))
  · cases pure_of_runs ends
    exact .link links front

instance : Arranging setting quiet ifStmt := .of_steps fun {_ s _ _ _ errors site} same run fit grow hosts => by
  obtain ⟨answer, t, _, _, ran, closed⟩ := bind_of_runs run rfl
  suffices links : OpenIfs errors site s answer.1 t from links.closeIfs_arranges hosts.loud closed
  have tight := fit.tight
  have grow := (failures_grow closed).trans grow
  refine (ran.loop_induction (motive := fun links u r _ => r = .ok (answer, t) →
    (u.failures setting.env).Grow (t.failures setting.env) ∧
      (u.Fit setting.env → OpenIfs errors site s links.1 u → OpenIfs errors site s answer.1 t))
    (fun {links u v n} round given => ?leaves) (fun _ given => by cases given)
    (fun {links next u v r m n} round _ _ later given => ?goes) rfl).2 fit (.nil .refl)
  case leaves =>
    cases given
    refine ⟨failures_grow round, fun fit links => ?_⟩
    obtain ⟨opened, more⟩ := answer
    cases more with
    | true =>
      obtain ⟨_, _, _, _, _, last⟩ := bind_of_runs round rfl
      cases pure_of_runs last
    | false =>
      cases pure_of_runs round
      exact links
  case goes =>
    obtain ⟨grows, rest⟩ := later given
    refine ⟨(failures_grow round).trans grows, fun fit before => ?_⟩
    obtain ⟨links, more⟩ := links
    cases more with
    | true =>
      obtain ⟨_, _, _, _, linked, last⟩ := bind_of_runs round rfl
      cases pure_of_runs last
      have after := before.ifLink same fit linked (grows.trans grow)
      exact rest (fit.later arranged.regular linked (after.tight tight)) after
    | false => cases pure_of_runs round

end Chains

section Statements

instance : Arranging setting quiet block := by
  unfold block
  infer_instance

instance {rule : Rule Unit} [Arranging setting false rule] : Arranging setting quiet (localVarDecl rule) := by
  unfold localVarDecl
  infer_instance

instance : Arranging setting quiet statementEnd := by
  unfold statementEnd
  infer_instance

instance {kind keyword : Kind} {rule : Rule Unit} [ordinary : Evident kind.isOrdinary] [Arranging setting false rule] :
    Arranging setting quiet (keywordStmt kind keyword rule) := by
  unfold keywordStmt
  infer_instance

instance : Arranging setting quiet exprList := by
  unfold exprList
  infer_instance

instance : Arranging setting false (bracketed loopHeader) := by
  unfold loopHeader forHeader forInit foreachHeader
  infer_instance

instance : Tells Kind.isOrdinary (bracketed loopHeader) := by
  unfold bracketed loopHeader
  infer_instance

instance : Arranging setting quiet forStmt := by
  have head : Tells Kind.isOrdinary (do
      consume .forKw
      require .leftParen
      let kind ← bracketed loopHeader
      require .rightParen
      call .statement
      return kind : Rule Kind) :=
    .andThen fun _ => .andThen fun _ => .told inferInstance fun _ outer => .andThen fun _ => .andThen fun _ => .of_pure outer
  unfold forStmt
  infer_instance

instance : Arranging setting quiet resourceSpec := by
  unfold resourceSpec resource resourceVariable
  infer_instance

instance : Arranging setting quiet catchClause := by
  unfold catchClause unionType
  infer_instance

instance : Arranging setting quiet tryStmt := by
  unfold tryStmt optionalResources catchClauses
  infer_instance

instance : Arranging setting quiet plainStatement := by
  unfold plainStatement
  infer_instance

instance : Arranging setting quiet nameStatement := by
  unfold nameStatement
  infer_instance

instance {kind : Kind} [ordinary : Evident kind.isOrdinary] : Arranging setting quiet (jumpStmt kind) := by
  unfold jumpStmt
  infer_instance

instance : Arranging setting quiet statementHere := by
  unfold statementHere assertMessage
  refine .andThen fun kind => ?_
  split <;> infer_instance

instance : Arranging setting quiet statement := by
  unfold statement
  infer_instance

end Statements

section Files

instance : Arranging setting false requiresModifiers := by
  unfold requiresModifiers
  infer_instance

instance : Arranging setting false targets := by
  unfold targets
  infer_instance

instance : Arranging setting false implementations := by
  unfold implementations
  infer_instance

instance : Arranging setting false directiveHead := by
  unfold directiveHead
  infer_instance

instance : Tells ordinaryIf directiveHead := by
  unfold directiveHead
  infer_instance

instance : Arranging setting false directive := by
  have rest : Arranging setting false directiveRest := by
    unfold directiveRest
    refine .andThen fun kind => ?_
    split <;> infer_instance
  have kind : Tells ordinaryIf directiveRest := by
    unfold directiveRest
    refine .told (show Tells ordinaryIf directiveHead from inferInstance) fun kind outer => ?_
    split
    · exact .andThen fun _ => .of_pure outer
    · infer_instance
  unfold directive
  infer_instance

instance : Arranging setting false moduleDecl := by
  unfold moduleDecl optionalOpen moduleBody
  infer_instance

instance {modified : Bool} : Arranging setting false (topLevelRest modified) := by
  unfold topLevelRest importRest
  infer_instance

instance {modified : Bool} : Tells ordinaryIf (topLevelRest modified) := by
  unfold topLevelRest
  infer_instance

instance : Arranging setting false compilationUnit := by
  unfold compilationUnit topLevelItem
  infer_instance

instance : Arranging setting false expressionRoot := by
  unfold expressionRoot restOfInput
  infer_instance

end Files

/-- All rules lead back to where they stand, if those that they call do. -/
theorem rule_arranging {name : Nonterminal α} (orderly : name.isOrderly = true) : Arranging setting true (rule α name) := by
  cases name with
  | clauses forms => exact clauses_arranging orderly
  | classBody kind => exact classBody_arranging orderly
  | terminator => cases orderly
  | _ =>
    unfold rule
    infer_instance

end Rules

theorem arranged {env : Env} (regular : env.stream.Regular) (lenient : env.options.mode = .lenient) (calls : Nat) :
    Arranged ⟨env, rule, calls⟩ := by
  have forgiving {calls : Nat} : Forgiving ⟨env, rule, calls⟩ := ⟨regular, lenient⟩
  induction calls with
  | zero =>
    refine ⟨rfl, fun _ => ⟨fun same run => ?_⟩, fun _ => ⟨fun same run => ?_⟩⟩
    · obtain ⟨_, _, rfl, -⟩ := call_of_runs run
      cases same
    · obtain ⟨_, _, rfl, -⟩ := call_of_runs run
      cases same
  | succ calls ih =>
    refine ⟨rfl, fun orderly => ⟨fun same run => ?_⟩, fun form => ⟨fun same run => ?_⟩⟩
    · obtain ⟨_, _, rfl, body⟩ := call_of_runs run
      have here : Arranging ⟨env, rule, calls⟩ true (rule _ _) := rule_arranging orderly
      exact here.arranges (Nat.succ.inj same) body
    · obtain ⟨_, _, rfl, body⟩ := call_of_runs run
      have here : Terminating ⟨env, rule, calls⟩ form (terminator form) := terminator_terminates
      exact here.ends (Nat.succ.inj same) body

end LosslessJava.Grammar
