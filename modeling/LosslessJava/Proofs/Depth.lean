import LosslessJava.Proofs.CleanParse
import LosslessJava.Proofs.Recursion

/-! The depth of a parse's tree. Every rule has the weight that its name is given, whatever it calls, so no way
down the tree comes through more brackets than the options allow. Arguments of annotations count only if they
are not directly within those of another annotation: an annotation is read within another one without going
any deeper. -/

namespace LosslessJava.Grammar

open LosslessJava.Parser

set_option synthInstance.maxSize 2000

variable {setting : Setting Nonterminal} {free : Bool} {weight : Nat} {α : Type}

section Declarations

instance : Evident (Nonterminal.clauses []).isProper := ⟨rfl⟩

instance {keyword kind : Kind} {rest : List ClauseForm} [outer : Evident kind.isOuter]
    [proper : Evident (Nonterminal.clauses rest).isProper] : Evident (Nonterminal.clauses ((keyword, kind) :: rest)).isProper :=
  ⟨by
    rw [Nonterminal.isProper, List.all_cons]
    exact Bool.and_eq_true_iff.mpr ⟨outer.holds, proper.holds⟩⟩

private theorem seesKeyword_weighs {keyword : Kind} : Weighs setting free weight (seesKeyword keyword) := by
  unfold seesKeyword
  infer_instance

private theorem clauseHere_weighs {forms : List ClauseForm} {index : Nat} :
    Weighs setting free weight (clauseHere index forms) := by
  induction forms generalizing index with
  | nil => exact inferInstanceAs (Weighs setting free weight (Pure.pure none))
  | cons form rest ih =>
    unfold clauseHere
    have here := @seesKeyword_weighs setting free weight form.1
    exact .andThen fun _ => inferInstance

private theorem clauseHere_tells {forms : List ClauseForm} (proper : (Nonterminal.clauses forms).isProper = true) {index : Nat} :
    Tells (fun answer => answer.all (·.2.2.isOuter)) (clauseHere index forms) := by
  induction forms generalizing index with
  | nil => exact .of_pure rfl
  | cons form rest ih =>
    obtain ⟨outer, proper⟩ : form.2.isOuter = true ∧ (Nonterminal.clauses rest).isProper = true := by
      simpa [Nonterminal.isProper] using proper
    have later := @ih proper (index + 1)
    have found : Tells (fun answer => answer.all (·.2.2.isOuter)) (Pure.pure (some (index, form)) : Rule _) := .of_pure outer
    unfold clauseHere
    infer_instance

variable [weighed : Weighed setting]

instance {forms : List ClauseForm} [proper : Evident (Nonterminal.clauses forms).isProper] :
    Weighs setting false weight (call (.clauses forms)) := call_weighs proper.holds (Nat.zero_le _)

instance : Weighs setting false weight optionalInitializer := by
  unfold optionalInitializer
  infer_instance

instance : Weighs setting false weight variableDeclarators := by
  unfold variableDeclarators
  infer_instance

private theorem clauses_weighs {forms : List ClauseForm} (proper : (Nonterminal.clauses forms).isProper = true) :
    Weighs setting false weight (clauses forms) := by
  have round (last : Option Nat) : Weighs setting false weight (clauseStep forms last) := by
    refine .told clauseHere_weighs (clauseHere_tells proper) fun answer outer => ?_
    cases answer with
    | none => exact inferInstanceAs (Weighs setting false weight (Pure.pure none))
    | some given =>
      have outer : Evident given.2.2.isOuter := ⟨outer⟩
      dsimp only
      unfold orderedClause
      infer_instance
  unfold clauses
  infer_instance

instance : Weighs setting false weight throwsClause := by
  unfold throwsClause
  infer_instance

instance : Weighs setting false weight implementsClause := by
  unfold implementsClause
  infer_instance

instance {kind : Kind} [outer : Evident kind.isOuter] : Weighs setting false (weight + 1) (formalParam kind) := by
  unfold formalParam receiver ellipsisHere
  infer_instance

instance : Weighs setting false (weight + 1) paramList := by
  unfold paramList
  infer_instance

instance : Weighs setting false weight methodBody := by
  unfold methodBody
  infer_instance

instance {body : Kind} : Weighs setting false (weight + 1) (methodRest body) := by
  unfold methodRest defaultValueIn defaultValue
  infer_instance

instance : Weighs setting false (weight + 1) constructorDecl := by
  unfold constructorDecl
  infer_instance

instance {body : Kind} : Weighs setting false (weight + 1) (methodOrField body) := by
  unfold methodOrField
  infer_instance

instance {body : Kind} : Weighs setting false (weight + 1) (genericMember body) := by
  unfold genericMember
  infer_instance

instance : Weighs setting false (weight + 1) classDecl := by
  unfold classDecl
  infer_instance

instance : Weighs setting false (weight + 1) interfaceDecl := by
  unfold interfaceDecl
  infer_instance

instance : Weighs setting false weight enumDecl := by
  unfold enumDecl
  infer_instance

instance : Weighs setting false (weight + 1) recordDecl := by
  unfold recordDecl recordHeader
  infer_instance

instance : Weighs setting false weight annotationTypeDecl := by
  unfold annotationTypeDecl
  infer_instance

instance : Weighs setting false (weight + 1) typeDeclRest := by
  unfold typeDeclRest
  refine .andThen fun cursor => ?_
  split
  · split <;> infer_instance
  · infer_instance

instance : Tells outerIf typeDeclRest := by
  unfold typeDeclRest
  refine .andThen fun cursor => ?_
  split
  · split <;> infer_instance
  · infer_instance

instance : Weighs setting false (weight + 1) typeDecl := by
  unfold typeDecl
  infer_instance

instance {body : Kind} : Weighs setting false (weight + 1) (memberDeclRest body) := by
  unfold memberDeclRest
  infer_instance

instance {body : Kind} : Tells Kind.isOuter (methodRest body) := by
  unfold methodRest
  infer_instance

instance : Tells Kind.isOuter constructorDecl := by
  unfold constructorDecl
  infer_instance

instance {body : Kind} : Tells Kind.isOuter (genericMember body) := by
  unfold genericMember
  infer_instance

instance {body : Kind} : Tells Kind.isOuter (methodOrField body) := by
  unfold methodOrField
  infer_instance

instance {body : Kind} : Tells outerIf (memberDeclRest body) := by
  unfold memberDeclRest
  infer_instance

instance {body : Kind} : Weighs setting false (weight + 1) (memberDecl body) := by
  unfold memberDecl
  infer_instance

instance {body : Kind} : Weighs setting false (weight + 1) (member body) := by
  unfold member
  infer_instance

instance : Weighs setting false (weight + 1) enumConstants := by
  unfold enumConstants enumConstant
  infer_instance

instance {body : Kind} [named : Evident body.isNamed] : Weighs setting false weight (bracedBody body) := by
  unfold bracedBody enumConstantsIn
  infer_instance

private theorem classBody_weighs {body : Kind} (named : body.isNamed = true) : Weighs setting false weight (classBody body) := by
  have named : Evident body.isNamed := ⟨named⟩
  unfold classBody
  infer_instance

end Declarations

section Chains

open LosslessJava.Parser.State (Abides)

variable {calls : Nat} {steps : Nat} {top : Allowance} {s t u : State} {opened : List OpenIf}

/-- The nodes of a chain of `if` that are open, and what was recorded since each of them was started. -/
inductive Chain (top : Allowance) (s : State) : List OpenIf → State → Prop where
  | nil {t : State} (abides : Abides top s t) : Chain top s [] t
  | link {rest : List OpenIf} {u t : State} (outer : Chain top s rest u) (abides : Abides top u.start t) : Chain top s (⟨u.mark, none⟩ :: rest) t
  | branch {rest : List OpenIf} {u v t : State} (outer : Chain top s rest u) (front : Abides top u.start v) (abides : Abides top v.start t) :
      Chain top s (⟨u.mark, some v.mark⟩ :: rest) t

private theorem Chain.trans (chain : Chain top s opened t) (abides : Abides top t u) : Chain top s opened u := by
  cases chain with
  | nil before => exact .nil (before.trans abides)
  | link outer before => exact .link outer (before.trans abides)
  | branch outer front before => exact .branch outer front (before.trans abides)

private theorem Chain.depth (chain : Chain top s opened t) : t.depth = s.depth := by
  induction chain with
  | nil abides => exact abides.depth
  | link _ abides ih => exact abides.depth.trans ih
  | branch _ front abides ih => exact abides.depth.trans (front.depth.trans ih)

private theorem complete_abides_of_runs {kind : Kind} (outer : kind.isOuter = true) (abides : Abides top s.start t)
    (run : Program.Runs setting.env setting.rules calls (discard (s.mark.complete kind)) t (.ok ((), u)) steps) :
    Abides top s u := by
  obtain ⟨_, _, _, _, closed, still⟩ := bind_of_runs run rfl
  cases pure_of_runs still
  exact complete_outer outer State.start_opens abides closed

private theorem Chain.closeIfs_abides (chain : Chain top s opened t)
    (run : Program.Runs setting.env setting.rules calls (closeIfs opened) t (.ok ((), u)) steps) : Abides top s u := by
  induction opened generalizing t steps with
  | nil =>
    cases chain with
    | nil abides =>
      cases pure_of_runs run
      exact abides
  | cons link rest ih =>
    obtain ⟨_, _, _, _, branch, run'⟩ := bind_of_runs run rfl
    obtain ⟨_, _, _, _, closed, last⟩ := bind_of_runs run' rfl
    cases chain with
    | link outer abides =>
      cases pure_of_runs branch
      exact ih (outer.trans (complete_abides_of_runs rfl abides closed)) last
    | branch outer front abides =>
      have whole := front.trans (complete_abides_of_runs rfl abides branch)
      exact ih (outer.trans (complete_abides_of_runs rfl whole closed)) last

variable [weighed : Weighed setting]

private theorem Chain.ifLink {answer : List OpenIf × Bool} (chain : Chain top s opened t) (same : calls = setting.calls)
    (afford : setting.Affords false weight s.depth top)
    (run : Program.Runs setting.env setting.rules calls (ifLink opened) t (.ok (answer, u)) steps) :
    Chain top s answer.1 u := by
  have abides {β : Type} {rule : Rule β} {b : β} {v w : State} {k : Nat} (weighs : Weighs setting false weight rule)
      (ran : Program.Runs setting.env setting.rules calls rule v (.ok (b, w)) k) (deep : v.depth = s.depth) : Abides top v w :=
    weighs.abides same ran rfl (by rwa [deep])
  obtain ⟨_, _, _, _, started, run⟩ := bind_of_runs run rfl
  obtain ⟨rfl, rfl⟩ := start_of_runs started
  obtain ⟨_, _, _, _, keyword, run⟩ := bind_of_runs run rfl
  obtain ⟨_, _, _, _, tested, run⟩ := bind_of_runs run rfl
  obtain ⟨_, _, _, _, done, run⟩ := bind_of_runs run rfl
  obtain ⟨otherwise, v, _, _, looked, run⟩ := bind_of_runs run rfl
  have front : Abides top t.start v := by
    have first := abides inferInstance keyword chain.depth
    have second := first.trans (abides inferInstance tested (first.depth.trans chain.depth))
    have third := second.trans (abides inferInstance done (second.depth.trans chain.depth))
    exact third.trans (abides inferInstance looked (third.depth.trans chain.depth))
  have deep : v.depth = s.depth := front.depth.trans chain.depth
  split at run
  · obtain ⟨_, _, _, _, started, run⟩ := bind_of_runs run rfl
    obtain ⟨rfl, rfl⟩ := start_of_runs started
    obtain ⟨_, _, _, _, keyword, run⟩ := bind_of_runs run rfl
    obtain ⟨again, w, _, _, looked, run⟩ := bind_of_runs run rfl
    have branch : Abides top v.start w := by
      have first := abides inferInstance keyword deep
      exact first.trans (abides inferInstance looked (first.depth.trans deep))
    split at run
    · cases pure_of_runs run
      exact .branch chain front branch
    · obtain ⟨_, _, _, _, done, run⟩ := bind_of_runs run rfl
      obtain ⟨_, _, _, _, closed, run⟩ := bind_of_runs run rfl
      cases pure_of_runs run
      have last := branch.trans (abides inferInstance done (branch.depth.trans deep))
      exact .link chain (front.trans (complete_abides_of_runs rfl last closed))
  · cases pure_of_runs run
    exact .link chain front

instance : Weighs setting false weight ifStmt := .of_steps fun {_ s _ _ _ top} same run afford => by
  obtain ⟨answer, t, _, _, ran, closed⟩ := bind_of_runs run rfl
  suffices chain : Chain top s answer.1 t from chain.closeIfs_abides closed
  refine ran.loop_induction (motive := fun links u r _ => r = .ok (answer, t) → Chain top s links.1 u → Chain top s answer.1 t)
    (fun {links u v n} round given chain => ?leaves) (fun _ given => nomatch given)
    (fun {links next u v r m n} round _ _ later given chain => ?goes) rfl (.nil .refl)
  case leaves =>
    cases given
    obtain ⟨opened, more⟩ := answer
    cases more with
    | true =>
      obtain ⟨_, _, _, _, _, last⟩ := bind_of_runs round rfl
      cases pure_of_runs last
    | false =>
      cases pure_of_runs round
      exact chain
  case goes =>
    obtain ⟨links, more⟩ := links
    cases more with
    | true =>
      obtain ⟨_, _, _, _, linked, last⟩ := bind_of_runs round rfl
      cases pure_of_runs last
      exact later given (chain.ifLink same afford linked)
    | false => cases pure_of_runs round

end Chains

section Statements

variable [weighed : Weighed setting]

instance : Weighs setting false weight block := by
  unfold block
  infer_instance

instance {rule : Rule Unit} [Weighs setting false (weight + 1) rule] : Weighs setting false (weight + 1) (localVarDecl rule) := by
  unfold localVarDecl
  infer_instance

instance : Weighs setting free weight statementEnd := by
  unfold statementEnd
  infer_instance

instance {kind keyword : Kind} {rule : Rule Unit} [outer : Evident kind.isOuter] [Weighs setting free weight rule] :
    Weighs setting free weight (keywordStmt kind keyword rule) := by
  unfold keywordStmt
  infer_instance

instance : Weighs setting false weight exprList := by
  unfold exprList
  infer_instance

instance : Weighs setting false (weight + 1) (bracketed loopHeader) := by
  unfold loopHeader forHeader forInit foreachHeader
  infer_instance

instance : Tells Kind.isOuter (bracketed loopHeader) := by
  unfold bracketed loopHeader
  infer_instance

instance : Weighs setting false (weight + 1) forStmt := by
  have head : Tells Kind.isOuter (do
      consume .forKw
      require .leftParen
      let kind ← bracketed loopHeader
      require .rightParen
      call .statement
      return kind : Rule Kind) :=
    .andThen fun _ => .andThen fun _ => .told inferInstance fun _ outer => .andThen fun _ => .andThen fun _ => .of_pure outer
  unfold forStmt
  infer_instance

instance : Weighs setting false (weight + 1) resourceSpec := by
  unfold resourceSpec resource resourceVariable
  infer_instance

instance : Weighs setting false (weight + 1) catchClause := by
  unfold catchClause unionType
  infer_instance

instance : Weighs setting false (weight + 1) tryStmt := by
  unfold tryStmt optionalResources catchClauses
  infer_instance

instance : Weighs setting false (weight + 1) plainStatement := by
  unfold plainStatement
  infer_instance

instance : Weighs setting false (weight + 1) nameStatement := by
  unfold nameStatement
  infer_instance

instance {kind : Kind} [outer : Evident kind.isOuter] : Weighs setting free weight (jumpStmt kind) := by
  unfold jumpStmt
  infer_instance

instance : Weighs setting false (weight + 1) statementHere := by
  unfold statementHere assertMessage
  refine .andThen fun kind => ?_
  split <;> infer_instance

instance : Weighs setting false weight statement := by
  unfold statement
  infer_instance

end Statements

section Files

instance : Weighs setting free weight requiresModifiers := by
  unfold requiresModifiers
  infer_instance

instance : Weighs setting free weight targets := by
  unfold targets
  infer_instance

instance : Weighs setting free weight implementations := by
  unfold implementations
  infer_instance

instance : Weighs setting free weight directiveHead := by
  unfold directiveHead
  infer_instance

instance : Tells outerIf directiveHead := by
  unfold directiveHead
  infer_instance

instance : Weighs setting free weight directive := by
  have rest : Weighs setting free weight directiveRest := by
    unfold directiveRest
    refine .andThen fun kind => ?_
    split <;> infer_instance
  have kind : Tells outerIf directiveRest := by
    unfold directiveRest
    refine .told (show Tells outerIf directiveHead from inferInstance) fun kind outer => ?_
    split
    · exact .andThen fun _ => .of_pure outer
    · infer_instance
  unfold directive
  infer_instance

instance : Weighs setting free weight moduleDecl := by
  unfold moduleDecl optionalOpen moduleBody
  infer_instance

variable [weighed : Weighed setting]

instance {modified : Bool} : Weighs setting false (weight + 1) (topLevelRest modified) := by
  unfold topLevelRest importRest
  infer_instance

instance {modified : Bool} : Tells outerIf (topLevelRest modified) := by
  unfold topLevelRest
  infer_instance

instance : Weighs setting false (weight + 1) compilationUnit := by
  unfold compilationUnit topLevelItem
  infer_instance

instance : Weighs setting false weight expressionRoot := by
  unfold expressionRoot restOfInput
  infer_instance

end Files

private theorem rule_weighs [Weighed setting] {name : Nonterminal α} (proper : name.isProper = true) :
    Weighs setting false name.weight (rule α name) := by
  cases name with
  | clauses forms => exact clauses_weighs proper
  | classBody kind => exact classBody_weighs proper
  | elementValue => exact .strictly elementValue_weighs
  | _ =>
    unfold rule Nonterminal.weight
    infer_instance

private theorem weighed (env : Env) (calls : Nat) : Weighed ⟨env, rule, calls⟩ := by
  induction calls with
  | zero =>
    have never {free : Bool} {weight : Nat} {α : Type} {name : Nonterminal α} :
        Weighs ⟨env, rule, 0⟩ free weight (call name) := by
      constructor
      intro _ s a t r steps same run
      cases run with
      | call => cases same
    exact ⟨fun _ => never, never⟩
  | succ calls ih =>
    have called {free : Bool} {weight : Nat} {α : Type} {name : Nonterminal α}
        (weighs : Weighs ⟨env, rule, calls⟩ free weight (rule α name)) :
        Weighs ⟨env, rule, calls + 1⟩ free weight (call name) := by
      constructor
      intro _ s a t r steps same run given top afford
      cases run with
      | call body => exact weighs.abides (Nat.succ.inj same) body given afford
    exact ⟨fun proper => called (rule_weighs proper), called elementValue_weighs⟩

end LosslessJava.Grammar

namespace LosslessJava

open LosslessJava.Parser LosslessJava.Tree

variable {entry : EntryPoint} {text : String} {options : ParseOptions} {parse : Parse}

def ParseOptions.allowance (options : ParseOptions) : Allowance := ⟨false, 2 * options.maxDepth + 2⟩

private theorem EntryPoint.weighs (entry : EntryPoint) (setting : Setting Grammar.Nonterminal) [Grammar.Weighed setting] :
    Weighs setting false 2 entry.rule := by
  cases entry with
  | file => exact inferInstanceAs (Weighs setting false (1 + 1) Grammar.compilationUnit)
  | expression => exact inferInstanceAs (Weighs setting false 2 Grammar.expressionRoot)

theorem EntryPoint.abides {entry : EntryPoint} {env : Env} {calls : Nat} {t : State} {steps : Nat}
    (run : Program.Runs env Grammar.rule calls entry.rule {} (.ok ((), t)) steps) :
    State.Abides env.options.allowance {} t := by
  have : Grammar.Weighed ⟨env, Grammar.rule, calls⟩ := Grammar.weighed env calls
  refine (entry.weighs ⟨env, Grammar.rule, calls⟩).abides rfl run rfl ?_
  simp only [Setting.Affords, ParseOptions.allowance]
  omega

/-- In all that was recorded, starts point to nodes that may be put around others. -/
theorem Parser.State.Abides.aims {given : Allowance} {t : State} (abides : State.Abides given {} t) : Event.Aimed t.events.toList := by
  refine Event.aimed_of_targets fun index targets => ?_
  rcases abides.aimed index targets with ⟨_, _, _, found, _⟩ | ⟨-, outer⟩
  · simp at found
  · exact outer

private theorem Event.OneTree.allowed {t : State} {count : Nat} {given : Allowance} (one : OneTree t.events.toList count)
    (abides : State.Abides given {} t) : ∃ kind children, Emits t.events.toList (Shape.node kind children).steps ∧
      (Shape.node kind children).Proper ∧ (Shape.node kind children).Fits given := by
  obtain ⟨more, recorded, fits⟩ := abides.events
  have fits : Fits given t.events.toList := by
    intro outer
    rw [← spendAll_bares, recorded]
    exact fits outer
  obtain ⟨kind, children, emits, proper, -⟩ := one.emits
  exact ⟨kind, children, emits, proper, one.emits_fitting abides.aims fits emits proper⟩

/-- No way down the tree of a lenient parse comes through more brackets than the options allow. -/
theorem Parse.enclosures_bounded (lenient : options.mode = .lenient) (parsed : entry.parse text options = .ok parse)
    {path : List Node} (way : parse.tree.root.Path path) :
    enclosures false (path.map Node.kind) ≤ 2 * options.maxDepth + 2 := by
  rw [EntryPoint.parse_eq] at parsed
  obtain ⟨t, ran, built⟩ := Parse.run_ok parsed
  obtain ⟨steps, tree, found, made, rfl⟩ := Parse.ofState_ok built
  cases entry.settles text options with
  | gives ran' recorded =>
    cases ran.symm.trans ran'.exec_eq
    rcases recorded with ⟨one, -⟩ | ⟨-, ⟨-, strict, -⟩, -⟩
    · obtain ⟨kind, children, emits, proper, fits⟩ := one.allowed (EntryPoint.abides ran')
      obtain ⟨tree', made', built'⟩ := @Tree.toTree_ok (.lex text) _ _ proper
      cases Option.some.inj (found.symm.trans (Event.buildSteps_of_emits emits))
      cases made.symm.trans made'
      have shows : (Element.node tree.root).Shows (.node kind children) :=
        ⟨0, 0, [], built'.shows, by rw [Tree.root, built'.rootId, Nat.zero_add]⟩
      exact way.enclosures_le shows fits
    · cases lenient.symm.trans strict
  | halts ran' => cases ran.symm.trans ran'.exec_eq
  | sticks cause => cases ran.symm.trans (Grammar.exec_eq_none_of_sticks cause)

/-- The body of a class, arguments and parentheses. -/
theorem Parse.enclosures_bounded_parens :
    ∃ parse path, EntryPoint.file.parse "class A{int b=c((d));}" { maxDepth := 4 } = .ok parse ∧
      parse.tree.root.Path path ∧ enclosures false (path.map Node.kind) = 3 ∧
      enclosures false (path.map Node.kind) ≤ 2 * 4 + 2 := by
  have found : Parse.givesWithin 300 (fun parse =>
      enclosures false ((parse.tree.root.follow [0, 0, 0, 1, 0, 0, 0]).map Node.kind) == 3) Grammar.compilationUnit
      (.lex "class A{int b=c((d));}") { maxDepth := 4 } = true := by decide +kernel
  obtain ⟨parse, ran, three⟩ := Parse.run_of_givesWithin found
  have parsed : EntryPoint.file.parse "class A{int b=c((d));}" { maxDepth := 4 } = .ok parse := ran
  have way := parse.tree.root.path_follow [0, 0, 0, 1, 0, 0, 0]
  exact ⟨parse, _, parsed, way, by simpa using three, Parse.enclosures_bounded rfl parsed way⟩

/-- Annotations within one another are read without going deeper, so more brackets nest than levels are allowed
and nothing is reported. -/
theorem Parse.annotations_uncounted :
    ∃ parse path, EntryPoint.file.parse "@A(@A(@A(@A(@A(@A)))))class B{}" { maxDepth := 1 } = .ok parse ∧
      (∀ diagnostic ∈ parse.diagnostics, diagnostic.kind ≠ .nestingTooDeep) ∧
      parse.tree.root.Path path ∧ 2 * 1 + 2 < (path.map Node.kind).countP Kind.isEnclosing := by
  have found : Parse.givesWithin 300 (fun parse => parse.diagnostics.isEmpty &&
      (((parse.tree.root.follow [0, 0, 0, 1, 0, 1, 0, 1, 0, 1, 0, 1]).map Node.kind).countP Kind.isEnclosing == 5))
      Grammar.compilationUnit (.lex "@A(@A(@A(@A(@A(@A)))))class B{}") { maxDepth := 1 } = true := by decide +kernel
  obtain ⟨parse, ran, checked⟩ := Parse.run_of_givesWithin found
  rw [Bool.and_eq_true, List.isEmpty_iff, beq_iff_eq] at checked
  have way := parse.tree.root.path_follow [0, 0, 0, 1, 0, 1, 0, 1, 0, 1, 0, 1]
  refine ⟨parse, _, ran, ?_, way, ?_⟩
  · rw [checked.1]
    intro diagnostic member
    cases member
  · rw [checked.2]
    decide

end LosslessJava
