import LosslessJava.Proofs.Clean.Declarations

/-! What statements record where nothing is reported. Every statement is one node. -/

namespace LosslessJava.Parser

open LosslessJava.Shape

variable {env : Env} {s t : State} {row : List Shape}

private theorem State.Adds.start (adds : s.Adds env row t) : s.Adds env row t.start where
  toReady := adds.toReady.start
  events := by
    obtain ⟨more, recorded, emits⟩ := adds.events
    refine ⟨more ++ [.tombstone], by simp [State.start, recorded], ?_⟩
    simpa [Event.tombstone] using emits.append (.given .nil)
  sound := adds.sound
  later := adds.later
  moved := adds.moved
  brackets := adds.brackets

end LosslessJava.Parser

namespace LosslessJava.Grammar

open LosslessJava.Parser LosslessJava.Shape

set_option synthInstance.maxSize 2000

variable {bounds : Bounds} {base s t u v : State} {α : Type} {row front : List Shape} {kind : Kind}

private theorem draws_startThen {next : Mark → Rule α} {post : α → List Shape → State → Prop}
    (before : base.Adds bounds.env front s)
    (goes : base.Adds bounds.env front s.start → DrawsSince bounds base (next s.mark) s.start post) :
    DrawsSince bounds base (Parser.start >>= next) s post := fun a u gives ready clean => by
  obtain ⟨mark, t, started, rest⟩ := gives.bind
  cases started.act
  exact goes before.start a u rest ready.start clean

private theorem Draws.beside {rule : Rule α} {post : α → List Shape → State → Prop} (draws : Draws bounds rule s post)
    (before : base.Adds bounds.env front s) (inner : u.Adds bounds.env row s) :
    DrawsSince bounds base rule s fun a _ t => ∃ back, u.Adds bounds.env (row ++ back) t ∧ post a back t :=
  .behind before draws fun _ back _ adds holds => ⟨back, inner.trans adds, holds⟩

private theorem Bounds.Gives.complete_adds {a : Unit} (gives : bounds.Gives (discard (s.mark.complete kind)) t a u)
    (adds : s.start.Adds bounds.env row t) (holds : kind.Holds (outline row)) :
    s.Adds bounds.env [.node kind row] u := by
  obtain ⟨first, v, closed, ended⟩ := gives.bind
  obtain ⟨rfl, rfl⟩ := ended.pure
  obtain ⟨w, done, same⟩ := map_eq_ok.mp closed.act
  cases same
  exact (State.complete_adds adds holds done).1

private theorem draws_complete (before : base.Adds bounds.env front s) (adds : s.start.Adds bounds.env row t)
    (holds : kind.Holds (outline row)) : DrawsSince bounds base (discard (s.mark.complete kind)) t fun _ _ u =>
      s.Adds bounds.env [.node kind row] u := fun _ _ gives _ _ =>
  have closed := gives.complete_adds adds holds
  ⟨_, before.trans closed, closed⟩

private theorem draws_stmt {rule : Rule Unit} [Tame bounds rule] [Sorted Kind.isStatement kind] :
    Draws bounds (discard (Parser.node kind rule)) s fun _ row _ => One Kind.isStatement row :=
  .discard ((draws_node_sorted Kind.isStatement).weaken fun _ _ _ _ ⟨roots, sorted⟩ => ⟨_, roots.outline, sorted⟩)

private theorem keywordStmt_draws {keyword : Kind} {rest : Rule Unit} [Evident (known keyword)] [Evident keyword.isPlain]
    [Tame bounds rest] [Sorted Kind.isStatement kind] :
    Draws bounds (keywordStmt kind keyword rest) s fun _ row _ => One Kind.isStatement row := by
  unfold keywordStmt
  exact draws_stmt

instance {keyword : Kind} {rest : Rule Unit} [Evident (known keyword)] [Evident keyword.isPlain]
    [Tame bounds rest] [Plain kind] : Tame bounds (keywordStmt kind keyword rest) := by
  unfold keywordStmt
  infer_instance

def IfRow (row : List Kind) : Prop :=
  ∃ branch rest, row = .ifKw :: .condition :: branch :: rest ∧ branch.isStatement = true ∧ Kind.Orderly rest

theorem IfRow.holds {row : List Kind} (elements : IfRow row) : Kind.ifStmt.Holds row := by
  obtain ⟨branch, rest, rfl, statement, nested⟩ := elements
  exact .of_orderly (by decide) (by decide) rfl ⟨branch, rest, rfl, statement⟩ (.cons rfl (.cons rfl
    (.cons (Kind.isLoose_of_isElement (Kind.isElement_of_isStatement statement)) nested)))

theorem IfRow.append {row more : List Kind} (elements : IfRow row) (nested : Kind.Orderly more) :
    IfRow (row ++ more) := by
  obtain ⟨branch, rest, rfl, statement, nested'⟩ := elements
  exact ⟨branch, rest ++ more, by simp, statement, nested'.append nested⟩

/-- The nodes of `opened` were opened since `s`, each of them in the `else` branch of the one before
it, and in state `t` the next `if` stands in the last such branch. -/
inductive Within (env : Env) (s : State) : List OpenIf → State → Prop
  | none : Within env s [] s
  | link {opened : List OpenIf} {t u v : State} {own inner : List Shape} (outer : Within env s opened t)
      (links : t.start.Adds env own u) (elements : IfRow (outline own)) (branch : u.start.Adds env inner v)
      (keyword : outline inner = [.elseKw]) : Within env s (⟨t.mark, some u.mark⟩ :: opened) v

private theorem closeIfs_adds {opened : List OpenIf} (within : Within bounds.env s opened t) :
    ∀ {u row a v}, t.Adds bounds.env row u → outline row = [.ifStmt] → bounds.Gives (closeIfs opened) u a v →
      ∃ row, s.Adds bounds.env row v ∧ One Kind.isStatement row := by
  induction within with
  | none =>
    intro u row a v adds same gives
    obtain ⟨rfl, rfl⟩ := gives.pure
    exact ⟨row, adds, _, same, rfl⟩
  | @link opened t u v own inner outer links elements branch keyword ih =>
    intro w row a x adds same gives
    have nested : Kind.elseBranch.Holds (outline (inner ++ row)) := Kind.holds_of_isPlain rfl (by
      rw [outline_append, keyword, same]
      exact .append (.plain rfl) (.plain rfl))
    have whole : Kind.ifStmt.Holds (outline (own ++ [.node .elseBranch (inner ++ row)])) := by
      rw [outline_append]
      exact (elements.append (.plain rfl)).holds
    obtain ⟨_, y, first, gives⟩ := gives.bind
    have closed := first.complete_adds (branch.trans adds) nested
    obtain ⟨_, z, second, gives⟩ := gives.bind
    exact ih (second.complete_adds (links.trans closed) whole) rfl gives

instance : Tame bounds statementEnd := by
  unfold statementEnd
  infer_instance

private theorem jumpStmt_draws {kind : Kind} [Sorted Kind.isStatement kind] (here : (s.current bounds.env).isPlain = true)
    (more : s.current bounds.env ≠ .eof) :
    Draws bounds (jumpStmt kind) s fun _ row _ => One Kind.isStatement row := by
  unfold jumpStmt
  exact .discard ((draws_node_here Kind.isStatement (draws_consumeAnyThen here more)).weaken
    fun _ _ _ _ ⟨roots, sorted⟩ => ⟨_, roots.outline, sorted⟩)

variable [calls : Calls bounds]

theorem block_draws : Draws bounds block s fun _ row _ => outline row = [.block] := by
  unfold block
  refine .look fun t _ => ?_
  split
  · have body : Tame bounds (do
        consume .leftBrace; listUntil .rightBrace (call .statement); require .rightBrace) := inferInstance
    have node := @draws_node bounds t.enter .block _ ((body.draws _).weaken fun _ _ _ _ ⟨nested, _⟩ =>
      Kind.holds_of_isPlain rfl nested)
    exact draws_nested (.discard (node.weaken fun _ _ _ _ ⟨roots, named⟩ => named ▸ roots.outline))
  · exact .fails

instance {ending : Rule Unit} [Tame bounds ending] : Tame bounds (localVarDecl ending) := by
  unfold localVarDecl
  infer_instance

section Ifs

def Link (env : Env) (s : State) (opened : List OpenIf) (answer : List OpenIf × Bool) (t : State) : Prop :=
  answer = (⟨s.mark, none⟩ :: opened, false) ∧ (∃ own, s.start.Adds env own t ∧ IfRow (outline own)) ∨
    ∃ u own inner, answer = (⟨s.mark, some u.mark⟩ :: opened, true) ∧ s.start.Adds env own u ∧
      IfRow (outline own) ∧ u.start.Adds env inner t ∧ outline inner = [.elseKw]

private theorem ifLink_draws {opened : List OpenIf} (before : base.Adds bounds.env front s) :
    DrawsSince bounds base (ifLink opened) s fun answer _ t => Link bounds.env s opened answer t := by
  unfold ifLink
  refine draws_startThen before fun before => ?_
  have fresh : s.start.Adds bounds.env [] s.start := .refl before.toReady
  refine .bind ((draws_consume (by decide)).beside before fresh) fun _ _ t before ⟨one, own, keyword, _⟩ => ?_
  refine .bind (condition_draws.beside before own) fun _ _ u before ⟨two, own, tested⟩ => ?_
  refine .bind ((calls.draws .statement trivial u).beside before own) fun _ _ v before ⟨three, own, branch, same, statement⟩ => ?_
  have elements : IfRow (outline (([] ++ one ++ two) ++ three)) :=
    ⟨branch, [], by simp [keyword, tested, same], statement, .nil⟩
  refine .look before fun w still before => ?_
  have own := own.still still
  split
  · have outer := before
    refine draws_startThen before fun before => ?_
    have fresh : w.start.Adds bounds.env [] w.start := .refl before.toReady
    refine .bind ((draws_consume (by decide)).beside before fresh) fun _ _ x before ⟨four, inner, keyword, _⟩ => ?_
    refine .look before fun y still before => ?_
    have inner := inner.still still
    split
    · exact .pure before (.inr ⟨w, _, _, rfl, own, elements, inner, by simp [keyword]⟩)
    · refine .bind ((calls.draws .statement trivial y).beside before inner) fun _ _ z before ⟨five, inner, last, same, statement⟩ => ?_
      have nested : Kind.elseBranch.Holds (outline (([] ++ four) ++ five)) := Kind.holds_of_isPlain rfl (by
        simpa [keyword, same] using Kind.Orderly.cons rfl
          (.plain (Kind.isLoose_of_isElement (Kind.isElement_of_isStatement statement))))
      refine .bind (draws_complete outer inner nested) fun _ _ _ before closed => .pure before (.inl ⟨rfl, _,
        own.trans closed, ?_⟩)
      rw [outline_append]
      exact elements.append (.plain rfl)
  · exact .pure before (.inl ⟨rfl, _, own, elements⟩)

def Complete (env : Env) (s : State) (opened : List OpenIf) (t : State) : Prop :=
  ∃ u outer own, opened = ⟨u.mark, none⟩ :: outer ∧ Within env s outer u ∧ u.start.Adds env own t ∧
    IfRow (outline own)

private theorem ifStmt_draws : Draws bounds ifStmt s fun _ row _ => One Kind.isStatement row := by
  unfold ifStmt
  intro a v gives ready clean
  let invariant (chain : List OpenIf × Bool) (_ : List Shape) (t : State) : Prop :=
    if chain.2 then Within bounds.env s chain.1 t else Complete bounds.env s chain.1 t
  have links : DrawsSince bounds s (loopFrom ([], true) fun chain => do
      if chain.2 then return some (← ifLink chain.1) else return none) s fun chain _ t =>
        Complete bounds.env s chain.1 t := by
    refine .loopFrom invariant (.refl ready) .none fun linked row t before chain => ?_
    obtain ⟨opened, more⟩ := linked
    cases more with
    | false => exact .pure before chain
    | true =>
      refine .bind (ifLink_draws before) fun answer _ u before link => .pure before ?_
      rcases link with ⟨rfl, own, adds, elements⟩ | ⟨w, own, inner, rfl, links, elements, branch, keyword⟩
      · exact ⟨t, opened, own, rfl, chain, adds, elements⟩
      · exact .link chain links elements branch keyword
  obtain ⟨⟨opened, _⟩, t, looped, gives⟩ := gives.bind
  have early := looped.le_errorCount
  have late := gives.le_errorCount
  obtain ⟨-, -, u, outer, own, rfl, within, adds, elements⟩ := links _ t looped ready (by omega)
  replace gives : bounds.Gives (closeIfs (⟨u.mark, none⟩ :: outer)) t a v := gives
  obtain ⟨_, w, skipped, rest⟩ := gives.bind
  obtain ⟨rfl, rfl⟩ := skipped.pure
  obtain ⟨_, x, closed, rest⟩ := rest.bind
  exact closeIfs_adds within (closed.complete_adds adds elements.holds) rfl rest

end Ifs

section Loops

instance : Tame bounds exprList := by
  unfold exprList
  infer_instance

instance : Tame bounds foreachHeader := by
  unfold foreachHeader
  infer_instance

instance : Tame bounds forInit := by
  unfold forInit
  infer_instance

instance {kind : Kind} {rule : Rule Unit} [Tame bounds rule] : Tame bounds (unlessSees kind rule) := by
  unfold unlessSees
  infer_instance

instance : Tame bounds forHeader := by
  unfold forHeader
  infer_instance

instance : TameWith bounds (Sorted Kind.isStatement) loopHeader := by
  unfold loopHeader
  infer_instance

private theorem forStmt_draws : Draws bounds forStmt s fun _ row _ => One Kind.isStatement row := by
  unfold forStmt
  refine .discard ((draws_nodeOf_sorted Kind.isStatement (.andThen fun _ => ⟨fun t => ?_⟩)).weaken
    fun _ _ _ _ ⟨roots, sorted⟩ => ⟨_, roots.outline, sorted⟩)
  have header : TameWith bounds (Sorted Kind.isStatement) (bracketed loopHeader) := inferInstance
  have body : Tame bounds (call .statement) := inferInstance
  refine .bind (Takes.draws t) fun _ one u _ ⟨opened, _⟩ => .bind (header.draws u) fun kind two v _ ⟨inner, sorted⟩ =>
    .bind (Takes.draws v) fun _ three w _ ⟨closed, _⟩ => .bind (body.draws w) fun _ four x _ ⟨nested, _⟩ =>
      .pure ⟨?_, sorted⟩
  subst opened closed
  have front := (orderly_between (rfl : closes .leftParen .rightParen = true) inner).append nested
  simpa using front

end Loops

section Tries

instance : Tame bounds resourceVariable := by
  unfold resourceVariable
  infer_instance

instance : Tame bounds resource := by
  unfold resource
  infer_instance

instance : Tame bounds resourceSpec := by
  unfold resourceSpec
  infer_instance

instance : Tame bounds catchClause := by
  unfold catchClause
  infer_instance

instance : Tame bounds catchClauses := by
  unfold catchClauses
  infer_instance

instance : Tame bounds optionalResources := by
  unfold optionalResources
  infer_instance

private theorem tryStmt_draws : Draws bounds tryStmt s fun _ row _ => One Kind.isStatement row := by
  unfold tryStmt
  exact keywordStmt_draws

end Tries

private theorem localVarDecl_draws {ending : Rule Unit} [Tame bounds ending] :
    Draws bounds (localVarDecl ending) s fun _ row _ => One Kind.isStatement row := by
  unfold localVarDecl
  exact draws_stmt

private theorem plainStatement_draws : Draws bounds plainStatement s fun _ row _ => One Kind.isStatement row := by
  unfold plainStatement
  refine .peek fun kind t _ => .peek fun found u _ => ?_
  split
  · exact draws_stmt
  · refine .peek fun found v _ => ?_
    split
    · exact localVarDecl_draws
    · exact exprStmt_draws

private theorem nameStatement_draws : Draws bounds nameStatement s fun _ row _ => One Kind.isStatement row := by
  unfold nameStatement
  refine .peek fun cursor t _ => ?_
  split
  · exact draws_stmt
  · split
    · exact draws_stmt
    · split
      · exact draws_stmt
      · exact plainStatement_draws

instance : Tame bounds assertMessage := by
  unfold assertMessage
  infer_instance

private theorem statementHere_draws : Draws bounds statementHere s fun _ row _ => One Kind.isStatement row := by
  unfold statementHere
  refine .look fun t still => ?_
  have same := @State.Still.current_eq bounds.env _ _ still
  split
  · exact (calls.draws .block trivial t).weaken fun _ _ _ _ same => ⟨_, same, rfl⟩
  · exact draws_stmt
  · exact ifStmt_draws
  · exact keywordStmt_draws
  · exact keywordStmt_draws
  · exact forStmt_draws
  · exact tryStmt_draws
  · exact keywordStmt_draws
  · exact keywordStmt_draws
  · exact keywordStmt_draws
  · next here => exact jumpStmt_draws (by rw [same.trans here]) (by rw [same.trans here]; decide)
  · next here => exact jumpStmt_draws (by rw [same.trans here]) (by rw [same.trans here]; decide)
  · exact keywordStmt_draws
  · refine .look fun u _ => ?_
    split
    · exact keywordStmt_draws
    · exact plainStatement_draws
  · exact nameStatement_draws
  · exact plainStatement_draws

theorem statement_draws : Draws bounds statement s fun _ row _ => One Kind.isStatement row := by
  unfold statement
  exact draws_nested statementHere_draws

end LosslessJava.Grammar
