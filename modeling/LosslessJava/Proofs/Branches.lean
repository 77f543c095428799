import LosslessJava.Proofs.Accessors
import LosslessJava.Proofs.Bodies

/-! Chains of `if` and `else if`. The links of a chain are read one by one and completed from the last to the first;
what comes of this is what reading an `if` inside the `else` of another one would give, at any length and without
nesting any deeper. -/

namespace LosslessJava

open LosslessJava.Parser

/-- One `if` of a chain: the name that its condition is, and the method that it calls. -/
structure Branch where
  condition : String
  call : String

namespace Branch

/-- The words of a statement that calls a method. -/
def callWords (name : String) : List (Kind × String) :=
  [(.identifier, name), (.leftParen, "("), (.rightParen, ")"), (.semicolon, ";")]

def callSketch (name : String) : Sketch :=
  .node .exprStmt [.node .methodCall [.token .identifier name, .node .argList [.token .leftParen "(", .token .rightParen ")"]],
    .token .semicolon ";"]

/-- The words of a link of a chain, without its `else`. -/
def words (branch : Branch) : List (Kind × String) :=
  (.ifKw, "if") :: (.leftParen, "(") :: (.identifier, branch.condition) :: (.rightParen, ")") :: callWords branch.call

def conditionSketch (branch : Branch) : Sketch :=
  .node .condition [.token .leftParen "(", .node .nameExpr [.token .identifier branch.condition], .token .rightParen ")"]

/-- The words of a chain that ends with a call. -/
def chainWords : List Branch → String → List (Kind × String)
  | [], last => callWords last
  | branch :: rest, last => branch.words ++ (.elseKw, "else") :: chainWords rest last

/-- The statement that a chain is, read recursively. -/
def chainSketch : List Branch → String → Sketch
  | [], last => callSketch last
  | branch :: rest, last => .node .ifStmt [.token .ifKw "if", branch.conditionSketch, callSketch branch.call,
      .node .elseBranch [.token .elseKw "else", chainSketch rest last]]

end Branch

namespace Grammar

open Branch

variable {env : Env} {level : Level} {i j : Nat}

private theorem callStmt_follows {name : String} (callable : name ≠ "yield") (deep : level.depth + 1 < env.options.maxDepth)
    (ahead : 2 < env.options.lookaheadLimit) (reads : env.stream.Reads (callWords name) i j) :
    Follows env level i (call .statement) fun _ row k => row = [(callSketch name).shape] ∧ k = j := by
  obtain ⟨here, text, opener, -, closer, -, ended, -, rfl⟩ := reads
  have current : (⟨env.stream, i⟩ : TokenCursor).nth 0 = .identifier := by rw [TokenCursor.nth_eq, Nat.add_zero, here]
  have plain : BeginsPlain env i := by
    refine ⟨here, by rw [opener]; decide, ?_, by rw [opener]; simp⟩
    have other : isWordAt ⟨env.stream, i⟩ 0 .yieldKw = false := by
      rw [isWordAt, TokenCursor.nthText_eq, Nat.add_zero, text, Bool.and_eq_false_iff]
      exact .inr (beq_false_of_ne fun same => callable (Option.some.inj same))
    rw [isYieldStmt, other, Bool.false_and]
  have spans : env.stream.Spans (.named (.bare .stop) 0) i (i + 1) :=
    .named here (.bare (by rw [opener]; decide) (.stop fun dot => by rw [opener] at dot; cases dot))
      (.stop fun bracket => by rw [opener] at bracket; cases bracket)
  have decided : Lookahead.Clear ⟨⟨env.stream, i⟩, env.options.lookaheadLimit⟩
      (Lookahead.succeeds Lookahead.isLocalVarDecl) false := by
    refine Lookahead.clear_succeeds (Lookahead.accepts_bind.mpr ⟨0, ?_, Lookahead.accepts_bind.mpr ⟨1, ?_, ?_⟩⟩)
    · exact Lookahead.accepts_localModifiers (Nat.zero_lt_of_lt ahead) (by simp [here]) (by simp [here])
    · exact Lookahead.accepts_type spans rfl rfl ahead
    · exact Lookahead.accepts_lift.mpr (Lookahead.sees_no (Nat.lt_of_succ_lt ahead) (by simp [opener]))
  have expression : ReadsNode env level.deeper i anyExpression callNode (i + 3) :=
    call_reads deep here opener closer (by rw [ended]; rfl)
  refine statement_name (Nat.lt_of_succ_lt deep) plain decided ?_
  refine (exprStmt_follows expression ended).weaken fun _ row k given => ?_
  obtain ⟨rfl, rfl⟩ := given
  exact ⟨rfl, rfl⟩

private theorem condition_follows {branch : Branch} (deep : level.depth < env.options.maxDepth)
    (reads : env.stream.Stands [.leftParen, .identifier, .rightParen] i j) :
    Follows env level i condition fun _ row k => row = [branch.conditionSketch.shape] ∧ k = j := by
  obtain ⟨opener, name, closer, rfl⟩ := reads
  refine .node (by decide) ?_
  have opened : Follows env level i (require .leftParen) fun _ row k => row = [.token .leftParen 1] ∧ k = i + 1 :=
    .require opener (by decide) ⟨rfl, rfl⟩
  refine opened.bind fun _ row k given => ?_
  obtain ⟨rfl, rfl⟩ := given
  have expression : ReadsNode env level (i + 1) anyExpression nameNode (i + 2) :=
    name_reads deep name (by rw [closer]; exact ⟨by decide, by decide, by decide⟩) (by rw [closer]; decide)
      (by rw [closer]; rfl)
  have inside : Follows env level (i + 1) (Functor.discard (bracketed anyExpression)) fun _ row k =>
      row = [nameNode] ∧ k = i + 2 :=
    .discard <| .withNoLambda fun s here deep => (expression s here deep).weaken fun _ _ _ _ given => by
      obtain ⟨_, -, -, holds⟩ := given
      exact holds
  refine inside.bind fun _ row k given => ?_
  obtain ⟨rfl, rfl⟩ := given
  exact .require closer (by decide) ⟨rfl, rfl⟩

def linkRest (mark : Mark) (opened : List OpenIf) : Rule (List OpenIf × Bool) := do
  consume .ifKw
  condition
  call .statement
  if ← sees .elseKw then
    let branch ← start
    consume .elseKw
    if ← sees .ifKw then
      return (⟨mark, some branch⟩ :: opened, true)
    else
      call .statement
      discard <| branch.complete .elseBranch
      return (⟨mark, none⟩ :: opened, false)
  else
    return (⟨mark, none⟩ :: opened, false)

private theorem ifLink_eq (opened : List OpenIf) : ifLink opened = (do linkRest (← start) opened) := rfl

section Runs

variable {α β : Type} {s t : State}

private theorem exec_then {rule : Rule β} {b : β} (ran : rule.exec env Grammar.rule s = some (.ok (b, t))) (next : β → Rule α) :
    (rule >>= next).exec env Grammar.rule s = (next b).exec env Grammar.rule t := by
  rw [Program.exec_bind, ran, Program.andThen_ok]

private theorem exec_start : (start : Rule Mark).exec env Grammar.rule s = some (.ok (s.mark, s.start)) := Program.exec_act _ _

private theorem exec_complete {mark : Mark} {kind : Kind} (completed : s.complete mark kind = .ok t) :
    (Functor.discard (mark.complete kind) : Rule Unit).exec env Grammar.rule s = some (.ok ((), t)) := by
  have ran : (mark.complete kind : Rule Completed).exec env Grammar.rule s = some (.ok (⟨mark.position, kind⟩, t)) := by
    rw [Mark.complete, Program.exec_act]
    simp only [Action.run, completed]
    rfl
  refine (exec_then ran _).trans ?_
  exact Program.exec_return _ _

private theorem exec_bind_bind {γ : Type} (one : Rule α) (two : α → Rule β) (three : β → Rule γ) :
    ((one >>= two) >>= three).exec env Grammar.rule s = (one >>= fun a => two a >>= three).exec env Grammar.rule s := by
  simp only [Program.exec_bind]
  rcases one.exec env Grammar.rule s with _ | _ | ⟨a, t⟩ <;> rfl

private theorem exec_closeIfs_append (inner outer : List OpenIf) :
    (closeIfs (inner ++ outer)).exec env Grammar.rule s = (do closeIfs inner; closeIfs outer : Rule Unit).exec env Grammar.rule s := by
  induction inner generalizing s with
  | nil => exact (exec_then (Program.exec_return _ _) fun _ => closeIfs outer).symm
  | cons link rest ih =>
    simp only [List.cons_append, closeIfs]
    rw [exec_bind_bind, Program.exec_bind, Program.exec_bind]
    congr 1
    funext _ t
    rw [exec_bind_bind, Program.exec_bind, Program.exec_bind]
    congr 1
    funext _ u
    exact ih

private theorem exec_closeIfs_behind {inner outer : List OpenIf}
    (ran : (closeIfs inner).exec env Grammar.rule s = some (.ok ((), t))) :
    (closeIfs (inner ++ outer)).exec env Grammar.rule s = (closeIfs outer).exec env Grammar.rule t :=
  (exec_closeIfs_append inner outer).trans (exec_then ran _)

end Runs

section Chains

variable {first branch : Branch} {rest : List Branch} {last : String} {s : State}

def headRow (branch : Branch) : List Shape :=
  [.token .ifKw 1, branch.conditionSketch.shape, (callSketch branch.call).shape]

private theorem head_runs (callable : branch.call ≠ "yield") (deep : level.depth + 1 < env.options.maxDepth)
    (ahead : 2 < env.options.lookaheadLimit) (reads : env.stream.Reads branch.words i j) (here : s.position = i)
    (holds : level.Holds s) : ∃ t, s.Wrote (headRow branch) t ∧ t.position = j ∧
      ∀ {α : Type} (next : Rule α), (do consume .ifKw; condition; call .statement; next : Rule α).exec env Grammar.rule s =
        next.exec env Grammar.rule t := by
  obtain ⟨keyword, -, opener, -, name, -, closer, -, call⟩ := reads
  have taken : Follows env level i (consume .ifKw) fun _ row k => row = [.token .ifKw 1] ∧ k = i + 1 :=
    .consume keyword (by decide) ⟨rfl, rfl⟩
  have condition : Follows env level (i + 1) condition fun _ row k => row = [branch.conditionSketch.shape] ∧ k = i + 4 :=
    condition_follows (Nat.lt_of_succ_lt deep) ⟨opener, name, closer, rfl⟩
  obtain ⟨_, t, ran, _, one, rfl, there⟩ := taken s here holds
  have holds := holds.wrote one
  obtain ⟨_, u, ran', _, two, rfl, there⟩ := condition t there holds
  obtain ⟨_, v, ran'', _, three, rfl, there⟩ := callStmt_follows callable deep ahead call u there (holds.wrote two)
  refine ⟨v, (one.trans two).trans three, there, fun next => ?_⟩
  rw [exec_then ran, exec_then ran', exec_then ran'']

private theorem sees_runs {kind : Kind} (s : State) : ∃ t, (sees kind).exec env Grammar.rule s =
    some (.ok (env.stream.kindAt s.position == kind, t)) ∧ Tried s t := by
  have looks : Views env (sees kind) fun cursor => cursor.nth 0 == kind := inferInstance
  obtain ⟨t, ran, tried⟩ := looks.views s
  refine ⟨t, ?_, tried⟩
  rw [ran, TokenCursor.nth_eq, Nat.add_zero]
  rfl

private theorem link_runs (opened : List OpenIf) (callable : branch.call ≠ "yield") (deep : level.depth + 1 < env.options.maxDepth)
    (ahead : 2 < env.options.lookaheadLimit) (reads : env.stream.Reads (branch.words ++ [(.elseKw, "else")]) i j)
    (here : s.position = i) (holds : level.Holds s) :
    ∃ (mark : Mark) (t : State), t.position = j ∧ level.Holds t ∧
      (ifLink opened).exec env Grammar.rule s = (do
        if ← sees .ifKw then
          return (⟨s.mark, some mark⟩ :: opened, true)
        else
          call .statement
          discard <| mark.complete .elseBranch
          return (⟨s.mark, none⟩ :: opened, false) : Rule (List OpenIf × Bool)).exec env Grammar.rule t ∧
      ∀ {u : State} {row : List Shape}, t.Wrote row u →
        ∃ v w, u.complete mark .elseBranch = .ok v ∧ v.complete s.mark .ifStmt = .ok w ∧ w.position = u.position ∧
          s.Wrote [.node .ifStmt (headRow branch ++ [.node .elseBranch (.token .elseKw 1 :: row)])] w := by
  obtain ⟨k, head, keyword, -, rfl⟩ := TokenStream.reads_append.mp reads
  obtain ⟨t, one, there, goes⟩ := head_runs callable deep ahead head (s := s.start) here holds.start
  obtain ⟨u, seen, tried⟩ := @sees_runs env .elseKw t
  have two : s.start.Wrote (headRow branch) u := by simpa using one.trans (.tried tried)
  have still : u.position = k := tried.position.trans there
  have taken : Follows env level k (consume .elseKw) fun _ row l => row = [.token .elseKw 1] ∧ l = k + 1 :=
    .consume keyword (by decide) ⟨rfl, rfl⟩
  have inside : level.Holds u.start := ((holds.start.wrote two).start)
  obtain ⟨_, v, ran, _, three, rfl, moved⟩ := taken u.start still inside
  refine ⟨u.mark, v, moved, inside.wrote three, ?_, fun {w row} four => ?_⟩
  · rw [ifLink_eq, exec_then exec_start, linkRest, goes, exec_then seen, there, keyword, beq_self_eq_true, if_pos rfl,
      exec_then exec_start, exec_then ran]
  · obtain ⟨x, completed, still', five, -⟩ := State.complete_wrote (three.trans four) (show Kind.elseBranch ≠ .tombstone by decide)
    obtain ⟨y, completed', still'', six, -⟩ := State.complete_wrote (two.trans five) (show Kind.ifStmt ≠ .tombstone by decide)
    exact ⟨x, y, completed, completed', still''.trans still', six⟩

private theorem loop_link {opened : List OpenIf} {linked : List OpenIf × Bool} {t : State}
    (link : (ifLink opened).exec env Grammar.rule s = some (.ok (linked, t))) :
    (Program.loopFrom (opened, true) ifRound).exec env Grammar.rule s =
      (Program.loopFrom linked ifRound).exec env Grammar.rule t := by
  have step : (ifRound (opened, true)).exec env Grammar.rule s = some (.ok (some linked, t)) := by
    rw [ifRound, if_pos rfl, exec_then link]
    exact Program.exec_return _ _
  rw [Program.exec_loopFrom, step, Program.andThen_ok]

private theorem loop_stop {opened : List OpenIf} {t : State} :
    (Program.loopFrom (opened, false) ifRound).exec env Grammar.rule t = some (.ok ((opened, false), t)) := by
  have step : (ifRound (opened, false)).exec env Grammar.rule t = some (.ok (none, t)) := Program.exec_return _ _
  rw [Program.exec_loopFrom, step, Program.andThen_ok]

/-- The loop for a chain, and the completion of all links that it opened, read the chain. -/
theorem chain_closes (opened : List OpenIf) (callable : ∀ branch ∈ first :: rest, branch.call ≠ "yield")
    (ending : last ≠ "yield") (deep : level.depth + 1 < env.options.maxDepth) (ahead : 2 < env.options.lookaheadLimit)
    (reads : env.stream.Reads (chainWords (first :: rest) last) i j) (here : s.position = i) (holds : level.Holds s) :
    ∃ own t u, (loopFrom (opened, true) ifRound).exec env Grammar.rule s = some (.ok ((own ++ opened, false), t)) ∧
      (closeIfs own).exec env Grammar.rule t = some (.ok ((), u)) ∧ u.position = j ∧
        s.Wrote [(chainSketch (first :: rest) last).shape] u := by
  induction rest generalizing first i s opened with
  | nil =>
    obtain ⟨k, head, call⟩ := TokenStream.reads_append.mp
      (show env.stream.Reads ((first.words ++ [(.elseKw, "else")]) ++ callWords last) i j by simpa [chainWords] using reads)
    obtain ⟨mark, t, there, holds', linked, closes⟩ :=
      link_runs opened (callable first List.mem_cons_self) deep ahead head here holds
    obtain ⟨u, seen, tried⟩ := @sees_runs env .ifKw t
    obtain ⟨_, v, ran, _, wrote, rfl, moved⟩ := callStmt_follows ending deep ahead call u (tried.position.trans there)
      (holds'.wrote (.tried tried))
    have inside : t.Wrote [(callSketch last).shape] v := by simpa using (State.Wrote.tried tried).trans wrote
    obtain ⟨w, x, completed, completed', still, whole⟩ := closes inside
    have away : (env.stream.kindAt t.position == .ifKw) = false := by rw [there, call.1]; rfl
    refine ⟨[⟨s.mark, none⟩], w, x, ?_, ?_, still.trans moved, whole⟩
    · have link : (ifLink opened).exec env Grammar.rule s = some (.ok ((⟨s.mark, none⟩ :: opened, false), w)) := by
        rw [linked, exec_then seen, away, if_neg (by simp), exec_then ran, exec_then (exec_complete completed)]
        exact Program.exec_return _ _
      rw [Parser.loopFrom, loop_link link]
      exact loop_stop
    · refine (exec_then (Program.exec_return _ _) _).trans ((exec_then (exec_complete completed') _).trans ?_)
      exact Program.exec_return _ _
  | cons next rest ih =>
    obtain ⟨k, head, others⟩ := TokenStream.reads_append.mp
      (show env.stream.Reads ((first.words ++ [(.elseKw, "else")]) ++ chainWords (next :: rest) last) i j by
        simpa [chainWords] using reads)
    obtain ⟨mark, t, there, holds', linked, closes⟩ :=
      link_runs opened (callable first List.mem_cons_self) deep ahead head here holds
    obtain ⟨u, seen, tried⟩ := @sees_runs env .ifKw t
    have link : (ifLink opened).exec env Grammar.rule s = some (.ok ((⟨s.mark, some mark⟩ :: opened, true), u)) := by
      rw [linked, exec_then seen, there, others.1, beq_self_eq_true, if_pos rfl]
      exact Program.exec_return _ _
    obtain ⟨own, v, w, ran, closed, moved, inner⟩ := ih (⟨s.mark, some mark⟩ :: opened)
      (fun branch member => callable branch (List.mem_cons_of_mem _ member)) others (tried.position.trans there)
      (holds'.wrote (.tried tried))
    have inside : t.Wrote [(chainSketch (next :: rest) last).shape] w := by simpa using (State.Wrote.tried tried).trans inner
    obtain ⟨x, y, completed, completed', still, whole⟩ := closes inside
    refine ⟨own ++ [⟨s.mark, some mark⟩], v, y, ?_, ?_, still.trans moved, whole⟩
    · rw [Parser.loopFrom, loop_link link, List.append_assoc]
      exact ran
    · rw [exec_closeIfs_behind closed]
      refine (exec_then (exec_complete completed) _).trans ((exec_then (exec_complete completed') _).trans ?_)
      exact Program.exec_return _ _

end Chains

/-- A chain is a statement, and its length does not count towards the bound on nesting. -/
theorem chainStmt_follows {first : Branch} {rest : List Branch} {last : String}
    (callable : ∀ branch ∈ first :: rest, branch.call ≠ "yield") (ending : last ≠ "yield")
    (deep : level.depth + 2 < env.options.maxDepth) (ahead : 2 < env.options.lookaheadLimit)
    (reads : env.stream.Reads (chainWords (first :: rest) last) i j) :
    Follows env level i (call .statement) fun _ row k => row = [(chainSketch (first :: rest) last).shape] ∧ k = j := by
  have here : env.stream.kindAt i = .ifKw := reads.1
  refine .call <| .nested (by omega) <| .look ?_
  rw [TokenCursor.nth_eq, Nat.add_zero, here]
  intro s at_i holds
  obtain ⟨own, t, u, ran, closed, there, wrote⟩ := chain_closes [] callable ending deep ahead reads at_i holds
  refine ⟨(), u, ?_, _, wrote, rfl, there⟩
  show ifStmt.exec env Grammar.rule s = _
  rw [ifStmt_eq, exec_then ran, List.append_nil]
  exact closed

end Grammar

section Texts

open Branch LosslessJava.Tree

private theorem textsAll_chain (branches : List Branch) (last : String) :
    (chainSketch branches last).texts = (chainWords branches last).map Prod.snd := by
  induction branches with
  | nil => rfl
  | cons branch rest ih =>
    simp [chainSketch, chainWords, Sketch.texts, Sketch.textsAll, conditionSketch, callSketch, words, callWords, ih]

/-- A statement is a chain: its condition and what follows from it are those of the first branch, and what stands behind
its `else`, where it ends, is the rest of the chain. -/
def Chained : List Branch → String → Node → Prop
  | [], last, node => (callSketch last).Depicts (.node node)
  | branch :: rest, last, node => ∃ (stmt : Ast.IfStmt) (condition : Ast.Expr) (body otherwise next : Node), stmt.node = node ∧
      stmt.condition? = some condition ∧ (Sketch.node .nameExpr [.token .identifier branch.condition]).Depicts (.node condition.node) ∧
      stmt.thenBranch? = some body ∧ (callSketch branch.call).Depicts (.node body) ∧
      node.elements.getLast? = some (.node otherwise) ∧ otherwise.kind = .elseBranch ∧
      otherwise.elements.getLast? = some (.node next) ∧ stmt.elseBranch? = some next ∧ Chained rest last next

private theorem exists_node_of_call {name : String} {element : Element} (depicts : (callSketch name).Depicts element) :
    ∃ n, element = .node n ∧ n.kind = .exprStmt := by
  obtain ⟨n, same, kind, -⟩ := Sketch.depicts_node.mp depicts
  exact ⟨n, same, kind⟩

private theorem exists_node_of_chain {branches : List Branch} {last : String} {element : Element}
    (depicts : (chainSketch branches last).Depicts element) : ∃ n, element = .node n := by
  cases branches with
  | nil =>
    obtain ⟨n, same, -⟩ := exists_node_of_call depicts
    exact ⟨n, same⟩
  | cons branch rest =>
    obtain ⟨n, same, -⟩ := Sketch.depicts_node.mp depicts
    exact ⟨n, same⟩

private theorem chained_of_depicts {branches : List Branch} {last : String} {node : Node}
    (depicts : (chainSketch branches last).Depicts (.node node)) : Chained branches last node := by
  induction branches generalizing node with
  | nil => exact depicts
  | cons branch rest ih =>
    obtain ⟨kind, row⟩ := depicts
    simp only [conditionSketch, Sketch.depictsAll_cons, Sketch.depictsAll_nil, Sketch.depicts_node, Sketch.depicts_token] at row
    obtain ⟨_, _, shown, ⟨_, rfl, -⟩, _, _, rfl, ⟨tested, rfl, isCondition, _, _, inside, ⟨_, rfl, -⟩, _, _, rfl,
      ⟨name, rfl, isName, given⟩, _, _, rfl, ⟨_, rfl, -⟩, rfl⟩, _, _, rfl, call, _, _, rfl, ⟨otherwise, rfl, isElse, _, _, els,
      ⟨_, rfl, -⟩, _, _, rfl, next, rfl⟩, rfl⟩ := row
    obtain ⟨body, rfl, isCall⟩ := exists_node_of_call call
    obtain ⟨last, rfl⟩ := exists_node_of_chain next
    obtain ⟨condition, rfl⟩ := @Ast.exists_form Ast.exprForm? name (by rw [isName]; rfl)
    have children : node.children = [tested, body, otherwise] := by simp [Node.children, shown]
    have single : tested.children = [condition.node] := by simp [Node.children, inside]
    have behind : otherwise.children = [last] := by simp [Node.children, els]
    refine ⟨⟨node, kind⟩, condition, body, otherwise, last, rfl, ?_, ⟨isName, ?_⟩, ?_, call, by simp [shown], isElse,
      by simp [els], ?_, ih next⟩
    · simp [Ast.IfStmt.condition?, Ast.conditionOf?, Ast.child?, Node.childOfKind?, children, isCondition, single, Ast.ofNode?_form]
    · simpa only [Sketch.depictsAll_cons, Sketch.depictsAll_nil, Sketch.depicts_token] using given
    · simp [Ast.IfStmt.thenBranch?, children, isCondition, isCall]
    · simp [Ast.IfStmt.elseBranch?, Node.childOfKind?, children, isCondition, isCall, isElse, Node.firstChild?, behind]

/-- A chain of `if` and `else if` in the body of a method parses without an error, to statements that stand in each other. -/
theorem EntryPoint.else_if_chain {text type method last : String} {first : Branch} {rest : List Branch}
    (callable : ∀ branch ∈ first :: rest, branch.call ≠ "yield") (ending : last ≠ "yield")
    (written : wordsOf text = bodyWords type method (chainWords (first :: rest) last)) :
    ∃ parse stmt, EntryPoint.file.parse text {} = .ok parse ∧ parse.diagnostics = [] ∧ parse.state = .normal ∧
      bodyStatements parse.root = [stmt] ∧ (chainSketch (first :: rest) last).Depicts (.node stmt) ∧
      Chained (first :: rest) last stmt := by
  have texts : Sketch.textsAll [chainSketch (first :: rest) last] = (chainWords (first :: rest) last).map Prod.snd := by
    rw [Sketch.textsAll, Sketch.textsAll, List.append_nil, textsAll_chain]
  obtain ⟨parse, parsed, silent, normal, depicts⟩ := EntryPoint.parse_body written (show 1 < 256 by decide) texts
    fun j reads closer => by
      have here : (TokenStream.lex text).kindAt 8 = .ifKw := reads.1
      have later := reads.stop
      have chain : Grammar.Follows (textEnv text {}) ⟨2, true⟩ 8 (call .statement) fun _ row k => row = _ ∧ k = j :=
        Grammar.chainStmt_follows callable ending (show 4 < 256 by decide) (show 2 < 1024 by decide) reads
      exact Grammar.listUntil_single (by rw [show (textEnv text {}).stream.kindAt 8 = _ from here]; decide)
        (by rw [show (textEnv text {}).stream.kindAt 8 = _ from here]; decide) (by rw [later]; simp [chainWords, words]) closer chain
  obtain ⟨stmt, _, chain, rest, statements⟩ := List.forall₂_cons_left_iff.mp (bodyStatements_of_depicts depicts)
  cases rest
  exact ⟨parse, stmt, parsed, silent, normal, statements, chain, chained_of_depicts chain⟩

/-- Three calls, of which the last one is made where no condition holds. -/
theorem EntryPoint.else_if_chain_of_two :
    ∃ parse stmt, EntryPoint.file.parse "class A{void m(){if(a1)f1();else if(a2)f2();else g();}}" {} = .ok parse ∧
      parse.diagnostics = [] ∧ bodyStatements parse.root = [stmt] ∧ Chained [⟨"a1", "f1"⟩, ⟨"a2", "f2"⟩] "g" stmt := by
  have written : wordsOf "class A{void m(){if(a1)f1();else if(a2)f2();else g();}}" =
      bodyWords "A" "m" (chainWords [⟨"a1", "f1"⟩, ⟨"a2", "f2"⟩] "g") := by decide +kernel
  have callable : ∀ branch ∈ [(⟨"a1", "f1"⟩ : Branch), ⟨"a2", "f2"⟩], branch.call ≠ "yield" := by decide
  obtain ⟨parse, stmt, parsed, silent, -, statements, -, chained⟩ := EntryPoint.else_if_chain callable (by decide) written
  exact ⟨parse, stmt, parsed, silent, statements, chained⟩

end Texts

end LosslessJava
