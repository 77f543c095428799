import LosslessJava.Proofs.SettlingRules
import LosslessJava.Proofs.LookaheadLimits

/-! Proof rules for what the rules of the grammar are put together with: nodes, loops, brackets and
lists. -/

namespace LosslessJava.Grammar

open LosslessJava.Parser

variable {scope : Scope} {α β : Type} {i : Nat}

def Builds (scope : Scope) (i : Nat) (rule : Rule Completed) (post : Nat → Prop) : Prop :=
  ∀ s : State, s.Good scope.env → s.position = i →
    scope.Settles rule s fun first t =>
      State.After scope.env s t ∧ s.Heads first t ∧ post t.position

def Finds (scope : Scope) (i : Nat) (rule : Rule (Option Completed)) (post : Bool → Nat → Prop) :
    Prop :=
  ∀ s : State, s.Good scope.env → s.position = i →
    scope.Settles rule s fun found t =>
      State.After scope.env s t ∧ (∀ first, found = some first → s.Heads first t) ∧
        post found.isSome t.position

private theorem settles_nodeOf {s : State} {rule : Rule Kind} {P : Nat → Prop}
    (inner : scope.Settles rule s.start fun kind t =>
      State.After scope.env s.start t ∧ kind.isNode ∧ P t.position) :
    scope.Settles (nodeOf rule) s fun first t =>
      State.After scope.env s t ∧ s.Heads first t ∧ P t.position := by
  refine .actThen rfl ?_
  refine inner.bind fun kind t _ ⟨after, node, holds⟩ => ?_
  obtain ⟨u, done, still, after, heads⟩ := State.complete_after after node
  exact .act done ⟨after, heads, still ▸ holds⟩

theorem settles_discardNode {s : State} {kind : Kind} {rule : Rule Unit} {P : Nat → Prop}
    (isNode : kind.isNode)
    (inner : scope.Settles rule s.start fun _ t =>
      State.After scope.env s.start t ∧ P t.position) :
    scope.Settles (Functor.discard (node kind rule)) s fun _ t =>
      State.After scope.env s t ∧ P t.position :=
  (settles_nodeOf (inner.bind fun _ _ _ ⟨after, holds⟩ => .pure ⟨after, isNode, holds⟩)).bind
    fun _ _ _ ⟨after, _, holds⟩ => .pure ⟨after, holds⟩

/-- What is done with an answer may rely on the answer being what stands there. -/
theorem settles_look {s : State} {first : Rule β} {answer : β} {next : β → Rule α}
    {post : α → State → Prop} (good : s.Good scope.env) (looks : Looks scope s.position first answer)
    (rest : ∀ t, first.exec scope.env rule s = some (.ok (answer, t)) → Tried s t →
      scope.Settles (next answer) t post) : scope.Settles (first >>= next) s post :=
  (looks s good rfl).bind fun b t ran ⟨same, tried⟩ => by
    subst same
    exact rest t ran tried

theorem settles_nthThen {s : State} {n : Nat} {next : Kind → Rule α} {post : α → State → Prop}
    (rest : scope.Settles (next ((s.cursor scope.env).nth n)) s post) :
    scope.Settles (nth n >>= next) s post := by
  have read : scope.Settles (nth n) s fun kind t => kind = (s.cursor scope.env).nth n ∧ t = s :=
    .actThen rfl (.pure ⟨rfl, rfl⟩)
  refine read.bind fun kind t _ ⟨same, still⟩ => ?_
  subst same still
  exact rest

theorem settles_trueAnd {s : State} {rule : Rule Bool} {post : Bool → State → Prop}
    (settles : scope.Settles rule s post) :
    scope.Settles (Pure.pure true <&&> rule) s fun b t =>
      post b t ∧ rule.exec scope.env Grammar.rule s = some (.ok (b, t)) := by
  have first : scope.Settles (Pure.pure true) s fun b t => b = true ∧ t = s := .pure ⟨rfl, rfl⟩
  refine first.bind fun b t _ ⟨same, still⟩ => ?_
  subst same still
  exact settles.weaken fun _ _ ran holds => ⟨holds, ran⟩

namespace Builds

variable {post : Nat → Prop} {rule : Rule Completed}

theorem keeps (builds : Builds scope i rule post) : Keeps scope i rule fun _ j => post j :=
  fun s good here => (builds s good here).weaken fun _ _ _ ⟨after, _, holds⟩ => ⟨after, holds⟩

theorem nodeOf {rule : Rule Kind} (inner : Keeps scope i rule fun kind j => kind.isNode ∧ post j) :
    Builds scope i (Parser.nodeOf rule) post := fun s good here =>
  settles_nodeOf (inner s.start good.start here)

theorem node {kind : Kind} {rule : Rule Unit} (isNode : kind.isNode)
    (inner : Keeps scope i rule fun _ j => post j) : Builds scope i (Parser.node kind rule) post :=
  nodeOf (inner.bind fun _ _ _ _ holds => .pure ⟨isNode, holds⟩)

theorem finds {post : Bool → Nat → Prop} (builds : Builds scope i rule (post true)) :
    Finds scope i (rule >>= fun first => return some first) post := fun s good here =>
  (builds s good here).bind fun first t _ ⟨after, heads, holds⟩ =>
    .pure ⟨after, fun _ same => by cases same; exact heads, holds⟩

end Builds

namespace Finds

variable {post : Bool → Nat → Prop} {rule : Rule (Option Completed)}

theorem keeps (finds : Finds scope i rule post) :
    Keeps scope i rule fun found j => post found.isSome j :=
  fun s good here => (finds s good here).weaken fun _ _ _ ⟨after, _, holds⟩ => ⟨after, holds⟩

theorem weaken {other : Bool → Nat → Prop} (finds : Finds scope i rule post)
    (implies : ∀ a j, i ≤ j → post a j → other a j) : Finds scope i rule other := by
  intro s good here
  refine (finds s good here).weaken fun found t _ ⟨after, heads, holds⟩ =>
    ⟨after, heads, implies _ _ ?_ holds⟩
  have := after.position_le
  omega

private theorem look {first : Rule β} {answer : β} {next : β → Rule (Option Completed)}
    (looks : Looks scope i first answer) (rest : Finds scope i (next answer) post) :
    Finds scope i (first >>= next) post := by
  intro s good here
  subst here
  refine settles_look good looks fun t _ tried => ?_
  have after := tried.after good
  refine (rest t after.good tried.position).weaken fun found u _ ⟨later, heads, holds⟩ => ?_
  exact ⟨after.trans later, fun first same => tried.heads_from (heads first same), holds⟩

theorem sees {kind : Kind} {yes no : Rule (Option Completed)}
    (whenTrue : (scope.cursor i).current = kind → Finds scope i yes post)
    (whenFalse : (scope.cursor i).current ≠ kind → Finds scope i no post) :
    Finds scope i (Parser.sees kind >>= fun b => if b = true then yes else no) post :=
  look (.sees kind) <| by
    split
    · next here => exact whenTrue (by simpa using here)
    · next away => exact whenFalse (by simpa using away)

theorem nodeIf {rule : Rule (Option Kind)}
    (inner : Keeps scope i rule fun kind j => NodeKind kind ∧ post kind.isSome j) :
    Finds scope i (Parser.nodeIf rule) post := by
  intro s good here
  refine .actThen rfl ?_
  refine .bind (inner s.start good.start here) fun kind t _ ⟨after, node, holds⟩ => ?_
  cases kind with
  | some kind =>
    obtain ⟨u, done, still, after, heads⟩ := State.complete_after after (node kind rfl)
    refine .actThen done (.pure ⟨after, ?_, still ▸ holds⟩)
    rintro _ ⟨⟩
    exact heads
  | none =>
    obtain ⟨events, done, passes⟩ := State.release_ok after.toPasses
    have released : (Action.release s.mark).run scope.env t = .ok ((), { t with events }) := by
      simp only [Action.run, done]
      rfl
    refine .actThen released (.pure ?_)
    exact ⟨⟨passes, after.good.inside, after.good.ended, after.good.strict⟩, by simp, holds⟩

theorem nested {rule : Rule (Option Completed)} (inner : Finds scope i rule post)
    (deep : ∀ j, post false j) : Finds scope i (Parser.nested Option.none rule) post := by
  intro s good here
  by_cases room : s.depth < scope.env.options.maxDepth
  · exact .nested room <| (inner s.enter good.enter here).weaken
      fun _ _ _ ⟨after, heads, holds⟩ => ⟨after.leave, heads, holds⟩
  · obtain ⟨t, run, after, _⟩ := State.abandonNested_ok scope.regular good
    exact .tooDeep (by omega) run ⟨after, by simp, deep _⟩

/-- A rule that moves where it finds a node is behind that node then. -/
theorem promise {s : State} (good : s.Good scope.env)
    (finds : Finds scope s.position rule fun found j => found = true → s.position < j) :
    scope.Settles rule s fun found t => State.After scope.env s t ∧
      ∀ first, found = some first → s.position < t.position ∧ s.Heads first t :=
  (finds s good rfl).weaken fun _ _ _ ⟨after, heads, moves⟩ =>
    ⟨after, fun first same => ⟨moves (by rw [same]; rfl), heads first same⟩⟩

/-- Some of the nodes that a rule gives do not count. -/
theorem filter {keep : Completed → Bool} (finds : Finds scope i rule post)
    (dropped : ∀ j, post true j → post false j) :
    Finds scope i (rule >>= fun found => return found.filter keep) post := fun s good here =>
  (finds s good here).bind fun found t _ ⟨after, heads, holds⟩ => .pure <| by
    refine ⟨after, fun first same => heads first (Option.eq_some_of_filter_eq_some same), ?_⟩
    cases found with
    | none => exact holds
    | some first =>
      cases kept : keep first with
      | true => simpa [Option.filter, kept] using holds
      | false => simpa [Option.filter, kept] using dropped _ holds

end Finds

theorem settles_around {s t : State} {first : Completed} {rule : Rule Kind} {P : Nat → Prop}
    (after : State.After scope.env s t) (heads : s.Heads first t)
    (inner : Keeps scope t.position rule fun kind j => kind.isNode ∧ P j) :
    scope.Settles (around first rule) t fun outer u =>
      State.After scope.env s u ∧ s.Heads outer u ∧ P u.position := by
  obtain ⟨events, run, completes⟩ := State.precede_ok after.toPasses heads
  have preceded : (Action.precede first).run scope.env t = .ok (t.mark, { t with events }) := by
    simp only [Action.run, run]
    rfl
  refine .actThen preceded ?_
  have good : State.Good scope.env { t with events } :=
    ⟨after.good.inside, after.good.ended, after.good.strict⟩
  refine .bind (inner _ good rfl) fun kind u _ kept => ?_
  obtain ⟨later, node, holds⟩ := kept
  obtain ⟨events', done, passes, outer⟩ := completes u kind node later.toPasses
  exact .act (by simp only [Action.run, done]; rfl)
    ⟨⟨passes, later.good.inside, later.good.ended, later.good.strict⟩, outer, holds⟩

/-- A decision records nothing and stays where it is, unless it ran into the limit and the report of
that gave the input up. -/
theorem settles_decideBy [Inhabited α] {s : State} (good : s.Good scope.env) (what : String)
    (peek : Lookahead.Peek α) [looks : Lookahead.Ends peek] :
    scope.Settles (decideBy what peek) s fun decision t => State.After scope.env s t ∧
      ∃ hits, peek.decide (s.cursor scope.env) scope.env.options.lookaheadLimit = some (decision, hits) ∧
        (t.position = s.position ∧ t.events = s.events ∨ t.current scope.env = .eof ∧
          scope.env.options.mode = .strict ∧ hits = true) := by
  obtain ⟨decision, hits, ran⟩ := looks.ends (s.cursor scope.env) scope.env.options.lookaheadLimit
  refine .actThen rfl (.actThen rfl ?_)
  simp only [ran]
  split
  · next exhausted =>
    cases mode : scope.env.options.mode with
    | lenient =>
      obtain ⟨t, run, after, still, kept⟩ := State.report_lenient good mode
        (.undecided what scope.env.options.lookaheadLimit)
      exact .actThen (by simp [Action.run, run, Result.done, Except.map]; rfl)
        (.pure ⟨after, hits, rfl, .inl ⟨still, kept⟩⟩)
    | strict =>
      obtain ⟨t, run, after, -, ended, -⟩ := State.report_strict scope.regular good mode
        (.undecided what scope.env.options.lookaheadLimit)
      exact .actThen (by simp [Action.run, run, Result.done, Except.map]; rfl)
        (.pure ⟨after, hits, rfl, .inr ⟨ended, rfl, exhausted⟩⟩)
  · exact .pure ⟨.refl good, hits, rfl, .inl ⟨rfl, rfl⟩⟩

theorem settles_aroundWhenSees {s t : State} {kind : Kind} {first : Completed} {rule : Rule Kind}
    (after : State.After scope.env s t) (heads : s.Heads first t)
    (inner : (scope.cursor t.position).current = kind →
      Keeps scope t.position rule fun kind _ => kind.isNode) :
    scope.Settles (whenSees kind (discard (around first rule))) t fun _ u =>
      State.After scope.env s u := by
  refine settles_look after.good (.sees kind) fun v _ tried => ?_
  have after' := after.trans (tried.after after.good)
  split
  · next here =>
    refine (settles_around (P := fun _ => True) after' (tried.heads heads) ?_).bind
      fun _ _ _ ⟨later, _⟩ => .pure later
    rw [tried.position]
    exact (inner (by simpa using here)).weaken fun _ _ _ node => ⟨node, trivial⟩
  · exact .pure after'

namespace Keeps

variable {rule : Rule α} {post : α → Nat → Prop}

theorem nodeWith {rule : Rule (Kind × α)}
    (inner : Keeps scope i rule fun answer j => answer.1.isNode ∧ post answer.2 j) :
    Keeps scope i (Parser.nodeWith rule) post := by
  intro s good here
  refine .actThen rfl ?_
  refine .bind (inner s.start good.start here) fun ⟨kind, a⟩ t _ ⟨after, node, holds⟩ => ?_
  obtain ⟨u, done, still, after, -⟩ := State.complete_after after node
  have completed : scope.Settles (Functor.discard (s.mark.complete kind)) _ fun _ v => v = u :=
    .actThen done (.pure rfl)
  refine completed.bind fun _ v _ same => .pure ?_
  subst same
  exact ⟨after, still ▸ holds⟩

/-- A rule one level deeper; beyond the deepest level there is only the end of input. -/
theorem nested {otherwise : α} (inner : Keeps scope i rule post)
    (deep : ∀ j, i ≤ j → ((scope.cursor i).current ≠ .eof → i < j) → post otherwise j) :
    Keeps scope i (Parser.nested otherwise rule) post := by
  intro s good here
  by_cases room : s.depth < scope.env.options.maxDepth
  · exact .nested room <| (inner s.enter good.enter here).weaken
      fun _ _ _ ⟨after, holds⟩ => ⟨after.leave, holds⟩
  · obtain ⟨t, run, after, ended⟩ := State.abandonNested_ok scope.regular good
    subst here
    exact .tooDeep (by omega) run ⟨after, deep _ after.position_le (after.position_lt ended)⟩

theorem withNoLambda {noLambda : Bool} (inner : Keeps scope i rule post) :
    Keeps scope i (Parser.withNoLambda noLambda rule) post := fun s good here =>
  .withNoLambda <| (inner (s.withNoLambda noLambda) (good.withNoLambda _) here).weaken
    fun _ _ _ ⟨after, holds⟩ => ⟨after.withNoLambda, holds⟩

theorem someNode {rule : Rule (Option Kind)} (inner : Keeps scope i rule fun kind j =>
      NodeKind kind ∧ (kind.isSome = true → i < j)) :
    Keeps scope i (Parser.nodeIf rule >>= fun found => return found.isSome) fun b j =>
      b = true → i < j := by
  have finds : Finds scope i (nodeIf rule) fun found j => found = true → i < j := .nodeIf inner
  exact finds.keeps.bind fun _ _ _ _ moves => .pure moves

theorem discardNode {kind : Kind} {rule : Rule Unit} {post : Unit → Nat → Prop}
    (isNode : kind.isNode) (inner : Keeps scope i rule post) :
    Keeps scope i (Functor.discard (Parser.node kind rule)) post :=
  (Builds.node isNode inner).keeps.discard fun _ _ holds => holds

theorem discardNodeOf {rule : Rule Kind} (inner : Keeps scope i rule fun kind _ => kind.isNode) :
    Keeps scope i (Functor.discard (Parser.nodeOf rule)) fun _ _ => True := by
  have builds : Builds scope i (Parser.nodeOf rule) fun _ => True :=
    .nodeOf (inner.weaken fun _ _ _ node => ⟨node, trivial⟩)
  exact builds.keeps.discard fun _ _ _ => trivial

theorem bracketed (inner : Keeps scope i rule post) : Keeps scope i (Parser.bracketed rule) post :=
  withNoLambda inner

theorem loopFrom {step : β → Rule (Option β)} {post : β → Nat → Prop}
    (invariant : β → Nat → Prop) {b : β} (start : invariant b i)
    (round : ∀ b j, i ≤ j → invariant b j → Keeps scope j (step b) fun
      | some next, k => (invariant next k ∧ j < k) ∨ scope.own.sticks
      | none, k => post b k) : Keeps scope i (Parser.loopFrom b step) post := by
  intro s good here
  refine Program.Settles.loopFrom
    (fun b t => State.After scope.env s t ∧ invariant b t.position) ⟨.refl good, here ▸ start⟩
    (fun b t ⟨after, _⟩ => after.good.inside) fun b t ⟨after, holds⟩ => ?_
  have later := after.position_le
  refine (round b _ (by omega) holds t after.good rfl).weaken fun next u _ ⟨after', holds'⟩ => ?_
  cases next with
  | some next => exact holds'.imp_left fun ⟨kept, moved⟩ => ⟨⟨after.trans after', kept⟩, moved⟩
  | none => exact ⟨after.trans after', holds'⟩

theorem stepTo {next : β} {step : Rule Bool} (yes no : Nat → Prop)
    (keeps : Keeps scope i step fun b j => if b then yes j else no j) :
    Keeps scope i (Parser.stepTo next step) fun
      | some b, j => b = next ∧ yes j
      | none, j => no j :=
  keeps.bind fun b j _ _ holds => .pure <| by
    cases b with
    | true => exact ⟨rfl, holds⟩
    | false => exact holds

theorem expectedHere (what : String) :
    Keeps scope i (Parser.expectedHere what) fun _ j =>
      j = i ∧ scope.env.options.mode = .lenient ∨
        (scope.cursor j).current = .eof ∧ scope.env.options.mode = .strict :=
  look Looks.current (report _)

theorem accept {kind : Kind} (more : kind ≠ .eof) :
    Keeps scope i (Parser.accept kind) fun b j =>
      if b then (scope.cursor i).current = kind ∧ j = i + 1
      else (scope.cursor i).current ≠ kind ∧ j = i :=
  sees (fun here => (consume here more).bind fun _ _ _ _ moved => .pure ⟨here, moved⟩)
    fun away => .pure ⟨away, rfl⟩

/-- Goes on one way behind a token that stands here, and another way where it does not. -/
theorem acceptThen {kind : Kind} {yes no : Rule α} (more : kind ≠ .eof)
    (found : i + 1 < scope.env.stream.size → Keeps scope (i + 1) yes post)
    (absent : (scope.cursor i).current ≠ kind → Keeps scope i no post) :
    Keeps scope i (Parser.accept kind >>= fun b => if b = true then yes else no) post := by
  refine (accept more).bind fun b j _ inside reached => ?_
  split
  · next yes =>
    rw [if_pos yes] at reached
    obtain ⟨-, rfl⟩ := reached
    exact found inside
  · next no =>
    rw [if_neg no] at reached
    obtain ⟨away, rfl⟩ := reached
    exact absent away

theorem expect {kind : Kind} (more : kind ≠ .eof) :
    Keeps scope i (Parser.expect kind) fun b j => b → i < j := by
  refine (accept more).bind fun b j _ _ holds => ?_
  cases b with
  | true => exact .pure fun _ => by simp at holds; omega
  | false => exact (expectedHere _).bind fun _ k _ _ _ => .pure (by simp)

theorem require {kind : Kind} (more : kind ≠ .eof) :
    Keeps scope i (Parser.require kind) fun _ _ => True :=
  (expect more).discard fun _ _ _ => trivial

private theorem whenSees {kind : Kind} {rule : Rule Unit} {post : Unit → Nat → Prop}
    (there : (scope.cursor i).current = kind → Keeps scope i rule post)
    (away : (scope.cursor i).current ≠ kind → post () i) :
    Keeps scope i (Parser.whenSees kind rule) post :=
  sees there fun absent => .pure (away absent)

private theorem decideBy [Inhabited α] (what : String) (peek : Lookahead.Peek α) [Lookahead.Ends peek] :
    Keeps scope i (Parser.decideBy what peek) fun _ _ => True := fun _ good _ =>
  (settles_decideBy good what peek).weaken fun _ _ _ ⟨after, _⟩ => ⟨after, trivial⟩

theorem semicolon (recovery : KindSet) :
    Keeps scope i (Grammar.semicolon recovery) fun _ _ => True := by
  refine (expect (by decide)).bind fun found j _ _ _ => ?_
  split
  · exact .pure trivial
  · exact (recover recovery).bind fun _ _ _ _ _ => (accept (by decide)).discard fun _ _ _ => trivial

/-- To skip a token where a rule did not move is to move, unless the end of input stands there. -/
theorem skipUnmoved {rule : Rule Unit} {issue : Kind → Issue}
    (keeps : Keeps scope i rule fun _ _ => True) :
    Keeps scope i (Grammar.skipUnmoved rule issue) fun _ j => (scope.cursor i).current ≠ .eof → i < j := by
  refine look Looks.position (keeps.bind fun _ j later _ _ => look Looks.position ?_)
  split
  · next still =>
    refine look Looks.current ((reportAndSkip _).weaken fun _ k _ moves more => ?_)
    rw [still] at moves
    exact moves more
  · next moved => exact .pure fun _ => by omega

end Keeps

namespace Steady

variable {rank : Nat}

theorem of_keeps {rule : Rule α} (keeps : ∀ i, Keeps scope i rule fun _ _ => True) :
    Steady scope rank rule := fun i _ => keeps i

theorem test {guard : Rule Bool} {yes no : Rule α} {answer : Nat → Bool}
    (looks : ∀ i, Looks scope i guard (answer i))
    (whenTrue : ∀ i, scope.Room rank i → answer i = true → Keeps scope i yes fun _ _ => True)
    (whenFalse : Steady scope rank no) :
    Steady scope rank (guard >>= fun b => if b = true then yes else no) :=
  fun i room => .test (looks i) (whenTrue i room) fun _ => whenFalse i room

theorem and {b : Bool} {rule : Rule Bool} (steady : Steady scope rank rule) :
    Steady scope rank (Pure.pure b <&&> rule) := fun i room => .look (.pure b) <| by
  cases b with
  | true => exact steady i room
  | false => exact .pure trivial

theorem sees {kind : Kind} {yes no : Rule α}
    (whenTrue : ∀ i, scope.Room rank i → (scope.cursor i).current = kind →
      Keeps scope i yes fun _ _ => True)
    (whenFalse : Steady scope rank no) :
    Steady scope rank (Parser.sees kind >>= fun b => if b = true then yes else no) :=
  fun i room => .sees (whenTrue i room) fun _ => whenFalse i room

theorem whenSees {kind : Kind} {rule : Rule Unit}
    (there : ∀ i, scope.Room rank i → (scope.cursor i).current = kind →
      Keeps scope i rule fun _ _ => True) : Steady scope rank (Parser.whenSees kind rule) :=
  fun i room => .whenSees (there i room) fun _ => trivial

theorem discardNode {kind : Kind} {rule : Rule Unit} (isNode : kind.isNode)
    (steady : Steady scope rank rule) :
    Steady scope rank (Functor.discard (Parser.node kind rule)) :=
  fun i room => .discardNode isNode (steady i room)

theorem discardNodeIf {rule : Rule (Option Kind)} (inner : Answers scope rank rule NodeKind) :
    Steady scope rank (Functor.discard (Parser.nodeIf rule)) := fun i room => by
  have finds : Finds scope i (Parser.nodeIf rule) fun _ _ => True :=
    .nodeIf ((inner i room).weaken fun _ _ _ node => ⟨node, trivial⟩)
  exact finds.keeps.discard fun _ _ _ => trivial

theorem require {kind : Kind} (more : kind ≠ .eof) :
    Steady scope rank (Parser.require kind) := fun _ _ =>
  .require more

theorem accept {kind : Kind} (more : kind ≠ .eof) :
    Steady scope rank (Parser.accept kind) := fun _ _ =>
  (Keeps.accept more).weaken fun _ _ _ _ => trivial

theorem expectedHere (what : String) :
    Steady scope rank (Parser.expectedHere what) := fun _ _ =>
  (Keeps.expectedHere what).weaken fun _ _ _ _ => trivial

theorem recover (recovery : KindSet) :
    Steady scope rank (Parser.recover recovery) := fun _ _ => .recover recovery

theorem expectedThenRecover (what : String)
    (recovery : KindSet) : Steady scope rank (Parser.expectedThenRecover what recovery) :=
  (expectedHere what).bind fun _ => recover recovery

theorem decideBy [Inhabited α] (what : String) (peek : Lookahead.Peek α) [Lookahead.Ends peek] :
    Steady scope rank (Parser.decideBy what peek) := fun _ _ => .decideBy what peek

/-- Goes on one way behind a token that stands here, and another way where it does not. -/
theorem acceptThen {kind : Kind} {yes no : Rule α} (more : kind ≠ .eof)
    (found : Steady scope rank yes) (absent : Steady scope rank no) :
    Steady scope rank (Parser.accept kind >>= fun b => if b = true then yes else no) := fun i room =>
  .acceptThen more (fun _ => found (i + 1) (room.later (Nat.le_succ i) (Nat.le_refl _)))
    fun _ => absent i room

theorem semicolon (recovery : KindSet) : Steady scope rank (Grammar.semicolon recovery) :=
  fun _ _ => .semicolon recovery

theorem bracketed {rule : Rule α} (steady : Steady scope rank rule) :
    Steady scope rank (Parser.bracketed rule) := fun i room => .bracketed (steady i room)

theorem withNoLambda {noLambda : Bool} {rule : Rule α} (steady : Steady scope rank rule) :
    Steady scope rank (Parser.withNoLambda noLambda rule) := fun i room => .withNoLambda (steady i room)

theorem nested {otherwise : α} {rule : Rule α}
    (steady : Steady scope rank rule) : Steady scope rank (Parser.nested otherwise rule) :=
  fun i room => .nested (steady i room) fun _ _ _ => trivial

theorem loopFrom {β : Type} {b : β} {step : β → Rule (Option β)}
    (round : ∀ b, Yields scope rank (step b) Option.isSome) :
    Steady scope rank (Parser.loopFrom b step) := fun i room =>
  .loopFrom (fun _ j => scope.Room rank j) room fun b j later holds =>
    (round b j holds).weaken fun next k on moves => by
      cases next with
      | some next => exact .inl ⟨holds.later on (Nat.le_refl _), moves rfl⟩
      | none => trivial

theorem loop {step : Rule Bool} (yields : Yields scope rank step id) :
    Steady scope rank (Parser.loop step) :=
  .loopFrom fun _ i room => (yields i room).bind fun found _ _ _ moves => .pure <| by
    cases found with
    | true => exact fun _ => moves rfl
    | false => simp

theorem commaSeparated {rule : Rule Unit}
    (steady : Steady scope rank rule) : Steady scope rank (Grammar.commaSeparated rule) :=
  loop fun i room => (steady i room).bind fun _ j _ _ _ =>
    (Keeps.accept (by decide)).weaken fun b k _ holds said => by
      simp only [id] at said
      simp only [said, if_true] at holds
      omega

theorem listUntil {closer : Kind} {rule : Rule Unit}
    (steady : Steady scope rank rule) : Steady scope rank (Grammar.listUntil closer rule) :=
  loop fun i room => .test ((Looks.sees closer).or (Looks.sees .eof)) (fun _ => .pure (by simp))
    fun away => (Keeps.skipUnmoved (steady i room)).bind fun _ _ _ _ moved =>
      .pure fun _ => moved (by simp at away; exact away.2)

end Steady

namespace Yields

variable {rank : Nat}

theorem loopAny {step : Rule Bool} (yields : Yields scope rank step id) :
    Yields scope rank (Parser.loopAny step) id := by
  intro i room
  refine .loopFrom (fun b j => scope.Room rank j ∧ i ≤ j ∧ (b = true → i < j))
    ⟨room, Nat.le_refl i, by simp⟩ fun b j later ⟨holds, reached, moved⟩ => ?_
  refine Keeps.weaken (.stepTo (fun k => j < k) (fun k => j ≤ k) ?_) ?_
  · exact (yields j holds).weaken fun b k on moves => by
      cases b with
      | true => exact moves rfl
      | false => exact on
  · intro next k on kept
    cases next with
    | some next => exact .inl ⟨⟨holds.later on (Nat.le_refl _), by omega, fun _ => by omega⟩, kept.2⟩
    | none => exact fun said => Nat.lt_of_lt_of_le (moved said) on

end Yields

section Delimited

variable {opener closer delimiter : Kind} {what : String} {first : KindSet} {element : Rule Bool}

/-- A round of a list moves if it goes on, provided an element that counts has moved or no other one
can start there. What may be wrong otherwise is `stuck`. -/
theorem settles_delimitedRound {s : State} {P : Prop} (good : s.Good scope.env)
    (more : delimiter ≠ .eof)
    (each : ∀ t, Tried s t → scope.Settles element t fun b u =>
      State.After scope.env t u ∧ (b = true → s.position < u.position ∨
        first.contains (s.current scope.env) = false ∨ P)) :
    scope.Settles (delimitedRound closer delimiter what first element) s fun b t =>
      State.After scope.env s t ∧ (b = true → s.position < t.position ∨ P) := by
  refine settles_look good (.or (.sees _) (.sees _)) fun t _ tried => ?_
  have after := tried.after good
  have same := tried.position
  split
  · exact .pure ⟨after, by simp⟩
  · next away =>
    simp only [Bool.or_eq_true, beq_iff_eq, not_or, ← same] at away
    refine settles_look after.good (.sees _) fun u _ tried' => ?_
    have after := after.trans (tried'.after after.good)
    rw [← tried'.position] at same away
    split
    · refine Keeps.goOn (P := fun b j => b = true → s.position < j ∨ P) after <|
        (Keeps.reportAndSkip _).bind fun _ _ _ _ moves => .pure fun _ => .inl ?_
      exact same ▸ moves away.2
    · refine (each u (tried.trans tried')).bind fun b v _ ⟨later, moves⟩ => ?_
      have after := after.trans later
      have reached := later.position_le
      refine Keeps.goOn (P := fun b j => b = true → s.position < j ∨ P) after ?_
      split
      · next counts =>
        refine .acceptThen more (fun _ => .pure fun _ => .inl (by omega)) fun _ => ?_
        refine .test (.seesAny _) (fun again => ?_) fun _ => .pure (by simp)
        refine (Keeps.require more).bind fun _ j on _ _ => .pure fun _ => ?_
        rcases moves counts with moved | other | wrong
        · exact .inl (by omega)
        · refine .inl (Nat.lt_of_le_of_ne (by omega) fun still => ?_)
          have still : v.position = s.position := by omega
          rw [still] at again
          exact absurd (again.symm.trans other) (by simp)
        · exact .inr wrong
      · exact .pure (by simp)

/-- A list in brackets moves, if every element moves that counts as one. -/
theorem delimited_keeps {rank : Nat} (room : scope.Room rank i)
    (here : (scope.cursor i).current = opener)
    (proper : opener ≠ .eof ∧ closer ≠ .eof ∧ delimiter ≠ .eof) (each : Yields scope 4 element id) :
    Keeps scope i (delimited opener closer delimiter what first element) fun _ j => i < j := by
  obtain ⟨opens, closes, more⟩ := proper
  have round : Yields scope 4 (delimitedRound closer delimiter what first element) id := by
    intro j room s good here
    subst here
    refine (settles_delimitedRound (P := False) good more fun t tried => ?_).weaken
      fun _ _ _ ⟨after, moves⟩ => ⟨after, fun counts => (moves counts).resolve_right id⟩
    have same := tried.position
    exact (each _ room t (tried.after good).good same).weaken
      fun _ _ _ ⟨after, moves⟩ => ⟨after, fun counts => .inl (moves counts)⟩
  exact .moved room (.consume_moves here opens) fun _ => .bind (.loop round) fun _ => .require closes

end Delimited

end LosslessJava.Grammar
