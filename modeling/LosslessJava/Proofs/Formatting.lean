import LosslessJava.Parse
import LosslessJava.Proofs.Invariants
import LosslessJava.Proofs.Traversal
import Mathlib.Data.List.Forall2

/-! Runs over two token streams that differ in layout only. As no rule tells such streams apart, the runs go
the same way: both stop for the same reason, or both record the same and complain of the same tokens. -/

namespace LosslessJava

/-- Two answers that go together: no result for the same reason, or results that belong together. -/
inductive Both {ε α β : Type} (related : α → β → Prop) : Except ε α → Except ε β → Prop where
  | ok {a b} (holds : related a b) : Both related (.ok a) (.ok b)
  | error {reason} : Both related (.error reason) (.error reason)

/-- Two complaints that say the same about the same token, wherever it lies. -/
structure Diagnostic.Alike (d e : Diagnostic) : Prop where
  kind : d.kind = e.kind
  message : d.message = e.message
  tokenIndex : d.tokenIndex = e.tokenIndex
  expected : d.expected = e.expected

namespace Both

variable {ε α β γ δ : Type} {related : α → β → Prop} {other : γ → δ → Prop} {one : Except ε α} {two : Except ε β}

theorem map {f : α → γ} {g : β → δ} (both : Both related one two) (same : ∀ a b, related a b → other (f a) (g b)) :
    Both other (one.map f) (two.map g) := by
  cases both with
  | ok holds => exact .ok (same _ _ holds)
  | error => exact .error

theorem bind {f : α → Except ε γ} {g : β → Except ε δ} (both : Both related one two)
    (same : ∀ a b, related a b → Both other (f a) (g b)) : Both other (one >>= f) (two >>= g) := by
  cases both with
  | ok holds => exact same _ _ holds
  | error => exact .error

end Both

namespace Parser

structure Env.Alike (one two : Env) : Prop where
  stream : one.stream.Alike two.stream
  options : one.options = two.options

namespace State

def Alike (s t : State) : Prop :=
  ∃ diagnostics : Array Diagnostic, List.Forall₂ Diagnostic.Alike s.diagnostics.toList diagnostics.toList ∧
    t = { s with diagnostics }

variable {one two : Env} {s t : State}

theorem Alike.cursor (alike : s.Alike t) (env : one.Alike two) : (s.cursor one).Alike (t.cursor two) := by
  obtain ⟨_, -, rfl⟩ := alike
  exact ⟨env.stream, rfl⟩

theorem Alike.current (alike : s.Alike t) (env : one.Alike two) : s.current one = t.current two :=
  (alike.cursor env).current

theorem Alike.pushToken (alike : s.Alike t) (env : one.Alike two) (kind : Kind) (count : Nat) :
    (s.pushToken one kind count).Alike (t.pushToken two kind count) := by
  obtain ⟨diagnostics, told, rfl⟩ := alike
  refine ⟨diagnostics, told, ?_⟩
  simp only [State.pushToken, TokenCursor.advance, TokenCursor.index, State.cursor, env.stream.size]

theorem Alike.withRecovery (alike : s.Alike t) (recovery : RecoveryState) :
    (s.withRecovery recovery).Alike (t.withRecovery recovery) := by
  obtain ⟨diagnostics, told, rfl⟩ := alike
  exact ⟨diagnostics, told, rfl⟩

theorem Alike.start (alike : s.Alike t) : s.start.Alike t.start := by
  obtain ⟨diagnostics, told, rfl⟩ := alike
  exact ⟨diagnostics, told, rfl⟩

private theorem Alike.count (alike : s.Alike t) : s.count.Alike t.count := by
  obtain ⟨diagnostics, told, rfl⟩ := alike
  exact ⟨diagnostics, told, rfl⟩

theorem Alike.recovery (alike : s.Alike t) : s.recovery = t.recovery := by
  obtain ⟨diagnostics, told, rfl⟩ := alike
  rfl

theorem Alike.mark (alike : s.Alike t) : s.mark = t.mark := by
  obtain ⟨diagnostics, told, rfl⟩ := alike
  rfl

theorem Alike.complete (alike : s.Alike t) (mark : Mark) (kind : Kind) :
    Both State.Alike (s.complete mark kind) (t.complete mark kind) := by
  obtain ⟨diagnostics, told, rfl⟩ := alike
  unfold State.complete
  dsimp only
  split
  · exact .ok ⟨diagnostics, told, rfl⟩
  · exact .error

private theorem Alike.release (alike : s.Alike t) (mark : Mark) : Both State.Alike (s.release mark) (t.release mark) := by
  obtain ⟨diagnostics, told, rfl⟩ := alike
  unfold State.release
  dsimp only
  split
  · split
    · exact .ok ⟨diagnostics, told, rfl⟩
    · exact .error
  · exact .ok ⟨diagnostics, told, rfl⟩

private theorem Alike.precede (alike : s.Alike t) (first : Completed) :
    Both State.Alike (s.precede first) (t.precede first) := by
  obtain ⟨diagnostics, told, rfl⟩ := alike
  dsimp only [State.precede, State.start, State.mark]
  split
  · exact .ok ⟨diagnostics, told, rfl⟩
  · exact .error

private theorem Alike.consume (alike : s.Alike t) (env : one.Alike two) (kind : Kind) :
    Both State.Alike (s.consume one kind) (t.consume two kind) := by
  unfold State.consume
  rw [← alike.current env]
  split
  · exact .ok (alike.pushToken env kind 1)
  · exact .error

private theorem Alike.consumeAs (alike : s.Alike t) (env : one.Alike two) (keyword : Kind) :
    Both State.Alike (s.consumeAs one keyword) (t.consumeAs two keyword) := by
  unfold State.consumeAs
  rw [← alike.current env]
  split
  · exact .ok (alike.pushToken env keyword 1)
  · exact .error

theorem Alike.consumeAny (alike : s.Alike t) (env : one.Alike two) : (s.consumeAny one).Alike (t.consumeAny two) := by
  unfold State.consumeAny
  rw [← alike.current env]
  split
  · exact alike
  · exact alike.pushToken env _ 1

private theorem Alike.consumeRest (alike : s.Alike t) (env : one.Alike two) : (s.consumeRest one).Alike (t.consumeRest two) := by
  fun_induction State.consumeRest one s generalizing t with
  | case1 s ended =>
    unfold State.consumeRest
    rwa [if_pos (alike.current env ▸ ended)]
  | case2 s more ih =>
    rw [State.consumeRest.eq_def two t, if_neg (alike.current env ▸ more), ← alike.current env]
    exact ih (alike.pushToken env _ 1)

theorem Alike.abandon (alike : s.Alike t) (env : one.Alike two) : Both State.Alike (s.abandon one) (t.abandon two) := by
  have given := alike.withRecovery .abandoned
  unfold State.abandon
  dsimp only
  rw [← alike.recovery, ← alike.current env, ← alike.mark]
  split
  · exact .ok alike
  · split
    · exact .ok given
    · exact (given.start.consumeRest env).complete _ _

private theorem Alike.isTold (alike : s.Alike t) : s.isTold = t.isTold := by
  obtain ⟨diagnostics, told, rfl⟩ := alike
  have indices : s.diagnostics.toList.map Diagnostic.tokenIndex = diagnostics.toList.map Diagnostic.tokenIndex := by
    rw [← List.forall₂_eq_eq_eq, List.forall₂_map_left_iff, List.forall₂_map_right_iff]
    exact told.imp fun _ _ alike => alike.tokenIndex
  have last : s.diagnostics.back?.map Diagnostic.tokenIndex = diagnostics.back?.map Diagnostic.tokenIndex := by
    rw [← Array.getLast?_toList, ← Array.getLast?_toList, ← List.getLast?_map, ← List.getLast?_map, indices]
  simp only [State.isTold, last]

private theorem Alike.tell (alike : s.Alike t) (issue : Issue) : (s.tell one issue).Alike (t.tell two issue) := by
  obtain ⟨diagnostics, told, rfl⟩ := alike
  refine ⟨diagnostics.push (State.diagnose two { s with diagnostics } issue), ?_, rfl⟩
  simp only [State.tell, Array.toList_push]
  exact List.rel_append told (.cons ⟨rfl, rfl, rfl, rfl⟩ .nil)

theorem Alike.report (alike : s.Alike t) (env : one.Alike two) (issue : Issue) :
    Both State.Alike (s.report one issue) (t.report two issue) := by
  have counted := alike.count
  unfold State.report
  dsimp only
  rw [← counted.isTold, ← env.options]
  split
  · exact .ok counted
  · split
    · exact (counted.tell issue).abandon env
    · exact .ok (counted.tell issue)

private theorem Alike.reportAndSkip (alike : s.Alike t) (env : one.Alike two) (issue : Issue) :
    Both State.Alike (s.reportAndSkip one issue) (t.reportAndSkip two issue) := by
  refine (alike.report env issue).bind fun u v alike => ?_
  rw [← alike.current env, ← alike.recovery, ← alike.mark]
  split
  · exact .ok alike
  · exact (alike.start.consumeAny env).complete _ _

theorem Alike.skipToken (alike : s.Alike t) (env : one.Alike two) : (s.skipToken one).Alike (t.skipToken two) := by
  unfold State.skipToken
  rw [← alike.current env]
  exact (alike.pushToken env _ 1).withRecovery _

private theorem Alike.skipBraces (alike : s.Alike t) (env : one.Alike two) (depth : Nat) :
    (s.skipBraces one depth).Alike (t.skipBraces two depth) := by
  fun_induction State.skipBraces one depth s generalizing t with
  | case1 depth s ended =>
    unfold State.skipBraces
    rwa [if_pos (alike.current env ▸ ended)]
  | case2 depth s more inner =>
    rename_i last
    rw [State.skipBraces.eq_def two _ t, if_neg (alike.current env ▸ more), ← alike.current env]
    exact (if_pos last).symm ▸ alike.skipToken env
  | case3 depth s more inner deeper =>
    rename_i ih
    rw [State.skipBraces.eq_def two _ t, if_neg (alike.current env ▸ more), ← alike.current env]
    exact (if_neg deeper).symm ▸ ih (alike.skipToken env)

private theorem Alike.skipOne (alike : s.Alike t) (env : one.Alike two) : (s.skipOne one).Alike (t.skipOne two) := by
  unfold State.skipOne
  rw [← alike.current env]
  split
  · exact alike.skipBraces env 0
  · exact alike.skipToken env

theorem Alike.atSync (alike : s.Alike t) (env : one.Alike two) (recovery : KindSet) :
    s.atSync one recovery = t.atSync two recovery := by
  simp only [State.atSync, alike.current env]

private theorem Alike.skipTo (alike : s.Alike t) (env : one.Alike two) (recovery : KindSet) :
    (s.skipTo one recovery).Alike (t.skipTo two recovery) := by
  fun_induction State.skipTo one recovery s generalizing t with
  | case1 s here =>
    unfold State.skipTo
    rwa [if_pos (alike.atSync env recovery ▸ here)]
  | case2 s away ih =>
    rw [State.skipTo.eq_def two recovery t, if_neg (alike.atSync env recovery ▸ away)]
    exact ih (alike.skipOne env)

private theorem Alike.settleAt (alike : s.Alike t) (env : one.Alike two) (recovery : KindSet) :
    Both State.Alike (s.settleAt one recovery) (t.settleAt two recovery) := by
  unfold State.settleAt
  rw [← alike.current env]
  split
  · exact (alike.report env _).bind fun u v alike => .ok (alike.withRecovery _)
  · exact .ok alike

private theorem Alike.recover (alike : s.Alike t) (env : one.Alike two) (recovery : KindSet) :
    Both State.Alike (s.recover one recovery) (t.recover two recovery) := by
  unfold State.recover
  rw [← alike.recovery, ← alike.atSync env, ← alike.mark]
  split
  · exact .ok alike
  · refine (((alike.withRecovery _).start.skipTo env recovery).complete _ _).bind fun u v alike => ?_
    exact (alike.withRecovery _).settleAt env recovery

private theorem Alike.abandonNested (alike : s.Alike t) (env : one.Alike two) :
    Both State.Alike (s.abandonNested one) (t.abandonNested two) := by
  unfold State.abandonNested
  rw [← alike.recovery, ← env.options]
  split
  · exact .ok alike
  · exact (alike.report env _).bind fun u v alike => alike.abandon env

private theorem Alike.allow (alike : s.Alike t) (kinds : KindSet) : (s.allow kinds).Alike (t.allow kinds) := by
  obtain ⟨diagnostics, told, rfl⟩ := alike
  exact ⟨diagnostics, told, rfl⟩

private theorem Alike.enter (alike : s.Alike t) : s.enter.Alike t.enter := by
  obtain ⟨diagnostics, told, rfl⟩ := alike
  exact ⟨diagnostics, told, rfl⟩

private theorem Alike.leave (alike : s.Alike t) : s.leave.Alike t.leave := by
  obtain ⟨diagnostics, told, rfl⟩ := alike
  exact ⟨diagnostics, told, rfl⟩

private theorem Alike.depth (alike : s.Alike t) : s.depth = t.depth := by
  obtain ⟨diagnostics, told, rfl⟩ := alike
  rfl

private theorem Alike.withNoLambda (alike : s.Alike t) (noLambda : Bool) :
    (s.withNoLambda noLambda).Alike (t.withNoLambda noLambda) := by
  obtain ⟨diagnostics, told, rfl⟩ := alike
  exact ⟨diagnostics, told, rfl⟩

theorem Alike.noLambda (alike : s.Alike t) : s.noLambda = t.noLambda := by
  obtain ⟨diagnostics, told, rfl⟩ := alike
  rfl

private theorem Alike.errorCount (alike : s.Alike t) : s.errorCount = t.errorCount := by
  obtain ⟨diagnostics, told, rfl⟩ := alike
  rfl

end State

def Result.Alike {α : Type} : Result α → Result α → Prop := Both fun r q => r.1 = q.1 ∧ r.2.Alike q.2

section Runs

variable {one two : Env} {s t u v : State} {α : Type}

private theorem Result.done_alike {after other : Except Halt State} (both : Both State.Alike after other) :
    (Result.done after).Alike (.done other) :=
  both.map fun _ _ alike => ⟨rfl, alike⟩

private theorem Result.map_alike {after other : Except Halt State} (a : α) (both : Both State.Alike after other) :
    Result.Alike (after.map fun s => (a, s)) (other.map fun s => (a, s)) :=
  both.map fun _ _ alike => ⟨rfl, alike⟩

private theorem Result.Alike.of_ok {a : α} {q : Result α} (alike : Result.Alike (.ok (a, u)) q) :
    ∃ v, q = .ok (a, v) ∧ u.Alike v := by
  obtain ⟨rfl, alike⟩ := alike
  exact ⟨_, rfl, alike⟩

private theorem Result.Alike.of_error {halt : Halt} {q : Result α} (alike : Result.Alike (.error halt) q) :
    q = .error halt := by
  cases alike
  rfl

def Action.readsCursor : {α : Type} → Action α → Bool
  | _, .cursor => true
  | _, _ => false

private theorem Action.run_alike {action : Action α} (steady : action.readsCursor = false) (env : one.Alike two)
    (alike : s.Alike t) : Result.Alike (action.run one s) (action.run two t) := by
  cases action with
  | cursor => cases steady
  | join kind count => exact .ok ⟨rfl, alike.pushToken env kind count⟩
  | noLambda => exact .ok ⟨alike.noLambda, alike⟩
  | lookaheadLimit => exact .ok ⟨by rw [env.options], alike⟩
  | allow kinds => exact .ok ⟨rfl, alike.allow kinds⟩
  | consume kind => exact Result.done_alike (alike.consume env kind)
  | consumeAny => exact .ok ⟨rfl, alike.consumeAny env⟩
  | consumeAs keyword => exact Result.done_alike (alike.consumeAs env keyword)
  | report issue => exact Result.done_alike (alike.report env issue)
  | reportAndSkip issue => exact Result.done_alike (alike.reportAndSkip env issue)
  | recover recovery => exact Result.done_alike (alike.recover env recovery)
  | start => exact .ok ⟨alike.mark, alike.start⟩
  | complete mark kind => exact Result.map_alike _ (alike.complete mark kind)
  | release mark => exact Result.done_alike (alike.release mark)
  | precede first =>
    show Result.Alike ((s.precede first).map _) ((t.precede first).map _)
    rw [← alike.mark]
    exact Result.map_alike _ (alike.precede first)

namespace Program

open Grammar (Nonterminal)

def MakesAt (here : Option TokenCursor) (token : Kind × Nat) : Prop := ∃ cursor ∈ here, Makes cursor token.1 token.2

/-- A rule that does not tell apart streams that differ in layout only: what it reads from the cursor does
not, and it joins tokens only where they make up one. It may be known at which cursor it is run. -/
inductive Blind : Option TokenCursor → {α : Type} → Program Nonterminal α → Prop where
  | pure {here} {α : Type} {a : α} : Blind here (.pure a)
  | act {here} {α : Type} {action : Action α} (steady : action.readsCursor = false)
      (joins : action.Joins (MakesAt here)) : Blind here (.act action)
  | bind {here} {α β : Type} {first : Program Nonterminal β} {next : β → Program Nonterminal α}
      (one : Blind here first) (two : ∀ b, Blind none (next b)) : Blind here (.bind first next)
  | look {here} {α : Type} {next : TokenCursor → Program Nonterminal α}
      (same : ∀ {c d : TokenCursor}, c.Alike d → next c = next d) (two : ∀ c, Blind (some c) (next c)) :
      Blind here (.bind (.act .cursor) next)
  | precede {here} {α : Type} {first : Completed} {next : Mark → Program Nonterminal α}
      (two : ∀ mark, Blind here (next mark)) : Blind here (.bind (.act (.precede first)) next)
  | loopFrom {here} {α : Type} {a : α} {step : α → Program Nonterminal (Option α)}
      (round : ∀ a, Blind none (step a)) : Blind here (.loopFrom a step)
  | nested {here} {α : Type} {otherwise : α} {rule : Program Nonterminal α} (inner : Blind none rule) :
      Blind here (.nested otherwise rule)
  | withNoLambda {here} {α : Type} {noLambda : Bool} {rule : Program Nonterminal α} (inner : Blind none rule) :
      Blind here (.withNoLambda noLambda rule)
  | speculate {here} {rule : Program Nonterminal (Option Completed)} (inner : Blind none rule) :
      Blind here (.speculate rule)
  | call {here} {α : Type} {name : Nonterminal α} (short : name.isShort = true) : Blind here (.call name)

theorem Blind.anywhere {here other : Option TokenCursor} {rule : Program Nonterminal α} (blind : Blind here rule)
    (unknown : here = none) : Blind other rule := by
  induction blind generalizing other with
  | pure => exact .pure
  | @act _ _ action steady joins =>
    refine .act steady ?_
    cases action with
    | join =>
      obtain ⟨cursor, known, -⟩ := joins
      cases unknown ▸ known
    | _ => trivial
  | bind _ two one => exact .bind (one unknown) two
  | look same two => exact .look same two
  | precede _ two => exact .precede fun mark => two mark unknown
  | loopFrom round => exact .loopFrom round
  | nested inner => exact .nested inner
  | withNoLambda inner => exact .withNoLambda inner
  | speculate inner => exact .speculate inner
  | call short => exact .call short

theorem Blind.plain {here : Option TokenCursor} {action : Action α} (plain : action.isPlain = true) :
    Blind here (.act action) := by
  cases action with
  | cursor | join | consumeAs => cases plain
  | _ => exact .act rfl trivial

def blind : Compositional Nonterminal where
  Holds here _ _ rule := Blind here.cursor? rule
  pure := .pure
  act := .plain
  join makes := .act rfl ⟨_, rfl, makes⟩
  consumeAs := .act rfl trivial
  stands _ holds := holds.anywhere rfl
  bind word _ one two := .bind one fun b => (two b).anywhere (by cases word b <;> rfl)
  look := .look
  precede := .precede
  loopFrom := .loopFrom
  nested := .nested
  withNoLambda := .withNoLambda
  speculate := .speculate

end Program

instance : Grammar.Callable Program.blind := ⟨.call⟩

instance : Grammar.Links Program.blind := Grammar.links_of_flat (fun holds => Program.Blind.anywhere holds rfl) (.act rfl trivial)

theorem rule_blind (name : Grammar.Nonterminal α) (short : name.isShort = true) :
    Program.Blind none (Grammar.rule α name) :=
  (Grammar.rule_has short : Has Program.blind .nothing (0 + 87) (Grammar.rule α name)).holds

namespace Program

open Grammar (Nonterminal)

private theorem settle_alike {found other : Option Completed} (same : found = other) (before : s.Alike t)
    (after : u.Alike v) :
    (settle s found u).1 = (settle t other v).1 ∧ (settle s found u).2.Alike (settle t other v).2 := by
  subst same
  unfold settle
  rw [← before.errorCount, ← after.errorCount]
  split
  · exact ⟨rfl, after⟩
  · exact ⟨rfl, before⟩

/-- A rule that does not tell streams apart which differ in layout only comes to the same in both. -/
theorem Evaluates.alike {rule : Program Nonterminal α} {here : Option TokenCursor} {r : Result α}
    (run : Evaluates one Grammar.rule rule s r) (env : one.Alike two) (blind : Blind here rule)
    (alike : s.Alike t) : ∃ q, Evaluates two Grammar.rule rule t q ∧ r.Alike q := by
  induction run generalizing t here with
  | pure => exact ⟨_, .pure, .ok ⟨rfl, alike⟩⟩
  | @act α action s =>
    refine ⟨_, .act, ?_⟩
    cases blind with
    | act steady => exact action.run_alike steady env alike
  | bind ran _ first second =>
    cases blind with
    | bind one two =>
      obtain ⟨q, ran', both⟩ := first one alike
      obtain ⟨v, rfl, alike⟩ := both.of_ok
      obtain ⟨q, run', both⟩ := second (two _) alike
      exact ⟨q, .bind ran' run', both⟩
    | look same two =>
      -- Each stream has a cursor of its own, so the answers are not the same.
      cases Option.some.inj ((exec_act _ _).symm.trans ran.exec_eq)
      obtain ⟨q, run', both⟩ := second (two _) alike
      exact ⟨q, .bind .act (by rwa [← same (alike.cursor env)]), both⟩
    | precede two =>
      obtain ⟨q, ran', both⟩ := @first _ here (.plain rfl) alike
      obtain ⟨v, rfl, alike⟩ := both.of_ok
      obtain ⟨q, run', both⟩ := second (two _) alike
      exact ⟨q, .bind ran' run', both⟩
  | bindHalt ran first =>
    cases blind with
    | bind one two =>
      obtain ⟨q, ran', both⟩ := first one alike
      obtain rfl := both.of_error
      exact ⟨_, .bindHalt ran', .error⟩
    | look => cases (exec_act _ _).symm.trans ran.exec_eq
    | precede two =>
      obtain ⟨q, ran', both⟩ := @first _ here (.plain rfl) alike
      obtain rfl := both.of_error
      exact ⟨_, .bindHalt ran', .error⟩
  | loopEnd _ round =>
    cases blind with
    | loopFrom steady =>
      obtain ⟨q, round', both⟩ := round (steady _) alike
      obtain ⟨v, rfl, alike⟩ := both.of_ok
      exact ⟨_, .loopEnd round', .ok ⟨rfl, alike⟩⟩
  | loopNext _ _ round rest =>
    cases blind with
    | loopFrom steady =>
      obtain ⟨q, round', both⟩ := round (steady _) alike
      obtain ⟨v, rfl, alike⟩ := both.of_ok
      obtain ⟨q, rest', both⟩ := @rest _ here (.loopFrom steady) alike
      exact ⟨q, .loopNext round' rest', both⟩
  | loopHalt _ round =>
    cases blind with
    | loopFrom steady =>
      obtain ⟨q, round', both⟩ := round (steady _) alike
      obtain rfl := both.of_error
      exact ⟨_, .loopHalt round', .error⟩
  | tooDeep deep =>
    refine ⟨_, .tooDeep (by rwa [← alike.depth, ← env.options]), ?_⟩
    exact Result.map_alike _ (alike.abandonNested env)
  | nested room _ inner =>
    cases blind with
    | nested within =>
      obtain ⟨q, inner', both⟩ := inner within alike.enter
      refine ⟨_, .nested (by rwa [← alike.depth, ← env.options]) inner', ?_⟩
      exact both.map fun _ _ same => ⟨same.1, same.2.leave⟩
  | withNoLambda _ inner =>
    cases blind with
    | withNoLambda within =>
      obtain ⟨q, inner', both⟩ := inner within (alike.withNoLambda _)
      refine ⟨_, .withNoLambda inner', ?_⟩
      exact both.map fun _ _ same => ⟨same.1, alike.noLambda ▸ same.2.withNoLambda _⟩
  | speculate _ inner =>
    cases blind with
    | speculate within =>
      obtain ⟨q, inner', both⟩ := inner within alike
      exact ⟨_, .speculate inner', both.map fun _ _ same => settle_alike same.1 alike same.2⟩
  | call _ body =>
    cases blind with
    | call short =>
      obtain ⟨q, run', both⟩ := body (rule_blind _ short) alike
      exact ⟨q, .call run', both⟩

end Program

end Runs

end Parser

end LosslessJava
