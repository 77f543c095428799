import LosslessJava.Proofs.LayoutVariants
import LosslessJava.Proofs.SettlingRules
import LosslessJava.Proofs.Nodes

/-! Runs whose way is known. A rule that is told what stands ahead gives an answer, reports nothing and
records a row of shapes for the tokens it takes; its run is followed step by step. -/

namespace LosslessJava

open LosslessJava.Parser

namespace Parser.State

open Event

/-- From one state to another, a row of shapes was recorded for the tokens between them, and nothing was
reported. -/
structure Wrote (s : State) (row : List Shape) (t : State) : Prop extends Calm s t where
  depth : t.depth = s.depth
  noLambda : t.noLambda = s.noLambda
  events : ∃ more, t.events.toList = s.events.toList ++ more ∧ Emits more (Shape.stepsAll row)
  position : t.position = s.position + ((Shape.tokensAll row).map Prod.snd).sum

variable {env : Env} {s t u v w : State} {row front back : List Shape} {kind : Kind} {first : Completed}

namespace Wrote

theorem refl : Wrote s [] s := ⟨.refl, rfl, rfl, ⟨[], by simp, .nil⟩, rfl⟩

theorem trans (one : Wrote s front t) (two : Wrote t back u) : Wrote s (front ++ back) u where
  toCalm := one.toCalm.trans two.toCalm
  depth := two.depth.trans one.depth
  noLambda := two.noLambda.trans one.noLambda
  events := by
    obtain ⟨more, recorded, emits⟩ := one.events
    obtain ⟨more', recorded', emits'⟩ := two.events
    refine ⟨more ++ more', by rw [recorded', recorded, List.append_assoc], ?_⟩
    rw [Shape.stepsAll_append]
    exact emits.append emits'
  position := by
    rw [two.position, one.position, Shape.tokensAll_append, List.map_append, List.sum_append]
    omega

theorem tried (tried : Grammar.Tried s t) : Wrote s [] t := by
  rw [tried]
  exact ⟨⟨⟨rfl, rfl⟩, fun _ => rfl⟩, rfl, rfl, ⟨[], by simp, .nil⟩, rfl⟩

theorem position_le (wrote : Wrote s row t) : s.position ≤ t.position := by
  rw [wrote.position]
  exact Nat.le_add_right _ _

private theorem push {count : Nat} (room : s.position + count < env.stream.size) (kind : Kind) :
    Wrote s [.token kind count] (s.pushToken env kind count) where
  toCalm := pushToken_calm kind count
  depth := rfl
  noLambda := rfl
  events := ⟨[.token kind count], by simp [pushToken], .token .nil⟩
  position := by
    simp only [pushToken, TokenCursor.advance, TokenCursor.index, cursor, Shape.tokensAll, Shape.tokens,
      List.append_nil, List.map_cons, List.map_nil, List.sum_cons, List.sum_nil]
    omega

end Wrote

/-- A node is completed around all that was recorded since its start. -/
theorem complete_wrote (inner : s.start.Wrote row t) (named : kind ≠ .tombstone) :
    ∃ u, t.complete s.mark kind = .ok u ∧ u.position = t.position ∧ s.Wrote [.node kind row] u ∧
      s.Roots ⟨s.mark.position, kind⟩ [.node kind row] u := by
  obtain ⟨body, recorded, emits⟩ := inner.events
  obtain ⟨events, more, completed, stretch, chain⟩ := complete_chain recorded emits named
  have calm : Calm s t := ⟨⟨inner.errorCount, inner.diagnostics⟩, inner.recovery⟩
  refine ⟨_, completed, rfl, ⟨calm.trans (complete_calm completed), inner.depth, inner.noLambda,
    ⟨more, stretch, by simpa [Shape.stepsAll] using chain.emits⟩, ?_⟩, row, more, 0, rfl, stretch, rfl, chain⟩
  simpa [Shape.tokensAll, Shape.tokens, start] using inner.position

/-- A node is started around a finished one, and completed around that and all that was recorded behind it. -/
theorem precede_wrote (before : s.Wrote front t) (roots : s.Roots first front t) :
    ∃ v, t.precede first = .ok v ∧ v.position = t.position ∧ v.depth = t.depth ∧ v.recovery = t.recovery ∧
      ∀ {row : List Shape} {w : State} {kind : Kind}, v.Wrote row w → kind ≠ .tombstone →
        ∃ u, w.complete t.mark kind = .ok u ∧ u.position = w.position ∧ s.Wrote [.node kind (front ++ row)] u ∧
          s.Roots ⟨t.mark.position, kind⟩ [.node kind (front ++ row)] u := by
  obtain ⟨children, more, head, rfl, recorded, place, chain⟩ := roots
  obtain ⟨events, preceded, completes⟩ := precede_chain recorded place chain
  refine ⟨_, preceded, rfl, rfl, rfl, fun {row w kind} inner named => ?_⟩
  obtain ⟨body, recorded', emits⟩ := inner.events
  obtain ⟨events', more', completed, stretch, head', there, around⟩ := completes recorded' emits named
  have calm := (before.toCalm.trans (precede_calm preceded)).trans (inner.toCalm.trans (complete_calm completed))
  refine ⟨_, completed, rfl, ⟨calm, inner.depth.trans before.depth, inner.noLambda.trans before.noLambda,
    ⟨more', stretch, by simpa [Shape.stepsAll] using around.emits⟩, ?_⟩, _, more', head', rfl, stretch, there, around⟩
  have one := before.position
  have two := inner.position
  simp only [Shape.tokensAll, Shape.tokens, List.append_nil, List.singleton_append, List.map_append,
    List.sum_append] at one two ⊢
  omega

private theorem release_wrote (inner : s.start.Wrote row t) : 
    ∃ u, t.release s.mark = .ok u ∧ u.position = t.position ∧ s.Wrote row u := by
  obtain ⟨body, recorded, emits⟩ := inner.events
  obtain ⟨events, more, released, stretch, left⟩ := release_emits recorded emits
  have calm : Calm s t := ⟨⟨inner.errorCount, inner.diagnostics⟩, inner.recovery⟩
  exact ⟨_, released, rfl, calm.trans (release_calm released), inner.depth, inner.noLambda,
    ⟨more, stretch, left⟩, inner.position⟩

/-- A mark stands for the same node as long as nothing is recorded. -/
theorem Roots.kept (roots : s.Roots first row t) (kept : u.events = t.events) : s.Roots first row u := by
  rw [Roots, kept]
  exact roots

end Parser.State

namespace Grammar

variable {env : Env} {α β : Type}

/-- A rule gives an answer. Of what was recorded since an earlier state, the post-condition holds. -/
def Delivers (env : Env) (base : State) {α : Type} (rule : Rule α) (s : State)
    (post : α → List Shape → State → Prop) : Prop :=
  ∃ a t, rule.exec env Grammar.rule s = some (.ok (a, t)) ∧ ∃ row, base.Wrote row t ∧ post a row t

/-- A rule whose answer is told by the tokens ahead, and that changes nothing but what was tried. -/
class Views (env : Env) {α : Type} (rule : Rule α) (answer : outParam (TokenCursor → α)) : Prop where
  views : ∀ s : State, ∃ t, rule.exec env Grammar.rule s = some (.ok (answer (s.cursor env), t)) ∧ Tried s t

section Views

instance : Views env cursor id := ⟨fun s => ⟨s, Program.exec_act _ _, rfl⟩⟩

instance {kinds : KindSet} : Views env (allow kinds) fun _ => () :=
  ⟨fun s => ⟨s.allow kinds, Program.exec_act _ _, rfl⟩⟩

instance {a : α} : Views env (Pure.pure a) fun _ => a := ⟨fun s => ⟨s, Program.exec_return _ _, rfl⟩⟩

private theorem Tried.cursor {s t : State} (tried : Tried s t) : t.cursor env = s.cursor env := by
  rw [tried]
  rfl

theorem Views.andThen {rule : Rule α} {next : α → Rule β} {answer : TokenCursor → α} (first : Views env rule answer)
    (rest : α → TokenCursor → β) (second : ∀ a, Views env (next a) (rest a)) :
    Views env (rule >>= next) fun cursor => rest (answer cursor) cursor where
  views s := by
    obtain ⟨t, ran, tried⟩ := first.views s
    obtain ⟨u, ran', tried'⟩ := (second (answer (s.cursor env))).views t
    refine ⟨u, ?_, tried.trans tried'⟩
    rw [Program.exec_bind, ran, Program.andThen_ok, ran', tried.cursor]

instance {c : Prop} [Decidable c] {yes no : Rule α} {one other : TokenCursor → α} [first : Views env yes one]
    [second : Views env no other] : Views env (if c then yes else no) fun cursor => if c then one cursor else other cursor where
  views s := by
    split
    · exact first.views s
    · exact second.views s

instance {n : Nat} : Views env (nth n) fun cursor => cursor.nth n :=
  have looks : Views env Parser.cursor id := inferInstance
  looks.andThen (fun here _ => here.nth n) fun _ => inferInstance

instance {n : Nat} {kind : Kind} : Views env (nthIs n kind) fun cursor => cursor.nth n == kind :=
  .andThen inferInstance (fun found _ => found == kind) fun _ => inferInstance

instance : Views env current fun cursor => cursor.nth 0 := inferInstanceAs (Views env (nth 0) _)

instance : Views env position fun cursor => cursor.position :=
  have looks : Views env Parser.cursor id := inferInstance
  looks.andThen (fun here _ => here.position) fun _ => inferInstance

instance {kind : Kind} : Views env (sees kind) fun cursor => cursor.nth 0 == kind :=
  .andThen inferInstance (fun _ cursor => cursor.nth 0 == kind) fun _ => inferInstance

instance {kinds : KindSet} : Views env (seesAny kinds) fun cursor => kinds.contains (cursor.nth 0) :=
  .andThen inferInstance (fun _ cursor => kinds.contains (cursor.nth 0)) fun _ =>
    .andThen inferInstance (fun found _ => kinds.contains found) fun _ => inferInstance

instance {first second : Rule Bool} {one other : TokenCursor → Bool} [Views env first one]
    [rest : Views env second other] : Views env (first <||> second) fun cursor => one cursor || other cursor :=
  .andThen inferInstance (fun found cursor => found || other cursor) fun found => by
    cases found
    · exact rest
    · exact inferInstanceAs (Views env (Pure.pure true) fun _ => true)

instance {first second : Rule Bool} {one other : TokenCursor → Bool} [Views env first one]
    [rest : Views env second other] : Views env (first <&&> second) fun cursor => one cursor && other cursor :=
  .andThen inferInstance (fun found cursor => found && other cursor) fun found => by
    cases found
    · exact inferInstanceAs (Views env (Pure.pure false) fun _ => false)
    · exact rest

end Views

namespace Delivers

variable {base s : State} {row : List Shape} {rule : Rule α} {next : α → Rule β}
  {post : α → List Shape → State → Prop} {after : β → List Shape → State → Prop}

theorem weaken {other : α → List Shape → State → Prop} (delivers : Delivers env base rule s post)
    (implies : ∀ a row t, base.Wrote row t → post a row t → other a row t) : Delivers env base rule s other := by
  obtain ⟨a, t, ran, row, wrote, holds⟩ := delivers
  exact ⟨a, t, ran, row, wrote, implies a row t wrote holds⟩

theorem pure {a : α} (before : base.Wrote row s) (holds : post a row s) :
    Delivers env base (Pure.pure a) s post := ⟨a, s, Program.exec_return _ _, row, before, holds⟩

theorem bind (first : Delivers env base rule s post)
    (rest : ∀ a row t, base.Wrote row t → post a row t → Delivers env base (next a) t after) :
    Delivers env base (rule >>= next) s after := by
  obtain ⟨a, t, ran, row, wrote, holds⟩ := first
  obtain ⟨b, u, ran', given⟩ := rest a row t wrote holds
  exact ⟨b, u, by rw [Program.exec_bind, ran, Program.andThen_ok, ran'], given⟩

/-- What a rule records comes behind what was recorded before. -/
theorem behind {own : α → List Shape → State → Prop} (before : base.Wrote row s)
    (delivers : Delivers env s rule s own)
    (implies : ∀ a back t, s.Wrote back t → own a back t → post a (row ++ back) t) :
    Delivers env base rule s post := by
  obtain ⟨a, t, ran, back, wrote, holds⟩ := delivers
  exact ⟨a, t, ran, _, before.trans wrote, implies a back t wrote holds⟩

theorem discard {post : List Shape → State → Prop} (delivers : Delivers env base rule s fun _ row t => post row t) :
    Delivers env base (Functor.discard rule) s fun _ row t => post row t :=
  bind delivers fun _ _ _ wrote holds => .pure wrote holds

theorem look {answer : TokenCursor → α} [views : Views env rule answer] (before : base.Wrote row s)
    (rest : ∀ t, Tried s t → base.Wrote row t → Delivers env base (next (answer (s.cursor env))) t after) :
    Delivers env base (rule >>= next) s after := by
  obtain ⟨t, ran, tried⟩ := views.views s
  have wrote : base.Wrote row t := by simpa using before.trans (.tried tried)
  obtain ⟨b, u, ran', given⟩ := rest t tried wrote
  exact ⟨b, u, by rw [Program.exec_bind, ran, Program.andThen_ok, ran'], given⟩

theorem call {name : Nonterminal α} (body : Delivers env base (Grammar.rule α name) s post) :
    Delivers env base (Parser.call name) s post := by
  obtain ⟨a, t, ran, given⟩ := body
  exact ⟨a, t, (Program.exec_call _ _).trans ran, given⟩

theorem nested {otherwise : α} (room : s.depth < env.options.maxDepth)
    (inner : Delivers env s.enter rule s.enter fun a row t => post a row t.leave) :
    Delivers env s (Parser.nested otherwise rule) s post := by
  obtain ⟨a, t, ran, row, wrote, holds⟩ := inner
  refine ⟨a, t.leave, ?_, row, ?_, holds⟩
  · refine (Program.exec_nested_of_lt room _ _).trans ?_
    rw [ran]
    rfl
  · have depth : t.depth = s.depth + 1 := wrote.depth
    exact ⟨⟨⟨wrote.errorCount, wrote.diagnostics⟩, wrote.recovery⟩, by simp only [State.leave]; omega,
      wrote.noLambda, wrote.events, wrote.position⟩

theorem withNoLambda {noLambda : Bool}
    (inner : Delivers env (s.withNoLambda noLambda) rule (s.withNoLambda noLambda) fun a row t =>
      post a row (t.withNoLambda s.noLambda)) : Delivers env s (Parser.withNoLambda noLambda rule) s post := by
  obtain ⟨a, t, ran, row, wrote, holds⟩ := inner
  refine ⟨a, t.withNoLambda s.noLambda, ?_, row, ?_, holds⟩
  · refine (Program.exec_withNoLambda _ _ _).trans ?_
    rw [ran]
    rfl
  · exact ⟨⟨⟨wrote.errorCount, wrote.diagnostics⟩, wrote.recovery⟩, wrote.depth, rfl, wrote.events, wrote.position⟩

theorem loopFrom {step : α → Rule (Option α)} {a : α}
    (round : Delivers env base (step a) s fun next row t =>
      match next with
      | some b => Delivers env base (Parser.loopFrom b step) t post
      | none => post a row t) : Delivers env base (Parser.loopFrom a step) s post := by
  obtain ⟨next, t, ran, row, wrote, holds⟩ := round
  cases next with
  | none => exact ⟨a, t, (Program.exec_loopFrom _ _ _).trans (by rw [ran, Program.andThen_ok]), row, wrote, holds⟩
  | some b =>
    obtain ⟨c, u, ran', given⟩ := holds
    exact ⟨c, u, (Program.exec_loopFrom _ _ _).trans (by rw [ran, Program.andThen_ok]; exact ran'), given⟩

section Nodes

variable {P : List Shape → Nat → Prop}

theorem nodeOf {rule : Rule Kind} (inner : Delivers env s.start rule s.start fun kind row t =>
      kind ≠ .tombstone ∧ P [.node kind row] t.position) :
    Delivers env s (Parser.nodeOf rule) s fun first row t => s.Roots first row t ∧ P row t.position := by
  obtain ⟨kind, t, ran, row, wrote, named, holds⟩ := inner
  obtain ⟨u, completed, still, whole, roots⟩ := State.complete_wrote wrote named
  refine ⟨⟨s.mark.position, kind⟩, u, ?_, _, whole, roots, still ▸ holds⟩
  unfold Parser.nodeOf
  rw [Program.exec_bind, start, Program.exec_act]
  simp only [Action.run, Program.andThen_ok]
  rw [Program.exec_bind, ran, Program.andThen_ok, Mark.complete, Program.exec_act]
  simp only [Action.run, completed]
  rfl

theorem around {first : Completed} {rule : Rule Kind} (before : base.Wrote row s) (roots : base.Roots first row s)
    (inner : ∀ t : State, t.position = s.position → t.depth = s.depth → t.recovery = s.recovery →
      Delivers env t rule t fun kind back u => kind ≠ .tombstone ∧ P [.node kind (row ++ back)] u.position) :
    Delivers env base (Parser.around first rule) s fun outer row t => base.Roots outer row t ∧ P row t.position := by
  obtain ⟨v, preceded, still, depth, recovery, completes⟩ := State.precede_wrote before roots
  obtain ⟨kind, t, ran, back, wrote, named, holds⟩ := inner v still depth recovery
  obtain ⟨u, completed, still, whole, roots⟩ := completes wrote named
  refine ⟨⟨s.mark.position, kind⟩, u, ?_, _, whole, roots, still ▸ holds⟩
  unfold Parser.around
  rw [Program.exec_bind, Completed.precede, Program.exec_act]
  simp only [Action.run, preceded, Except.map, Program.andThen_ok]
  rw [Program.exec_bind, ran, Program.andThen_ok, Mark.complete, Program.exec_act]
  simp only [Action.run, completed]
  rfl

theorem nodeIf {rule : Rule (Option Kind)} {Q : List Shape → Nat → Prop}
    (inner : Delivers env s.start rule s.start fun found row t =>
      match found with
      | some kind => kind ≠ .tombstone ∧ P [.node kind row] t.position
      | none => Q row t.position) :
    Delivers env s (Parser.nodeIf rule) s fun found row t =>
      match found with
      | some first => s.Roots first row t ∧ P row t.position
      | none => Q row t.position := by
  obtain ⟨found, t, ran, row, wrote, holds⟩ := inner
  cases found with
  | some kind =>
    obtain ⟨u, completed, still, whole, roots⟩ := State.complete_wrote wrote holds.1
    refine ⟨some ⟨s.mark.position, kind⟩, u, ?_, _, whole, roots, still ▸ holds.2⟩
    unfold Parser.nodeIf
    rw [Program.exec_bind, start, Program.exec_act]
    simp only [Action.run, Program.andThen_ok]
    rw [Program.exec_bind, ran, Program.andThen_ok]
    simp only [Program.exec_bind, Mark.complete, Program.exec_act, Action.run, completed]
    exact Program.exec_return _ _
  | none =>
    obtain ⟨u, released, still, whole⟩ := State.release_wrote wrote
    refine ⟨none, u, ?_, _, whole, show Q row u.position from still ▸ holds⟩
    unfold Parser.nodeIf
    rw [Program.exec_bind, start, Program.exec_act]
    simp only [Action.run, Program.andThen_ok]
    rw [Program.exec_bind, ran, Program.andThen_ok]
    simp only [Program.exec_bind, Mark.release, Program.exec_act, Action.run, released]
    exact Program.exec_return _ _

end Nodes

end Delivers

/-- Where a run is followed: how deep it is, and whether it is known that nothing went wrong before. -/
structure Level where
  depth : Nat
  sound : Bool

namespace Level

/-- A state that a run is followed from. -/
structure Holds (level : Level) (s : State) : Prop where
  depth : s.depth = level.depth
  normal : level.sound = true → s.recovery = .normal

/-- The level of what is nested. -/
@[simps]
def deeper (level : Level) : Level := { level with depth := level.depth + 1 }

variable {level : Level} {s t : State} {row : List Shape}

theorem Holds.same (holds : level.Holds s) (depth : t.depth = s.depth) (recovery : t.recovery = s.recovery) : level.Holds t :=
  ⟨depth.trans holds.depth, fun sound => recovery.trans (holds.normal sound)⟩

theorem Holds.start (holds : level.Holds s) : level.Holds s.start := holds.same rfl rfl

theorem Holds.enter (holds : level.Holds s) : level.deeper.Holds s.enter :=
  ⟨congrArg (· + 1) holds.depth, holds.normal⟩

theorem Holds.wrote (holds : level.Holds s) (wrote : s.Wrote row t) : level.Holds t :=
  ⟨wrote.depth.trans holds.depth, fun sound => by
    have normal := holds.normal sound
    exact (wrote.recovery (by simp [normal])).trans normal⟩

@[simps]
def top : Level := ⟨0, true⟩

theorem top_holds : top.Holds {} := ⟨rfl, fun _ => rfl⟩

theorem any (s : State) : Level.Holds ⟨s.depth, false⟩ s := ⟨rfl, by simp⟩

end Level

/-- A rule can be followed from an index on, where it runs at a level. -/
def Follows (env : Env) (level : Level) (i : Nat) {α : Type} (rule : Rule α) (post : α → List Shape → Nat → Prop) : Prop :=
  ∀ s : State, s.position = i → level.Holds s → Delivers env s rule s fun a row t => post a row t.position

def Forms (env : Env) (level : Level) (i : Nat) (rule : Rule Completed) (post : List Shape → Nat → Prop) : Prop :=
  ∀ s : State, s.position = i → level.Holds s →
    Delivers env s rule s fun first row t => s.Roots first row t ∧ post row t.position

def FormsSome (env : Env) (level : Level) (i : Nat) (rule : Rule (Option Completed)) (post : List Shape → Nat → Prop) : Prop :=
  ∀ s : State, s.position = i → level.Holds s →
    Delivers env s rule s fun found row t => ∃ first, found = some first ∧ s.Roots first row t ∧ post row t.position

namespace Follows

variable {level : Level} {i : Nat} {rule : Rule α} {next : α → Rule β} {post : α → List Shape → Nat → Prop}
  {after : β → List Shape → Nat → Prop}

theorem weaken {other : α → List Shape → Nat → Prop} (follows : Follows env level i rule post)
    (implies : ∀ a row j, post a row j → other a row j) : Follows env level i rule other :=
  fun s here deep => (follows s here deep).weaken fun a row t _ holds => implies a row t.position holds

theorem pure {a : α} (holds : post a [] i) : Follows env level i (Pure.pure a) post :=
  fun _ here _ => .pure .refl (here ▸ holds)

theorem bind {middle : α → List Shape → Nat → Prop} (first : Follows env level i rule middle)
    (rest : ∀ a front j, middle a front j → Follows env level j (next a) fun b row k => after b (front ++ row) k) :
    Follows env level i (rule >>= next) after := fun s here deep =>
  .bind (first s here deep) fun a front t wrote holds =>
    .behind wrote (rest a front t.position holds t rfl (deep.wrote wrote)) fun _ _ _ _ given => given

theorem discard {post : List Shape → Nat → Prop} (follows : Follows env level i rule fun _ row j => post row j) :
    Follows env level i (Functor.discard rule) fun _ row j => post row j :=
  fun s here deep => .discard (follows s here deep)

theorem forget {told : α → List Shape → Nat → Prop} (follows : Follows env level i rule told) :
    Follows env level i (Functor.discard rule) fun _ row j => ∃ a, told a row j :=
  .discard (follows.weaken fun a _ _ holds => ⟨a, holds⟩)

theorem look {answer : TokenCursor → α} [Views env rule answer]
    (rest : Follows env level i (next (answer ⟨env.stream, i⟩)) after) :
    Follows env level i (rule >>= next) after := by
  intro s here deep
  refine .look .refl fun t tried wrote => ?_
  have cursor : s.cursor env = ⟨env.stream, i⟩ := by rw [State.cursor, here]
  rw [cursor]
  exact .behind wrote (rest t (tried.position.trans here) (deep.wrote wrote)) fun _ _ _ _ given => given

theorem push {action : Action α} {a : α} {kind : Kind} {count : Nat} (room : i + count < env.stream.size)
    (run : ∀ s : State, s.position = i → action.run env s = .ok (a, s.pushToken env kind count))
    (holds : post a [.token kind count] (i + count)) : Follows env level i (.act action) post := by
  intro s here _
  have wrote : s.Wrote _ _ := .push (here ▸ room) kind
  refine ⟨a, _, (Program.exec_act _ _).trans (by rw [run s here]), _, wrote, ?_⟩
  simp only [wrote.position, here, Shape.tokensAll, Shape.tokens, List.append_nil, List.map_cons, List.map_nil,
    List.sum_cons, List.sum_nil, Nat.add_zero]
  exact holds

section Tokens

variable {kind : Kind} {told : List Shape → Nat → Prop}

/-- Behind a token that is not the end of input stands another one. -/
theorem room (here : env.stream.kindAt i = kind) (more : kind ≠ .eof) : i + 1 < env.stream.size :=
  Nat.lt_of_not_le fun behind => more (here.symm.trans (TokenStream.kind_tokenAt_of_le (by omega)))

theorem current_eq {s : State} (here : s.position = i) : s.current env = env.stream.kindAt i := by
  rw [State.current, TokenCursor.current, TokenCursor.nth_eq, State.cursor, here]
  rfl

theorem consume (here : env.stream.kindAt i = kind) (more : kind ≠ .eof) (holds : told [.token kind 1] (i + 1)) :
    Follows env level i (Parser.consume kind) fun _ row j => told row j :=
  push (a := ()) (room here more) (fun s at_i => by
    have found : s.current env = kind := (current_eq at_i).trans here
    simp [Action.run, State.consume, found, Result.done, Except.map]) holds

theorem consumeAny (here : env.stream.kindAt i = kind) (more : kind ≠ .eof) (holds : told [.token kind 1] (i + 1)) :
    Follows env level i Parser.consumeAny fun _ row j => told row j :=
  push (a := ()) (room here more) (fun s at_i => by
    have found : s.current env = kind := (current_eq at_i).trans here
    simp [Action.run, State.consumeAny, found, more]) holds

theorem join {count : Nat} (room : i + count < env.stream.size) (holds : told [.token kind count] (i + count)) :
    Follows env level i (Parser.join kind count) fun _ row j => told row j := push room (fun _ _ => rfl) holds

/-- A token is taken, and something is done behind it. -/
theorem consumeThen {next : Unit → Rule β} (here : env.stream.kindAt i = kind) (more : kind ≠ .eof)
    (rest : Follows env level (i + 1) (next ()) fun b row k => after b (.token kind 1 :: row) k) :
    Follows env level i (Parser.consume kind >>= next) after := by
  have taken : Follows env level i (Parser.consume kind) fun _ row j => row = [.token kind 1] ∧ j = i + 1 :=
    consume here more ⟨rfl, rfl⟩
  refine taken.bind fun _ front j ⟨same, there⟩ => ?_
  subst same there
  exact rest

theorem accept {told : Bool → List Shape → Nat → Prop} (here : env.stream.kindAt i = kind) (more : kind ≠ .eof)
    (holds : told true [.token kind 1] (i + 1)) : Follows env level i (Parser.accept kind) told := by
  refine .look ?_
  rw [TokenCursor.nth_eq]
  simp only [Nat.add_zero, here, beq_self_eq_true, if_true]
  have taken : Follows env level i (Parser.consume kind) fun _ row j => row = [.token kind 1] ∧ j = i + 1 :=
    consume here more ⟨rfl, rfl⟩
  exact .bind taken fun _ front j ⟨same, there⟩ => .pure (by rw [same, there]; exact holds)

/-- A token that does not stand here is not taken. -/
theorem refuse {told : Bool → List Shape → Nat → Prop} (away : env.stream.kindAt i ≠ kind) (holds : told false [] i) :
    Follows env level i (Parser.accept kind) told := by
  refine .look ?_
  rw [TokenCursor.nth_eq]
  simp only [Nat.add_zero, beq_eq_false_iff_ne.mpr away, Bool.false_eq_true, if_false]
  exact .pure holds

theorem require (here : env.stream.kindAt i = kind) (more : kind ≠ .eof) (holds : told [.token kind 1] (i + 1)) :
    Follows env level i (Parser.require kind) fun _ row j => told row j := by
  have taken : Follows env level i (Parser.accept kind) fun found row j => found = true ∧ told row j :=
    accept here more ⟨rfl, holds⟩
  refine .discard <| .bind taken fun found front j ⟨yes, holds⟩ => ?_
  subst yes
  exact .pure (by simpa using holds)

/-- A rule is passed over where its first token does not stand. -/
theorem skip {rule : Rule Unit} (away : env.stream.kindAt i ≠ kind) (holds : told [] i) :
    Follows env level i (whenSees kind rule) fun _ row j => told row j := by
  refine .look ?_
  rw [TokenCursor.nth_eq]
  simp only [Nat.add_zero, beq_eq_false_iff_ne.mpr away, Bool.false_eq_true, if_false]
  exact .pure holds

theorem whenSees {rule : Rule Unit} (here : env.stream.kindAt i = kind)
    (follows : Follows env level i rule fun _ row j => told row j) :
    Follows env level i (Parser.whenSees kind rule) fun _ row j => told row j := by
  refine .look ?_
  rw [TokenCursor.nth_eq]
  simp only [Nat.add_zero, here, beq_self_eq_true, if_true]
  exact follows

end Tokens

theorem call {name : Nonterminal α} (body : Follows env level i (Grammar.rule α name) post) :
    Follows env level i (Parser.call name) post := fun s here deep => .call (body s here deep)

theorem nested {otherwise : α} (room : level.depth < env.options.maxDepth)
    (inner : Follows env level.deeper i rule post) : Follows env level i (Parser.nested otherwise rule) post :=
  fun s here deep => .nested (deep.depth ▸ room) (inner s.enter here deep.enter)

theorem withNoLambda {noLambda : Bool} (inner : Follows env level i rule post) :
    Follows env level i (Parser.withNoLambda noLambda rule) post :=
  fun s here deep => .withNoLambda (inner (s.withNoLambda noLambda) here (deep.same rfl rfl))

/-- A rule that can be followed forms the node around what it records. -/
theorem forms_node {kind : Kind} {rule : Rule Unit} {post : List Shape → Nat → Prop} (named : kind ≠ .tombstone)
    (inner : Follows env level i rule fun _ row j => post [.node kind row] j) :
    Forms env level i (Parser.node kind rule) post := fun s here deep => by
  have body : Delivers env s.start (do rule; return kind) s.start fun found row t =>
      found ≠ .tombstone ∧ post [.node found row] t.position :=
    .bind (inner s.start here deep.start) fun _ _ _ wrote holds => .pure wrote ⟨named, holds⟩
  exact Delivers.nodeOf body

theorem node {kind : Kind} {rule : Rule Unit} {post : List Shape → Nat → Prop} (named : kind ≠ .tombstone)
    (inner : Follows env level i rule fun _ row j => post [.node kind row] j) :
    Follows env level i (Functor.discard (Parser.node kind rule)) fun _ row j => post row j := fun s here deep =>
  .discard ((forms_node named inner s here deep).weaken fun _ _ _ _ ⟨_, holds⟩ => holds)

theorem loopFrom {a b : α} {step : Rule Bool} (round : Follows env level i step fun more row j =>
      if more then Follows env level j (Parser.loopFrom b fun _ => stepTo b step) fun c back k => post c (row ++ back) k
      else post a row j) : Follows env level i (Parser.loopFrom a fun _ => stepTo b step) post := fun s here deep =>
  .loopFrom <| .bind (round s here deep) fun more front t wrote holds => by
    cases more with
    | false => exact .pure wrote holds
    | true =>
      refine .pure wrote ?_
      exact .behind wrote (holds t rfl (deep.wrote wrote)) fun _ _ _ _ given => given

theorem loop {step : Rule Bool} {told : List Shape → Nat → Prop} (round : Follows env level i step fun more row j =>
      if more then Follows env level j (Parser.loop step) fun _ back k => told (row ++ back) k else told row j) :
    Follows env level i (Parser.loop step) fun _ row j => told row j := .loopFrom round

theorem loopOn {step : Rule Bool} {told middle : List Shape → Nat → Prop}
    (round : Follows env level i step fun more row j => more = true ∧ middle row j)
    (rest : ∀ row j, middle row j → Follows env level j (Parser.loop step) fun _ back k => told (row ++ back) k) :
    Follows env level i (Parser.loop step) fun _ row j => told row j :=
  .loop <| round.weaken fun more row j ⟨yes, holds⟩ => by
    subst yes
    exact rest row j holds

theorem loopEnd {step : Rule Bool} {told : List Shape → Nat → Prop}
    (round : Follows env level i step fun more row j => more = false ∧ told row j) :
    Follows env level i (Parser.loop step) fun _ row j => told row j :=
  .loop <| round.weaken fun more _ _ ⟨no, holds⟩ => by
    subst no
    exact holds

end Follows

section Lists

variable {level : Level} {i j : Nat} {opener closer delimiter : Kind} {what : String} {first : KindSet} {element : Rule Bool}

structure Starts (closer delimiter found : Kind) : Prop where
  closer : found ≠ closer
  ended : found ≠ .eof
  delimiter : found ≠ delimiter

private theorem delimitedRound_element {post : Bool → List Shape → Nat → Prop} {middle : List Shape → Nat → Prop}
    (starts : Starts closer delimiter (env.stream.kindAt i))
    (reads : Follows env level i element fun found row j => found = true ∧ middle row j)
    (rest : ∀ row j, middle row j → Follows env level j (do
      if ← accept delimiter then
        return true
      else if ← seesAny first then
        require delimiter
        return true
      else
        return false) fun more back k => post more (row ++ back) k) :
    Follows env level i (delimitedRound closer delimiter what first element) post := by
  refine .look ?_
  have inside : ((⟨env.stream, i⟩ : TokenCursor).nth 0 == closer || (⟨env.stream, i⟩ : TokenCursor).nth 0 == .eof) = false := by
    simp only [TokenCursor.nth_eq, Nat.add_zero, Bool.or_eq_false_iff, beq_eq_false_iff_ne]
    exact ⟨starts.closer, starts.ended⟩
  rw [inside]
  refine .look ?_
  have element : ((⟨env.stream, i⟩ : TokenCursor).nth 0 == delimiter) = false := by
    simp only [TokenCursor.nth_eq, Nat.add_zero, beq_eq_false_iff_ne]
    exact starts.delimiter
  rw [element]
  refine reads.bind fun found row j ⟨yes, holds⟩ => ?_
  subst yes
  exact rest row j holds

theorem delimitedRound_more {post : Bool → List Shape → Nat → Prop}
    (starts : Starts closer delimiter (env.stream.kindAt i)) (proper : delimiter ≠ .eof)
    (there : env.stream.kindAt j = delimiter)
    (reads : Follows env level i element fun found row k =>
      found = true ∧ k = j ∧ post true (row ++ [.token delimiter 1]) (j + 1)) :
    Follows env level i (delimitedRound closer delimiter what first element) post := by
  refine delimitedRound_element starts reads fun row k ⟨same, holds⟩ => ?_
  subst same
  have taken : Follows env level k (accept delimiter) fun found back l =>
      found = true ∧ back = [.token delimiter 1] ∧ l = k + 1 := .accept there proper ⟨rfl, rfl, rfl⟩
  refine taken.bind fun found back l ⟨yes, wrote, moved⟩ => ?_
  subst yes wrote moved
  exact .pure (by simpa using holds)

theorem delimitedRound_last {post : Bool → List Shape → Nat → Prop}
    (starts : Starts closer delimiter (env.stream.kindAt i)) (away : env.stream.kindAt j ≠ delimiter)
    (single : first.contains (env.stream.kindAt j) = false)
    (reads : Follows env level i element fun found row k => found = true ∧ k = j ∧ post false row j) :
    Follows env level i (delimitedRound closer delimiter what first element) post := by
  refine delimitedRound_element starts reads fun row k ⟨same, holds⟩ => ?_
  subst same
  have refused : Follows env level k (accept delimiter) fun found back l => found = false ∧ back = [] ∧ l = k :=
    .refuse away ⟨rfl, rfl, rfl⟩
  refine refused.bind fun found back l ⟨no, wrote, still⟩ => ?_
  subst no wrote still
  refine .look ?_
  rw [TokenCursor.nth_eq, Nat.add_zero, single]
  exact .pure (by simpa using holds)

/-- Where the closing bracket stands, there is no element. -/
theorem delimitedRound_closed (here : env.stream.kindAt i = closer) :
    Follows env level i (delimitedRound closer delimiter what first element) fun more _ k => more = false ∧ k = i := by
  refine .look ?_
  rw [TokenCursor.nth_eq, Nat.add_zero, here, if_pos (by simp)]
  exact .pure ⟨rfl, rfl⟩

/-- A list, if its elements can be followed from behind the opening bracket up to the closing one. -/
theorem delimited_follows {post : List Shape → Nat → Prop} (here : env.stream.kindAt i = opener)
    (there : env.stream.kindAt j = closer) (proper : opener ≠ .eof ∧ closer ≠ .eof)
    (elements : Follows env level (i + 1) (loop (delimitedRound closer delimiter what first element)) fun _ row k =>
      k = j ∧ post (.token opener 1 :: (row ++ [.token closer 1])) (j + 1)) :
    Follows env level i (delimited opener closer delimiter what first element) fun _ row k => post row k := by
  refine .consumeThen here proper.1 <| elements.bind fun _ row k ⟨same, holds⟩ => ?_
  subst same
  exact .require there proper.2 holds

end Lists

end Grammar

end LosslessJava
