import LosslessJava.Proofs.NamedRules

/-! What a proof for a rule of the grammar promises: from any good state at an index of the stream, the
rule settles, in a good state at an index where the postcondition holds. What is recorded and how
states change otherwise is taken care of by the steps. -/

namespace LosslessJava.Grammar

open LosslessJava.Parser

variable {scope : Scope} {α β : Type} {i : Nat}

def Keeps (scope : Scope) (i : Nat) (rule : Rule α) (post : α → Nat → Prop) : Prop :=
  ∀ s : State, s.Good scope.env → s.position = i →
    scope.Settles rule s fun a t => State.After scope.env s t ∧ post a t.position

/-- A rule that may stand anywhere, where there is room for it. -/
def Steady (scope : Scope) (rank : Nat) (rule : Rule α) : Prop :=
  ∀ i, scope.Room rank i → Keeps scope i rule fun _ _ => True

def Answers (scope : Scope) (rank : Nat) (rule : Rule α) (tells : α → Prop) : Prop :=
  ∀ i, scope.Room rank i → Keeps scope i rule fun a _ => tells a

/-- What a rule answers that may tell a kind for the node around it. -/
def NodeKind (kind : Option Kind) : Prop := ∀ k, kind = some k → k.isNode

/-- A rule that moves if its answer tells so. -/
def Yields (scope : Scope) (rank : Nat) (rule : Rule α) (tells : α → Bool) : Prop :=
  ∀ i, scope.Room rank i → Keeps scope i rule fun a j => tells a → i < j

/-- A state that differs in what was tried at the current token. -/
def Tried (s t : State) : Prop := t = { s with expected := t.expected }

def Looks (scope : Scope) (i : Nat) (rule : Rule α) (answer : α) : Prop :=
  ∀ s : State, s.Good scope.env → s.position = i →
    scope.Settles rule s fun a t => a = answer ∧ Tried s t

namespace Tried

variable {env : Env} {s t u : State}

theorem position (tried : Tried s t) : t.position = s.position := by rw [tried]

theorem events (tried : Tried s t) : t.events = s.events := by rw [tried]

theorem after (tried : Tried s t) (good : s.Good env) : State.After env s t := by
  rw [tried]
  exact ⟨.of_eq rfl rfl rfl rfl, good.inside, good.ended, good.strict⟩

theorem trans (first : Tried s t) (second : Tried t u) : Tried s u := by
  rw [first] at second
  exact second

theorem heads {first : Completed} (tried : Tried s t) (heads : u.Heads first s) : u.Heads first t :=
  heads.kept tried.events

theorem heads_from {first : Completed} (tried : Tried s t) (heads : t.Heads first u) :
    s.Heads first u := heads.from tried.events

theorem current (tried : Tried s t) : t.current env = s.current env := by
  rw [tried]
  rfl

end Tried

private theorem Looks.keeps {rule : Rule α} {answer : α} (looks : Looks scope i rule answer) :
    Keeps scope i rule fun a j => a = answer ∧ j = i := fun s good here =>
  (looks s good here).weaken fun _ _ _ ⟨same, tried⟩ =>
    ⟨tried.after good, same, tried.position.trans here⟩

namespace Keeps

variable {rule : Rule α} {post : α → Nat → Prop}

theorem weaken {other : α → Nat → Prop} (keeps : Keeps scope i rule post)
    (implies : ∀ a j, i ≤ j → post a j → other a j) : Keeps scope i rule other := by
  intro s good here
  refine (keeps s good here).weaken fun a t _ ⟨after, holds⟩ => ⟨after, implies a _ ?_ holds⟩
  have := after.position_le
  omega

theorem pure {a : α} (holds : post a i) : Keeps scope i (Pure.pure a) post := fun _ good here =>
  .pure ⟨.refl good, here ▸ holds⟩

theorem bind {first : Rule β} {next : β → Rule α} {middle : β → Nat → Prop}
    (start : Keeps scope i first middle)
    (goes : ∀ a j, i ≤ j → j < scope.env.stream.size → middle a j → Keeps scope j (next a) post) :
    Keeps scope i (first >>= next) post := by
  intro s good here
  refine (start s good here).bind fun a t _ ⟨after, holds⟩ => ?_
  have later := after.position_le
  refine (goes a _ (by omega) after.good.inside holds t after.good rfl).weaken ?_
  exact fun b u _ ⟨after', holds⟩ => ⟨after.trans after', holds⟩

theorem goOn {P : α → Nat → Prop} {s t : State} (after : State.After scope.env s t)
    (keeps : Keeps scope t.position rule P) :
    scope.Settles rule t fun a u => State.After scope.env s u ∧ P a u.position :=
  (keeps t after.good rfl).weaken fun _ _ _ ⟨later, holds⟩ => ⟨after.trans later, holds⟩

/-- A rule that moves has moved whatever steady rule follows it. -/
theorem moved {first : Rule β} {next : β → Rule α} {rank : Nat} (room : scope.Room rank i)
    (start : Keeps scope i first fun _ j => i < j) (rest : ∀ a, Steady scope 4 (next a)) :
    Keeps scope i (first >>= next) fun _ j => i < j :=
  start.bind fun a j _ inside moved =>
    (rest a j (room.moved moved inside)).weaken fun _ k later _ => by omega

/-- Nothing comes behind a rule that stops the parse. -/
theorem never {first : Rule β} {next : β → Rule α} (halts : Keeps scope i first fun _ _ => False) :
    Keeps scope i (first >>= next) post := halts.bind fun _ _ _ _ impossible => impossible.elim

theorem discard {post : Unit → Nat → Prop} {middle : α → Nat → Prop}
    (keeps : Keeps scope i rule middle) (implies : ∀ a j, middle a j → post () j) :
    Keeps scope i (Functor.discard rule) post :=
  keeps.bind fun a j _ _ holds => .pure (implies a j holds)

/-- A rule and then another one, which is told what the first one sees at the same place. -/
theorem look {first : Rule β} {answer : β} {next : β → Rule α} (looks : Looks scope i first answer)
    (rest : Keeps scope i (next answer) post) : Keeps scope i (first >>= next) post :=
  looks.keeps.bind fun a j _ _ ⟨same, still⟩ => by
    subst same still
    exact rest

theorem test {guard : Rule Bool} {answer : Bool} {yes no : Rule α}
    (looks : Looks scope i guard answer) (whenTrue : answer = true → Keeps scope i yes post)
    (whenFalse : answer = false → Keeps scope i no post) :
    Keeps scope i (guard >>= fun b => if b = true then yes else no) post :=
  look looks <| by
    split
    · next holds => exact whenTrue holds
    · next fails => exact whenFalse (by simpa using fails)

end Keeps

namespace Steady

variable {rank : Nat} {rule : Rule α}

theorem lower {other : Nat} (steady : Steady scope rank rule) (lower : rank ≤ other) :
    Steady scope other rule := fun i room => steady i (room.later (Nat.le_refl i) (by omega))

theorem pure (a : α) : Steady scope rank (Pure.pure a) := fun _ _ => .pure trivial

theorem bind {first : Rule β} {next : β → Rule α} (start : Steady scope rank first)
    (rest : ∀ a, Steady scope rank (next a)) : Steady scope rank (first >>= next) :=
  fun i room => (start i room).bind fun a j later _ _ => rest a j (room.later later (by omega))

theorem discard (steady : Steady scope rank rule) : Steady scope rank (Functor.discard rule) :=
  steady.bind fun _ => .pure ()

end Steady

namespace Answers

variable {rank : Nat} {tells : α → Prop}

theorem pure {a : α} (holds : tells a) : Answers scope rank (Pure.pure a) tells := fun _ _ => .pure holds

theorem bind {first : Rule β} {next : β → Rule α} (start : Steady scope rank first)
    (rest : ∀ a, Answers scope rank (next a) tells) : Answers scope rank (first >>= next) tells :=
  fun i room => (start i room).bind fun a j later _ _ => rest a j (room.later later (by omega))

theorem keeps {rule : Rule α} (answers : Answers scope rank rule tells) (room : scope.Room rank i) :
    Keeps scope i rule fun a _ => tells a := answers i room

end Answers

theorem NodeKind.some {kind : Kind} (node : kind.isNode) : NodeKind (Option.some kind) := by
  rintro _ ⟨⟩
  exact node

theorem NodeKind.none : NodeKind Option.none := by simp [NodeKind]

theorem Yields.steady {rank : Nat} {rule : Rule α} {tells : α → Bool}
    (yields : Yields scope rank rule tells) : Steady scope rank rule :=
  fun i room => (yields i room).weaken fun _ _ _ _ => trivial

namespace Looks

theorem pure (a : α) : Looks scope i (Pure.pure a) a := fun _ _ _ => .pure ⟨rfl, rfl⟩

theorem bind {first : Rule β} {next : β → Rule α} {one : β} {two : α}
    (start : Looks scope i first one) (rest : Looks scope i (next one) two) :
    Looks scope i (first >>= next) two := by
  intro s good here
  refine (start s good here).bind fun b t _ ⟨same, tried⟩ => ?_
  subst same
  refine (rest t (tried.after good).good (tried.position.trans here)).weaken ?_
  exact fun _ _ _ ⟨same, later⟩ => ⟨same, tried.trans later⟩

theorem or {first second : Rule Bool} {one two : Bool} (start : Looks scope i first one)
    (rest : Looks scope i second two) : Looks scope i (first <||> second) (one || two) :=
  bind start <| by
    cases one with
    | true => exact pure true
    | false => exact rest

theorem and {first second : Rule Bool} {one two : Bool} (start : Looks scope i first one)
    (rest : Looks scope i second two) : Looks scope i (first <&&> second) (one && two) :=
  bind start <| by
    cases one with
    | true => exact rest
    | false => exact pure false

theorem act {action : Action α} {answer : α}
    (run : ∀ s : State, s.position = i →
      ∃ t, action.run scope.env s = .ok (answer, t) ∧ Tried s t) : Looks scope i (.act action) answer := by
  intro s _ here
  obtain ⟨t, ran, tried⟩ := run s here
  exact .act ran ⟨rfl, tried⟩

theorem cursor : Looks scope i Parser.cursor (scope.cursor i) :=
  act fun s here => ⟨s, by simp [Action.run, State.cursor, Scope.cursor, here], rfl⟩

theorem allow (kinds : KindSet) : Looks scope i (Parser.allow kinds) () :=
  act fun s _ => ⟨s.allow kinds, rfl, rfl⟩

theorem position : Looks scope i Parser.position i := bind cursor (pure _)

theorem nth (n : Nat) : Looks scope i (Parser.nth n) ((scope.cursor i).nth n) := bind cursor (pure _)

theorem current : Looks scope i Parser.current (scope.cursor i).current := nth 0

theorem nthIs (n : Nat) (kind : Kind) :
    Looks scope i (Parser.nthIs n kind) ((scope.cursor i).nth n == kind) := bind (nth n) (pure _)

theorem sees (kind : Kind) : Looks scope i (Parser.sees kind) ((scope.cursor i).current == kind) :=
  bind (allow _) (nthIs 0 kind)

theorem seesAny (kinds : KindSet) :
    Looks scope i (Parser.seesAny kinds) (kinds.contains (scope.cursor i).current) :=
  bind (allow _) (bind current (pure _))

theorem nthIsWord (n : Nat) (keyword : Kind) :
    Looks scope i (Parser.nthIsWord n keyword) (isWordAt (scope.cursor i) n keyword) :=
  bind cursor (pure _)

theorem seesWord (keyword : Kind) :
    Looks scope i (Parser.seesWord keyword) (isWordAt (scope.cursor i) 0 keyword) :=
  bind (allow _) (nthIsWord 0 keyword)

end Looks

namespace Keeps

variable {post : α → Nat → Prop}

theorem sees {kind : Kind} {yes no : Rule α}
    (whenTrue : (scope.cursor i).current = kind → Keeps scope i yes post)
    (whenFalse : (scope.cursor i).current ≠ kind → Keeps scope i no post) :
    Keeps scope i (Parser.sees kind >>= fun b => if b = true then yes else no) post :=
  test (Looks.sees kind) (fun here => whenTrue (by simpa using here))
    fun away => whenFalse (by simpa using away)

theorem push {action : Action Unit} (kind : Kind) (count : Nat)
    (run : ∀ s : State, s.position = i →
      action.run scope.env s = .ok ((), s.pushToken scope.env kind count))
    (proper : (Event.token kind count).Proper) (positive : 0 < count)
    (more : ∀ n < count, (scope.cursor i).nth n ≠ .eof) :
    Keeps scope i (.act action) fun _ j => j = i + count := by
  intro s good here
  have room : s.position + count < scope.env.stream.size :=
    State.position_add_lt (s.cursor scope.env) (by simpa [State.cursor, here, Scope.cursor] using more)
      good.inside
  have away : s.current scope.env ≠ .eof := by
    simpa [State.current, State.cursor, here, Scope.cursor, TokenCursor.current] using more 0 positive
  refine .act (run s here) ⟨State.pushToken_after good proper room away, ?_⟩
  simp only [State.pushToken, TokenCursor.advance, TokenCursor.index, State.cursor]
  omega

theorem consume {kind : Kind} (here : (scope.cursor i).current = kind)
    (more : kind ≠ .eof) :
    Keeps scope i (Parser.consume kind) fun _ j => j = i + 1 := by
  have token : kind.isToken := by
    rw [← here]
    exact scope.regular.isToken _
  refine push kind 1 (fun s at_i => ?_) ⟨token, .inl rfl⟩
    Nat.one_pos fun n first => ?_
  · have found : s.current scope.env = kind := by
      rw [← here, ← at_i]
      rfl
    simp [Action.run, State.consume, found, Result.done, Except.map]
  · obtain rfl : n = 0 := by omega
    exact fun ended => more (here.symm.trans ended)

theorem consume_moves {kind : Kind} (here : (scope.cursor i).current = kind)
    (more : kind ≠ .eof) : Keeps scope i (Parser.consume kind) fun _ j => i < j :=
  (consume here more).weaken fun _ _ _ moved => by omega

theorem consumeThen {kind : Kind} {next : Unit → Rule α} (here : (scope.cursor i).current = kind)
    (more : kind ≠ .eof)
    (rest : i + 1 < scope.env.stream.size → Keeps scope (i + 1) (next ()) post) : Keeps scope i (Parser.consume kind >>= next) post :=
  (consume here more).bind fun _ j _ inside same => by
    subst same
    exact rest inside

theorem consumeAny (more : (scope.cursor i).current ≠ .eof) :
    Keeps scope i Parser.consumeAny fun _ j => j = i + 1 := by
  refine push (scope.cursor i).current 1 (fun s at_i => ?_) ⟨scope.regular.isToken _, .inl rfl⟩
    Nat.one_pos fun n first => ?_
  · subst at_i
    exact congrArg (fun t => Except.ok ((), t)) (if_neg more)
  · obtain rfl : n = 0 := by omega
    exact more

theorem consumeAny_moves (more : (scope.cursor i).current ≠ .eof) :
    Keeps scope i Parser.consumeAny fun _ j => i < j :=
  (consumeAny more).weaken fun _ _ _ moved => by omega

theorem consumeAs {keyword : Kind} (here : (scope.cursor i).current = .identifier)
    (word : keyword.isToken) :
    Keeps scope i (Parser.consumeAs keyword) fun _ j => j = i + 1 := by
  refine push keyword 1 (fun s at_i => ?_) ⟨word, .inl rfl⟩
    Nat.one_pos fun n first => ?_
  · have found : s.current scope.env = .identifier := by
      rw [← here, ← at_i]
      rfl
    simp [Action.run, State.consumeAs, found, Result.done, Except.map]
  · obtain rfl : n = 0 := by omega
    exact fun ended => absurd (here.symm.trans ended) (by decide)

theorem join {kind : Kind} {count : Nat} (proper : (Event.token kind count).Proper)
    (positive : 0 < count) (more : ∀ n < count, (scope.cursor i).nth n ≠ .eof) :
    Keeps scope i (Parser.join kind count) fun _ j => j = i + count :=
  push kind count (fun _ _ => rfl) proper positive more

theorem act {action : Action Unit} {post : Unit → Nat → Prop}
    (run : ∀ s : State, s.Good scope.env → s.position = i →
      ∃ t, action.run scope.env s = .ok ((), t) ∧ State.After scope.env s t ∧ post () t.position) :
    Keeps scope i (.act action) post := by
  intro s good here
  obtain ⟨t, ran, after, holds⟩ := run s good here
  exact .act ran ⟨after, holds⟩

theorem report (issue : Issue) : Keeps scope i (Parser.report issue) fun _ j =>
    j = i ∧ scope.env.options.mode = .lenient ∨
      (scope.cursor j).current = .eof ∧ scope.env.options.mode = .strict := by
  refine act fun s good here => ?_
  cases mode : scope.env.options.mode with
  | lenient =>
    obtain ⟨t, run, after, still, -⟩ := State.report_lenient good mode issue
    exact ⟨t, by simp [Action.run, run, Result.done, Except.map], after, .inl ⟨still.trans here, rfl⟩⟩
  | strict =>
    obtain ⟨t, run, after, -, ended, -⟩ := State.report_strict scope.regular good mode issue
    exact ⟨t, by simp [Action.run, run, Result.done, Except.map], after, .inr ⟨ended, rfl⟩⟩

/-- To consume a token that does not stand here is what the rule at hand is to be blamed for. -/
theorem misplaced {kind : Kind} (away : (scope.cursor i).current ≠ kind) (cause : scope.own.halts) :
    Keeps scope i (Parser.consume kind) fun _ _ => False := by
  intro s good here
  subst here
  exact .actHalt (State.consume_misplaced away) cause

theorem misplacedWord {keyword : Kind} (unnamed : (scope.cursor i).current ≠ .identifier)
    (away : (scope.cursor i).current ≠ keyword) (cause : scope.own.halts) :
    Keeps scope i (Parser.consumeAs keyword) fun _ _ => False := by
  intro s good here
  subst here
  exact .actHalt (State.consumeAs_misplaced unnamed away) cause

theorem reportAndSkip (issue : Issue) :
    Keeps scope i (Parser.reportAndSkip issue) fun _ j =>
      (scope.cursor i).current ≠ .eof → i < j := by
  refine act fun s good here => ?_
  obtain ⟨t, run, after, moved⟩ := State.reportAndSkip_ok scope.regular good issue
  subst here
  exact ⟨t, by simp [Action.run, run, Result.done, Except.map], after, moved⟩

theorem recover (recovery : KindSet) :
    Keeps scope i (Parser.recover recovery) fun _ _ => True := by
  refine act fun s good _ => ?_
  obtain ⟨t, run, after⟩ := State.recover_ok scope.regular good recovery
  exact ⟨t, by simp [Action.run, run, Result.done, Except.map], after, trivial⟩

end Keeps

end LosslessJava.Grammar
