import LosslessJava.Proofs.Evaluation
import LosslessJava.Proofs.Soundness

/-! The loop that never ends. At `@interface` in a list of lambda parameters no part of a parameter
is found, every part is reported without moving, and the next round finds the same token. -/

namespace LosslessJava

namespace Parser.Program

variable {N : Type → Type} {env : Env} {rules : (α : Type) → N α → Program N α} {α : Type}

section

variable {step : α → Program N (Option α)} (invariant : α → State → Prop)
  (round : ∀ a s, invariant a s →
    ∃ b t, (step a).exec env rules s = some (.ok (some b, t)) ∧ invariant b t)

include round

/-- No run that comes to an end is one of a loop of which every round leads on to another one. -/
theorem Evaluates.not_loopFrom {rule : Program N α} {s : State} {r : Result α}
    (run : Evaluates env rules rule s r) : ∀ a, rule = .loopFrom a step → ¬ invariant a s := by
  induction run with
  | pure | act | bind | bindHalt | tooDeep | nested | withNoLambda | speculate | call =>
    intro a same
    cases same
  | loopEnd ended =>
    intro a same holds
    cases same
    obtain ⟨b, u, ran, _⟩ := round _ _ holds
    cases ended.exec_eq.symm.trans ran
  | loopHalt halted =>
    intro a same holds
    cases same
    obtain ⟨b, u, ran, _⟩ := round _ _ holds
    cases halted.exec_eq.symm.trans ran
  | loopNext first _ _ later =>
    intro a same holds
    cases same
    obtain ⟨b, u, ran, holds⟩ := round _ _ holds
    cases first.exec_eq.symm.trans ran
    exact later invariant round _ rfl holds

private theorem exec_loopFrom_eq_none {a : α} {s : State} (holds : invariant a s) :
    (loopFrom a step).exec env rules s = none :=
  Option.eq_none_iff_forall_ne_some.mpr fun _ given =>
    (evaluates_of_exec given).not_loopFrom invariant round a rfl holds

end

private theorem Rounds.exec_eq_none {step : α → Program N (Option α)} {a b : α} {s t : State}
    (rounds : Rounds env rules step a s b t) (endless : (loopFrom b step).exec env rules t = none) :
    (loopFrom a step).exec env rules s = none := by
  induction rounds with
  | refl => exact endless
  | next _ ran ih =>
    refine ih ?_
    rw [exec_loopFrom, ran, andThen_ok]
    exact endless

end Parser.Program

namespace Grammar

open LosslessJava.Parser

variable {env : Env} {α β : Type} {s t : State} {levels : Nat}

structure AtInterface (env : Env) (levels : Nat) (s : State) : Prop where
  lenient : env.options.mode = .lenient
  good : s.Good env
  sign : s.current env = .atSign
  interface : (s.cursor env).nth 1 = .interfaceKw
  room : s.depth + levels ≤ env.options.maxDepth

def Idles (env : Env) (levels : Nat) (rule : Rule α) (answer : α) : Prop :=
  ∀ s, AtInterface env levels s →
    ∃ t, rule.exec env Grammar.rule s = some (.ok (answer, t)) ∧ State.After env s t ∧ t.position = s.position

theorem AtInterface.move (here : AtInterface env levels s) (good : t.Good env)
    (still : t.position = s.position) {left : Nat} (room : t.depth + left ≤ env.options.maxDepth) :
    AtInterface env left t := by
  have same : t.cursor env = s.cursor env := by simp [State.cursor, still]
  refine ⟨here.lenient, good, ?_, ?_, room⟩
  · rw [State.current, same]
    exact here.sign
  · rw [same]
    exact here.interface

theorem AtInterface.stay (here : AtInterface env levels s) (after : State.After env s t)
    (still : t.position = s.position) : AtInterface env levels t :=
  here.move after.good still (after.depth.symm ▸ here.room)

theorem AtInterface.start (here : AtInterface env levels s) : AtInterface env levels s.start :=
  here.move here.good.start rfl here.room

namespace Idles

theorem pure (a : α) : Idles env levels (Pure.pure a) a := fun s here =>
  ⟨s, Program.exec_pure _ _, .refl here.good, rfl⟩

theorem bind {first : Rule β} {next : β → Rule α} {one : β} {two : α} (start : Idles env levels first one)
    (rest : Idles env levels (next one) two) : Idles env levels (first >>= next) two := by
  intro s here
  obtain ⟨t, ran, after, still⟩ := start s here
  obtain ⟨u, ran', later, still'⟩ := rest t (here.stay after still)
  refine ⟨u, ?_, after.trans later, still'.trans still⟩
  rw [Program.exec_bind, ran, Program.andThen_ok, ran']

theorem discard {rule : Rule α} {answer : α} (idles : Idles env levels rule answer) :
    Idles env levels (Functor.discard rule) () := idles.bind (pure ())

theorem test {guard : Rule Bool} {yes no : Rule α} {holds : Bool} {answer : α}
    (idles : Idles env levels guard holds) (whenTrue : holds = true → Idles env levels yes answer)
    (whenFalse : holds = false → Idles env levels no answer) :
    Idles env levels (guard >>= fun b => if b = true then yes else no) answer := by
  refine idles.bind ?_
  cases holds with
  | true => exact whenTrue rfl
  | false => exact whenFalse rfl

theorem allow (kinds : KindSet) : Idles env levels (Parser.allow kinds) () := fun s here =>
  ⟨s.allow kinds, Program.exec_act _ _,
    ⟨.of_eq rfl rfl rfl rfl, here.good.inside, here.good.ended, here.good.strict⟩, rfl⟩

private theorem cursorThen {next : TokenCursor → Rule α} {answer : α}
    (rest : ∀ cursor : TokenCursor, cursor.current = .atSign → cursor.nth 1 = .interfaceKw →
      Idles env levels (next cursor) answer) : Idles env levels (cursor >>= next) answer := by
  intro s here
  obtain ⟨t, ran, after, still⟩ := rest (s.cursor env) here.sign here.interface s here
  refine ⟨t, ?_, after, still⟩
  rw [Program.exec_bind, cursor, Program.exec_act, Action.run, Program.andThen_ok, ran]

theorem currentThen {next : Kind → Rule α} {answer : α} (rest : Idles env levels (next .atSign) answer) :
    Idles env levels (current >>= next) answer := by
  intro s here
  obtain ⟨t, ran, after, still⟩ := rest s here
  refine ⟨t, ?_, after, still⟩
  rw [Program.exec_bind, current, nth, cursor, Program.exec_bind, Program.exec_act, Action.run,
    Program.andThen_ok, Program.exec_return, Program.andThen_ok, ← ran]
  exact congrArg (fun kind => Program.exec env rule (next kind) s) here.sign

theorem nextThen {next : Kind → Rule α} {answer : α} (rest : Idles env levels (next .interfaceKw) answer) :
    Idles env levels (nth 1 >>= next) answer := by
  intro s here
  obtain ⟨t, ran, after, still⟩ := rest s here
  refine ⟨t, ?_, after, still⟩
  rw [Program.exec_bind, nth, cursor, Program.exec_bind, Program.exec_act, Action.run, Program.andThen_ok,
    Program.exec_return, Program.andThen_ok, here.interface, ran]

theorem sees (kind : Kind) : Idles env levels (Parser.sees kind) (.atSign == kind) :=
  (allow _).bind (currentThen (pure _))

theorem seesAny (kinds : KindSet) : Idles env levels (Parser.seesAny kinds) (kinds.contains .atSign) :=
  (allow _).bind (currentThen (pure _))

theorem accept {kind : Kind} (other : kind ≠ .atSign) : Idles env levels (Parser.accept kind) false :=
  (sees kind).test (fun same => absurd (by simpa using same) (Ne.symm other)) fun _ => pure false

theorem seesAnnotation : Idles env levels Grammar.seesAnnotation false :=
  (sees .atSign).test (fun _ => (nextThen (pure true)).bind (pure false)) fun _ => pure false

theorem expectedHere (what : String) : Idles env levels (Parser.expectedHere what) () :=
  currentThen fun s here => by
    obtain ⟨t, told, after, still, -⟩ := State.report_lenient here.good here.lenient (.expected what .atSign)
    exact ⟨t, by rw [Parser.report, Program.exec_act, Action.run, told]; rfl, after, still⟩

theorem require {kind : Kind} (other : kind ≠ .atSign) : Idles env levels (Parser.require kind) () :=
  ((accept other).bind ((expectedHere _).bind (pure false))).discard

theorem loopAny {step : Rule Bool} (idles : Idles env levels step false) :
    Idles env levels (Parser.loopAny step) false := by
  intro s here
  obtain ⟨t, ran, after, still⟩ := idles s here
  refine ⟨t, ?_, after, still⟩
  rw [Parser.loopAny, Parser.loopFrom, Program.exec_loopFrom, stepTo, Program.exec_bind, ran,
    Program.andThen_ok, Program.exec_return]
  rfl

theorem nodeIf {rule : Rule (Option Kind)} (idles : Idles env levels rule none) :
    Idles env levels (Parser.nodeIf rule) none := by
  intro s here
  obtain ⟨t, ran, after, still⟩ := idles s.start here.start
  obtain ⟨events, released, passes⟩ := State.release_ok after.toPasses
  refine ⟨{ t with events }, ?_, ⟨passes, after.good.inside, after.good.ended, after.good.strict⟩, still⟩
  rw [Parser.nodeIf, Program.exec_bind, Parser.start, Program.exec_act, Action.run, Program.andThen_ok,
    Program.exec_bind, ran, Program.andThen_ok]
  dsimp only
  rw [Program.exec_bind, Mark.release, Program.exec_act, Action.run, released]
  exact Program.exec_pure _ _

private theorem discardNode {kind : Kind} {rule : Rule Unit} (isNode : kind.isNode) (idles : Idles env levels rule ()) :
    Idles env levels (Functor.discard (node kind rule)) () := by
  intro s here
  have told : Idles env levels (rule >>= fun _ => return kind) kind := idles.bind (pure kind)
  obtain ⟨t, ran, after, still⟩ := told s.start here.start
  obtain ⟨u, done, still', after, -⟩ := State.complete_after after isNode
  refine ⟨u, ?_, after, still'.trans still⟩
  rw [Program.exec_discard, node, nodeOf, Program.exec_bind, Parser.start, Program.exec_act, Action.run,
    Program.andThen_ok, Program.exec_bind, ran, Program.andThen_ok, Mark.complete, Program.exec_act, done,
    Program.andThen_ok]

private theorem nested {otherwise answer : α} {rule : Rule α} (idles : Idles env levels rule answer) :
    Idles env (levels + 1) (Parser.nested otherwise rule) answer := by
  intro s here
  have room := here.room
  obtain ⟨t, ran, after, still⟩ := idles s.enter
    (here.move here.good.enter rfl (by simp only [State.enter]; omega))
  refine ⟨t.leave, ?_, after.leave, still⟩
  rw [Parser.nested, Program.exec_nested_of_lt (by omega), ran]
  rfl

private theorem call {name : Nonterminal α} {answer : α} (idles : Idles env levels (rule α name) answer) :
    Idles env levels (Parser.call name) answer := by
  intro s here
  obtain ⟨t, ran, kept⟩ := idles s here
  exact ⟨t, (Program.exec_call _ _).trans ran, kept⟩

end Idles

private theorem annotations_idles : Idles env levels annotations false :=
  .loopAny <| Idles.seesAnnotation.test (by simp) fun _ => .pure false

private theorem modifier_idles : Idles env levels modifier false :=
  Idles.seesAnnotation.test (by simp) fun _ => .cursorThen fun cursor sign _ => by
    have word (keyword : Kind) : isWordAt cursor 0 keyword = false := by
      simp [isWordAt, show cursor.nth 0 = .atSign from sign]
    rw [if_neg (by rw [sign]; decide +kernel), if_neg (by simp [isSealed, word]), if_neg (by simp [isNonSealed, sign])]
    exact .pure false

private theorem modifiers_idles : Idles env levels modifiers false :=
  (Idles.nodeIf ((Idles.loopAny modifier_idles).bind (.pure none))).bind (.pure _)

private theorem elementType_idles : Idles env levels elementType none :=
  Idles.bind (.nodeIf <| annotations_idles.bind <|
    (Idles.seesAny _).test (fun primitive => absurd primitive (by decide +kernel)) fun _ =>
      (Idles.sees _).test (by simp) fun _ => (Idles.expectedHere _).bind (.pure none)) (.pure _)

private theorem type_idles : Idles env (levels + 1) (call .type) none :=
  .call <| .nested <| elementType_idles.bind (.pure none)

private theorem lambdaParam_idles : Idles env (levels + 1) lambdaParam () :=
  .discardNode (by decide) <| .nextThen <| ((Idles.sees _).bind (.pure false)).test (by simp) fun _ =>
    modifiers_idles.discard.bind <| type_idles.discard.bind <|
      (Idles.accept (by decide)).discard.bind <| .require (by decide)

/-- A round goes on for want of a comma, since another parameter could start here. -/
theorem lambdaRound_idles : Idles env (levels + 1) lambdaRound true :=
  ((Idles.sees _).bind (Idles.sees _)).test (by simp) fun _ => (Idles.sees _).test (by simp) fun _ =>
    (lambdaParam_idles.bind (.pure true)).test (fun _ => (Idles.accept (by decide)).test (by simp) fun _ =>
      (Idles.seesAny _).test (fun _ => (Idles.require (by decide)).bind (.pure true))
        fun absent => absurd absent (by decide +kernel)) (by simp)

/-- Once a list of lambda parameters goes round at `@interface`, it does so without end. -/
theorem StuckParamList.exec_eq_none (stuck : StuckParamList env s) :
    (call .lambdaParamList : Rule Unit).exec env rule s = none := by
  obtain ⟨t, u, consumed, rounds, lenient, good, sign, interface, room⟩ := stuck
  have again : Idles env 1 (stepTo () lambdaRound) (some ()) := lambdaRound_idles.bind (.pure _)
  have endless : (loopFrom () fun _ => stepTo () lambdaRound).exec env rule u = none :=
    Program.exec_loopFrom_eq_none (fun _ => AtInterface env 1) (fun _ s here => by
      obtain ⟨t, ran, after, still⟩ := again s here
      exact ⟨(), t, ran, here.stay after still⟩) ⟨lenient, good, sign, interface, room⟩
  have looped := rounds.exec_eq_none endless
  have opened : (consume .leftParen : Rule Unit).exec env rule s.start = some (.ok ((), t)) := by
    rw [consume, Program.exec_act, State.run_consume.mpr consumed]
  rw [call, Program.exec_call]
  show lambdaParamList.exec env rule s = none
  rw [lambdaParamList, Program.exec_discard, node, nodeOf, Program.exec_bind, start, Program.exec_act,
    Action.run, Program.andThen_ok, Program.exec_bind, Program.exec_bind, delimited, Program.exec_bind,
    opened, Program.andThen_ok, Program.exec_bind]
  show Program.andThen (Program.andThen (Program.andThen (Program.andThen
    ((Program.loopFrom () fun _ => stepTo () lambdaRound).exec env rule t) _) _) _) _ = none
  rw [looped]
  rfl

/-- A rule that is said never to answer does not. -/
theorem exec_eq_none_of_sticks {rule : Rule α}
    (cause : Program.Blamed env Grammar.rule False (faults env).sticks rule s) :
    rule.exec env Grammar.rule s = none := by
  obtain ⟨_, site, t, reached, fault⟩ := cause.resolve_left id
  cases site with
  | lambdaParamList => exact reached.exec_eq_none (StuckParamList.exec_eq_none fault)
  | _ => exact fault.elim

end Grammar

end LosslessJava
