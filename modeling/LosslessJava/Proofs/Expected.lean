import LosslessJava.Proofs.Abandonment
import LosslessJava.Proofs.CleanCombinators

/-! The kinds that a diagnostic expects. Every kind that a rule tries is kept until a token is consumed. So the token at
hand is among them only if a rule found it there and left it, and then it is for the rules behind that one to take it.
A rule is judged by the kinds that may have been found and left where it starts: from there no diagnostic may expect the
token it is about, and none may be left over where the rule ends. -/

namespace LosslessJava

open LosslessJava.Parser

/-- A token that a rule may find and leave there without a reason to complain, since it looks at the next one before it
takes it: a dot that no name follows, a bracket that is not closed at once, the `@` of an annotation type. -/
@[reducible] def Kind.isProbed : Kind → Kind → Bool
  | .dot, next => next != .identifier
  | .leftBracket, next => next != .rightBracket
  | .atSign, next => next == .interfaceKw
  | _, _ => false

/-- The kinds that elements of lists may start with, one set for each sort of list. -/
def Grammar.First.elements : List KindSet :=
  [First.expression, First.initializer, First.elementValue, First.type, First.typeArgument, First.param, First.pattern]

/-- What is missed where a loop ends with the input: the bracket behind it, or an operand. -/
def Issue.endings : List String :=
  ["expression", Kind.rightParen.describe, Kind.rightBracket.describe, Kind.rightBrace.describe, Kind.gt.describe]

/-- An issue that is taken with a token which fits where it stands: a clause or a label that does not go with those
before it, a modifier that makes no difference, a comma too many or one too few; the end of the input, which a loop ended
with; or a dot behind a type, which might have led to `class`. -/
inductive Issue.Overrules : Issue → Kind → Prop where
  | clause {keyword : Kind} : Overrules (.clauseOrder keyword) keyword
  | label {terminator established : Kind} : Overrules (.mixedLabels terminator established) terminator
  | modifier : Overrules .finalWithoutBinding .finalKw
  | element {what : String} : Overrules (.missingElement what) .comma
  | delimiter {found : Kind} (starts : Grammar.First.elements.any (·.contains found) = true) :
    Overrules (.expected Kind.comma.describe found) found
  | ended {what : String} (missed : what ∈ Issue.endings) : Overrules (.expected what .eof) .eof
  | literal : Overrules (.expected "`.class` or `::`" .dot) .dot

/-- A token that no rule has to take once it found it. As long as they are read, contextual keywords are identifiers. -/
def Kind.isPassed (kind next : Kind) : Bool := kind.isProbed next || kind.isContextualKeyword

def Diagnostic.Sincere (stream : TokenStream) (d : Diagnostic) : Prop :=
  d.kind = .syntaxError → d.expected.contains (stream.kindAt d.tokenIndex) = true →
    (stream.kindAt d.tokenIndex).isPassed (stream.kindAt (d.tokenIndex + 1)) = true ∨
      ∃ issue : Issue, d.message = issue.message ∧ issue.Overrules (stream.kindAt d.tokenIndex)

namespace Parser.State

variable {env : Env} {kinds : KindSet} {s t u : State}

def Waives (env : Env) (s : State) : Prop := (s.current env).isPassed ((s.cursor env).nth 1) = true

/-- Unless nothing more is told of the token at hand, it is among the kinds that were tried there only if it is one of
the given ones, or passed. -/
def Leaves (env : Env) (kinds : KindSet) (s : State) : Prop :=
  s.isTold = true ∨ (s.expected.contains (s.current env) = true →
    kinds.contains (s.current env) = true ∨ s.Waives env)

structure Sincere (env : Env) (kinds : KindSet) (s : State) : Prop where
  told : ∀ d ∈ s.diagnostics.toList, d.Sincere env.stream
  next : s.Leaves env kinds

theorem Sincere.weaken {other : KindSet} (sincere : s.Sincere env kinds)
    (within : kinds.contains (s.current env) = true → other.contains (s.current env) = true ∨ s.Waives env) :
    s.Sincere env other where
  told := sincere.told
  next := sincere.next.imp id fun tried found => (tried found).elim within .inr

theorem Sincere.of_empty (sincere : s.Sincere env .empty) : s.Sincere env kinds := sincere.weaken (by simp)

theorem Sincere.of_told (told : ∀ d ∈ s.diagnostics.toList, d.Sincere env.stream) (silent : s.isTold = true) :
    s.Sincere env kinds := ⟨told, .inl silent⟩

theorem Sincere.forget (sincere : s.Sincere env kinds) (quiet : Quiet s t) (fresh : t.expected = .empty) :
    t.Sincere env .empty where
  told := quiet.diagnostics ▸ sincere.told
  next := .inr fun found => by simp [fresh] at found

structure Same (s t : State) : Prop where
  diagnostics : t.diagnostics = s.diagnostics
  position : t.position = s.position
  expected : t.expected = s.expected
  recovery : t.recovery = s.recovery

theorem Sincere.same (sincere : s.Sincere env kinds) (same : Same s t) : t.Sincere env kinds where
  told := same.diagnostics ▸ sincere.told
  next := by
    have told : t.isTold = s.isTold := by simp only [isTold, same.recovery, same.diagnostics, same.position]
    have cursor : t.cursor env = s.cursor env := by simp only [State.cursor, same.position]
    simpa only [Leaves, Waives, State.current, told, cursor, same.expected] using sincere.next

private theorem sincere_pushToken {kind : Kind} {count : Nat} (sincere : s.Sincere env kinds) :
    (s.pushToken env kind count).Sincere env .empty := sincere.forget ⟨rfl, rfl⟩ rfl

theorem sincere_allow {more : KindSet} (sincere : s.Sincere env kinds) :
    (s.allow more).Sincere env (kinds.union more) where
  told := sincere.told
  next := sincere.next.imp id fun tried found => by
    simp only [allow, KindSet.contains_union, Bool.or_eq_true] at found ⊢
    rcases found with before | here
    · exact (tried before).imp .inl id
    · exact .inl (.inr here)

theorem sincere_found {found : KindSet} (sincere : s.Sincere env kinds) (here : found.contains (s.current env) = true) :
    s.Sincere env found := sincere.weaken fun _ => .inl here

/-- The token at hand was tried and not found. -/
theorem sincere_missed {missed : KindSet} (sincere : s.Sincere env (kinds.union missed))
    (away : missed.contains (s.current env) = false) : s.Sincere env kinds :=
  sincere.weaken fun given => .inl (by simpa [away] using given)

private theorem abandon_sincere (told : ∀ d ∈ s.diagnostics.toList, d.Sincere env.stream) (run : s.abandon env = .ok t) :
    t.Sincere env .empty := by
  obtain ⟨quiet, abandoned⟩ := abandon_quiet run
  exact .of_told (quiet.diagnostics ▸ told) (isTold_of_abandoned abandoned)

/-- What is told of a token about which the next diagnostic is in doubt has to overrule it. -/
theorem diagnose_sincere {issue : Issue} (sincere : s.Sincere env kinds) (untold : s.isTold = false)
    (overruled : kinds.contains (s.current env) = true → issue.kind = .syntaxError → issue.Overrules (s.current env)) :
    (s.diagnose env issue).Sincere env.stream := by
  have current : s.current env = env.stream.kindAt s.position := TokenCursor.nth_eq _ 0
  have next : (s.cursor env).nth 1 = env.stream.kindAt (s.position + 1) := TokenCursor.nth_eq _ 1
  intro syntaxError found
  simp only [diagnose, ← current, ← next] at syntaxError found ⊢
  rcases sincere.next.resolve_left (by simp [untold]) found with left | passed
  · exact .inr ⟨issue, rfl, overruled left syntaxError⟩
  · exact .inl passed

theorem report_sincere {issue : Issue} (sincere : s.Sincere env kinds)
    (overruled : kinds.contains (s.current env) = true → issue.kind = .syntaxError → issue.Overrules (s.current env))
    (run : s.report env issue = .ok t) : t.Sincere env .empty ∧ t.isTold = true := by
  suffices silent : (∀ d ∈ t.diagnostics.toList, d.Sincere env.stream) ∧ t.isTold = true from
    ⟨.of_told silent.1 silent.2, silent.2⟩
  unfold report at run
  dsimp only at run
  split at run
  · next told =>
    cases run
    exact ⟨sincere.told, told⟩
  · next untold =>
    have apt := diagnose_sincere sincere (Bool.eq_false_iff.mpr untold) overruled
    have telling : ∀ d ∈ (s.count.tell env issue).diagnostics.toList, d.Sincere env.stream := by
      intro d member
      simp only [tell, count, Array.toList_push, List.mem_append, List.mem_singleton] at member
      exact member.elim (sincere.told d) (· ▸ apt)
    split at run
    · obtain ⟨quiet, abandoned⟩ := abandon_quiet run
      exact ⟨quiet.diagnostics ▸ telling, isTold_of_abandoned abandoned⟩
    · cases run
      exact ⟨telling, by simp [isTold, tell, count, diagnose]⟩

theorem complete_same {mark : Mark} {kind : Kind} (run : s.complete mark kind = .ok t) : Same s t := by
  unfold complete at run
  split at run
  · cases run
    exact ⟨rfl, rfl, rfl, rfl⟩
  · cases run

theorem release_same {mark : Mark} (run : s.release mark = .ok t) : Same s t := by
  unfold release at run
  split at run
  · split at run
    · cases run
      exact ⟨rfl, rfl, rfl, rfl⟩
    · cases run
  · cases run
    exact ⟨rfl, rfl, rfl, rfl⟩

theorem precede_same {first : Completed} (run : s.precede first = .ok t) : Same s t := by
  simp only [precede] at run
  split at run
  · cases run
    exact ⟨rfl, rfl, rfl, rfl⟩
  · cases run

private theorem position_growth {P : Nat → Prop} (kept : ∀ x n, P x → P (min (x + n) (env.stream.size - 1))) :
    Growth env fun s t => P s.position → P t.position where
  trans first second before := second (first before)
  still _ position _ before := position ▸ before
  push before := kept _ _ before
  error inner closed before := (complete_same closed).position ▸ inner before

/-- What holds of every position behind one of which it holds is kept by every step. -/
theorem position_invariant {P : Nat → Prop} (kept : ∀ x n, P x → P (min (x + n) (env.stream.size - 1))) :
    Invariant env (fun _ => True) fun s => P s.position where
  act {_ action _ _ _} _ before run := by
    cases action with
    | start =>
      cases run
      exact before
    | join =>
      cases run
      exact kept _ _ before
    | consumeAs keyword =>
      have run := Result.of_done run
      unfold consumeAs at run
      split at run
      · cases run
        exact kept _ _ before
      · cases run
    | complete mark kind =>
      obtain ⟨u, completed, same⟩ := map_eq_ok.mp run
      cases same
      exact (complete_same completed).position ▸ before
    | release mark => exact (release_same (Result.of_done run)).position ▸ before
    | precede first =>
      obtain ⟨u, preceded, same⟩ := map_eq_ok.mp run
      cases same
      exact (precede_same preceded).position ▸ before
    | cursor | noLambda | lookaheadLimit | allow | consume | consumeAny | report | reportAndSkip | recover =>
      exact (position_growth kept).act rfl run before
  tooDeep before run := (position_growth kept).abandonNested run before
  depth _ before := before
  noLambda _ before := before

theorem consumeAny_sincere (sincere : s.Sincere env kinds) (more : s.current env = .eof → kinds.contains .eof = false) :
    (s.consumeAny env).Sincere env .empty := by
  unfold consumeAny
  split
  · next ended => exact sincere.weaken fun given => by rw [ended, more ended] at given; cases given
  · exact sincere_pushToken sincere

private theorem reportAndSkip_sincere {issue : Issue} (sincere : s.Sincere env kinds)
    (overruled : kinds.contains (s.current env) = true → issue.kind = .syntaxError → issue.Overrules (s.current env))
    (run : s.reportAndSkip env issue = .ok u) : u.Sincere env .empty := by
  unfold reportAndSkip at run
  obtain ⟨t, told, run⟩ := bind_eq_ok.mp run
  have behind := (report_sincere sincere overruled told).1
  split at run
  · cases run
    exact behind
  · have started : t.start.Sincere env .empty := behind.same ⟨rfl, rfl, rfl, rfl⟩
    exact (consumeAny_sincere started (by simp)).same (complete_same run)

private theorem skipBraces_expected {depth : Nat} (more : s.current env ≠ .eof) : (s.skipBraces env depth).expected = .empty := by
  fun_induction skipBraces env depth s with
  | case1 depth s ended => exact absurd ended more
  | case2 => rfl
  | case3 depth s more inner deeper ih =>
    by_cases ended : (s.skipToken env).current env = .eof
    · unfold skipBraces
      rw [if_pos ended]
      rfl
    · exact ih ended

private theorem skipOne_expected (more : s.current env ≠ .eof) : (s.skipOne env).expected = .empty := by
  unfold skipOne
  split
  · exact skipBraces_expected more
  · rfl

private theorem skipTo_expected {recovery : KindSet} (away : s.atSync env recovery = false) :
    (s.skipTo env recovery).expected = .empty := by
  fun_induction skipTo env recovery s with
  | case1 s there => simp [there] at away
  | case2 s _ ih =>
    by_cases there : (s.skipOne env).atSync env recovery = true
    · have more : s.current env ≠ .eof := fun ended => by simp [atSync, ended] at away
      unfold skipTo
      rw [if_pos there]
      exact skipOne_expected more
    · exact ih (Bool.eq_false_iff.mpr there)

/-- Skipping ahead leaves everything as it is, or forgets what was tried. -/
theorem recover_sincere {recovery : KindSet} (sincere : s.Sincere env kinds) (run : s.recover env recovery = .ok u) :
    u = s ∨ u.Sincere env .empty := by
  unfold recover at run
  split at run
  · cases run
    exact .inl rfl
  · next going =>
    obtain ⟨skipped, closed, run⟩ := bind_eq_ok.mp run
    simp only [not_or, Bool.not_eq_true] at going
    have passed : Quiet s (skipped.withRecovery .normal) := by
      have quiet : Quiet (s.withRecovery .recovering).start skipped := (skipTo_quiet recovery).trans (complete_calm closed).toQuiet
      exact ⟨quiet.errorCount, quiet.diagnostics⟩
    have away : (s.withRecovery .recovering).start.atSync env recovery = false := going.2
    have fresh := sincere.forget passed ((complete_same closed).expected.trans (skipTo_expected away))
    rcases settleAt_from run with rfl | ⟨t, told, rfl⟩
    · exact .inr fresh
    · exact .inr <| .of_told (report_sincere fresh (by simp) told).1.told (isTold_of_abandoned rfl)

private theorem abandonNested_sincere (sincere : s.Sincere env kinds) (run : s.abandonNested env = .ok t) : t.Sincere env .empty := by
  unfold abandonNested at run
  split at run
  · next abandoned =>
    cases run
    exact .of_told sincere.told (isTold_of_abandoned abandoned)
  · obtain ⟨u, told, run⟩ := bind_eq_ok.mp run
    exact abandon_sincere (report_sincere sincere (fun _ other => by cases other) told).1.told run

end Parser.State

namespace Grammar

variable {bounds : Bounds} {α β : Type} {kinds yes no : KindSet}

/-- From where the next diagnostic may be in doubt about some kinds, a rule leads to where it may be in doubt about others,
which its answer tells. -/
def Leads (bounds : Bounds) (kinds : KindSet) (rule : Rule α) (post : α → KindSet) : Prop :=
  ∀ ⦃s a t⦄, bounds.Gives rule s a t → s.Sincere bounds.env kinds → t.Sincere bounds.env (post a)

/-- Where the token at hand may be of some kinds that were tried, a rule takes it or tells of it without expecting it. -/
class Clears (bounds : Bounds) (kinds : KindSet) {α : Type} (rule : Rule α) : Prop where
  leads : Leads bounds kinds rule fun _ => .empty

class Spares (bounds : Bounds) {α : Type} (rule : Rule α) : Prop where
  leads : ∀ kinds, Leads bounds kinds rule fun _ => kinds

class Asks (bounds : Bounds) (kinds : KindSet) (rule : Rule Bool) (yes no : outParam KindSet) : Prop where
  leads : Leads bounds kinds rule fun answer => bif answer then yes else no

namespace Leads

variable {rule : Rule α} {post : α → KindSet}

theorem weaken {other : α → KindSet} (leads : Leads bounds kinds rule post)
    (within : ∀ a, post a = .empty ∨ post a = other a) : Leads bounds kinds rule other := fun s a t gives sincere => by
  have behind := leads gives sincere
  rcases within a with none | same
  · exact (none ▸ behind).of_empty
  · exact same ▸ behind

/-- Where less is in doubt, a rule leads no further. -/
theorem of_empty (leads : Leads bounds kinds rule post) : Leads bounds .empty rule post :=
  fun _ _ _ gives sincere => leads gives sincere.of_empty

theorem pure {a : α} (same : post a = kinds) : Leads bounds kinds (Pure.pure a) post := fun s b t gives sincere => by
  obtain ⟨rfl, rfl⟩ := gives.pure
  exact same ▸ sincere

theorem bind {first : Rule β} {next : β → Rule α} {middle : β → KindSet} (one : Leads bounds kinds first middle)
    (two : ∀ b, Leads bounds (middle b) (next b) post) : Leads bounds kinds (first >>= next) post :=
  fun s a u gives sincere => by
    obtain ⟨b, t, ran, rest⟩ := gives.bind
    exact two b rest (one ran sincere)

/-- Whatever the first rule answers, it leaves the same kinds in doubt. -/
theorem andThen {first : Rule β} {next : β → Rule α} (left : KindSet) (one : Leads bounds kinds first fun _ => left)
    (two : ∀ b, Leads bounds left (next b) post) : Leads bounds kinds (first >>= next) post := one.bind two

theorem loopFrom {step : α → Rule (Option α)} (invariant : α → KindSet) {a : α}
    (round : ∀ a, Leads bounds (invariant a) (step a) (·.elim (post a) invariant)) :
    Leads bounds (invariant a) (Parser.loopFrom a step) post := by
  rintro s b u ⟨_, run⟩
  refine run.loop_induction (motive := fun a s r _ =>
      r = .ok (b, u) → s.Sincere bounds.env (invariant a) → u.Sincere bounds.env (post b))
    (fun ran given before => ?leaves) (fun _ given => nomatch given)
    (fun ran _ _ later given before => later given (round _ ⟨_, ran⟩ before)) rfl
  case leaves =>
    cases given
    exact round _ ⟨_, ran⟩ before

theorem nested {otherwise : α} (leads : Leads bounds kinds rule post) :
    Leads bounds kinds (Parser.nested otherwise rule) post := fun s a t gives sincere => by
  rcases gives.nested with deep | ⟨u, ran, rfl⟩
  · obtain ⟨u, abandoned, same⟩ := map_eq_ok.mp deep
    cases same
    exact (State.abandonNested_sincere sincere abandoned).of_empty
  · exact (leads ran (sincere.same ⟨rfl, rfl, rfl, rfl⟩)).same ⟨rfl, rfl, rfl, rfl⟩

theorem withNoLambda {noLambda : Bool} (leads : Leads bounds kinds rule post) :
    Leads bounds kinds (Parser.withNoLambda noLambda rule) post := fun s a t gives sincere => by
  obtain ⟨u, ran, rfl⟩ := gives.withNoLambda
  exact (leads ran (sincere.same ⟨rfl, rfl, rfl, rfl⟩)).same ⟨rfl, rfl, rfl, rfl⟩

/-- What is tried and taken back was never in doubt. -/
theorem speculate {rule : Rule (Option Completed)} {post : KindSet} (leads : Leads bounds kinds rule fun _ => post) :
    Leads bounds kinds (Parser.speculate rule) (·.elim kinds fun _ => post) := fun s found t gives sincere => by
  obtain ⟨given, u, ran, settled⟩ := gives.speculate
  unfold Program.settle at settled
  split at settled
  · next some =>
    cases settled
    obtain ⟨node, rfl⟩ := Option.isSome_iff_exists.mp some.1
    exact leads ran sincere
  · cases settled
    exact sincere

theorem ite {c : Prop} [Decidable c] {one other : Rule α} (holds : Leads bounds kinds one post)
    (fails : Leads bounds kinds other post) : Leads bounds kinds (if c then one else other) post := by
  split
  · exact holds
  · exact fails

theorem ask {question : Rule Bool} {one other : Rule α} (asks : Asks bounds kinds question yes no)
    (holds : Leads bounds yes one post) (fails : Leads bounds no other post) :
    Leads bounds kinds (question >>= fun answer => if answer = true then one else other) post :=
  asks.leads.bind fun answer => by
    cases answer with
    | true => exact holds
    | false => exact fails

theorem spare [spares : Spares bounds rule] : Leads bounds kinds rule fun _ => kinds := spares.leads kinds

theorem clear [clears : Clears bounds kinds rule] : Leads bounds kinds rule post :=
  clears.leads.weaken fun _ => .inl rfl

end Leads

section Steps

private theorem act_leads {action : Action α} {post : α → KindSet}
    (step : ∀ s a t, s.Sincere bounds.env kinds → action.run bounds.env s = .ok (a, t) → t.Sincere bounds.env (post a)) :
    Leads bounds kinds (.act action) post := fun s a t gives sincere => step s a t sincere gives.act

theorem Spares.act {action : Action α} (same : ∀ s a t, action.run bounds.env s = .ok (a, t) → State.Same s t) :
    Spares bounds (.act action) where
  leads _ := act_leads fun s a t sincere run => sincere.same (same s a t run)

instance : Spares bounds cursor := .act fun s a t run => by
  cases run
  exact ⟨rfl, rfl, rfl, rfl⟩

instance : Spares bounds (.act .noLambda) := .act fun s a t run => by
  cases run
  exact ⟨rfl, rfl, rfl, rfl⟩

instance : Spares bounds (.act .lookaheadLimit) := .act fun s a t run => by
  cases run
  exact ⟨rfl, rfl, rfl, rfl⟩

instance : Spares bounds start := .act fun s a t run => by
  cases run
  exact ⟨rfl, rfl, rfl, rfl⟩

instance {mark : Mark} {kind : Kind} : Spares bounds (mark.complete kind) := .act fun s a t run => by
  obtain ⟨u, completed, same⟩ := map_eq_ok.mp run
  cases same
  exact State.complete_same completed

instance {mark : Mark} : Spares bounds mark.release := .act fun _ _ _ run => State.release_same (Result.of_done run)

instance {first : Completed} : Spares bounds first.precede := .act fun s a t run => by
  obtain ⟨u, preceded, same⟩ := map_eq_ok.mp run
  cases same
  exact State.precede_same preceded

instance {recovery : KindSet} : Spares bounds (recover recovery) where
  leads _ := act_leads fun s _ _ sincere run => by
    rcases State.recover_sincere sincere (Result.of_done run) with rfl | fresh
    · exact sincere
    · exact fresh.of_empty

instance {a : α} : Spares bounds (Pure.pure a) where
  leads _ := .pure rfl

instance {kind : Kind} : Clears bounds kinds (consume kind) where
  leads := act_leads fun s _ _ sincere run => by
    have run := Result.of_done run
    unfold State.consume at run
    split at run
    · cases run
      exact State.sincere_pushToken sincere
    · cases run

instance {keyword : Kind} : Clears bounds kinds (consumeAs keyword) where
  leads := act_leads fun s _ _ sincere run => by
    have run := Result.of_done run
    unfold State.consumeAs at run
    split at run
    · cases run
      exact State.sincere_pushToken sincere
    · cases run

class Inner (kinds : KindSet) : Prop where
  more : kinds.contains .eof = false

instance : Inner .empty := ⟨by simp⟩

instance [more : Evident (Lookahead.goesOn kind)] : Inner (.singleton kind) :=
  ⟨by simpa using (Lookahead.ne_eof : kind ≠ .eof)⟩

instance {one other : KindSet} [first : Inner one] [second : Inner other] : Inner (one.union other) :=
  ⟨by simp [first.more, second.more]⟩

instance [inner : Inner kinds] : Clears bounds kinds consumeAny where
  leads := act_leads fun s _ _ sincere run => by
    cases run
    exact State.consumeAny_sincere sincere fun _ => inner.more

instance {kind : Kind} {rawCount : Nat} : Clears bounds kinds (join kind rawCount) where
  leads := act_leads fun s _ _ sincere run => by
    cases run
    exact State.sincere_pushToken sincere

theorem report_clears {issue : Issue}
    (overruled : ∀ kind, kinds.contains kind = true → issue.kind = .syntaxError → issue.Overrules kind) :
    Clears bounds kinds (report issue) where
  leads := act_leads fun _ _ _ sincere run => (State.report_sincere sincere (overruled _) (Result.of_done run)).1

theorem reportAndSkip_clears {issue : Issue}
    (overruled : ∀ kind, kinds.contains kind = true → issue.kind = .syntaxError → issue.Overrules kind) :
    Clears bounds kinds (reportAndSkip issue) where
  leads := act_leads fun _ _ _ sincere run => State.reportAndSkip_sincere sincere (overruled _) (Result.of_done run)

instance {issue : Issue} : Clears bounds .empty (report issue) := report_clears (by simp)

instance {issue : Issue} : Clears bounds .empty (reportAndSkip issue) := reportAndSkip_clears (by simp)

instance {what : String} {limit : Nat} : Clears bounds kinds (report (.undecided what limit)) :=
  report_clears fun _ _ other => by cases other

end Steps

section Composition

variable {rule : Rule α} {next : α → Rule β}

theorem Clears.of_within {more : KindSet} [clears : Clears bounds more rule]
    (within : ∀ kind, kinds.contains kind = true → more.contains kind = true) : Clears bounds kinds rule where
  leads _ _ _ gives sincere := clears.leads gives (sincere.weaken fun given => .inl (within _ given))

/-- A rule that spares what is in doubt clears it where nothing is. -/
instance (priority := low) Clears.of_spares [spares : Spares bounds rule] : Clears bounds .empty rule where
  leads := spares.leads .empty

/-- A rule that clears all there can be spares it. -/
instance (priority := low) Spares.of_clears [clears : ∀ kinds, Clears bounds kinds rule] : Spares bounds rule where
  leads _ := .clear

instance Spares.bind [first : Spares bounds rule] [second : ∀ a, Spares bounds (next a)] : Spares bounds (rule >>= next) where
  leads kinds := (first.leads kinds).bind fun a => (second a).leads kinds

instance (priority := high) Clears.spareThen [first : Spares bounds rule] [second : ∀ a, Clears bounds kinds (next a)] :
    Clears bounds kinds (rule >>= next) where
  leads := (first.leads kinds).bind fun a => (second a).leads

instance Clears.bind [first : Clears bounds kinds rule] [second : ∀ a, Clears bounds .empty (next a)] :
    Clears bounds kinds (rule >>= next) where
  leads := first.leads.bind fun a => (second a).leads

instance (priority := high) Clears.ask {question : Rule Bool} {one other : Rule α} [asks : Asks bounds kinds question yes no]
    [holds : Clears bounds yes one] [fails : Clears bounds no other] :
    Clears bounds kinds (question >>= fun answer => if answer = true then one else other) where
  leads := .ask asks holds.leads fails.leads

instance Spares.ite {c : Prop} [Decidable c] {one other : Rule α} [holds : Spares bounds one] [fails : Spares bounds other] :
    Spares bounds (if c then one else other) where
  leads kinds := .ite (holds.leads kinds) (fails.leads kinds)

instance Clears.ite {c : Prop} [Decidable c] {one other : Rule α} [holds : Clears bounds kinds one]
    [fails : Clears bounds kinds other] : Clears bounds kinds (if c then one else other) where
  leads := .ite holds.leads fails.leads

instance [spares : Spares bounds rule] : Spares bounds (discard rule) where
  leads kinds := (spares.leads kinds).bind fun _ => .pure rfl

instance [clears : Clears bounds kinds rule] : Clears bounds kinds (discard rule) where
  leads := clears.leads.bind fun _ => .pure rfl

instance {step : α → Rule (Option α)} {a : α} [spares : ∀ a, Spares bounds (step a)] : Spares bounds (loopFrom a step) where
  leads kinds := .loopFrom (fun _ => kinds) fun a => ((spares a).leads kinds).weaken fun next => .inr (by cases next <;> rfl)

instance {step : α → Rule (Option α)} {a : α} [clears : ∀ a, Clears bounds kinds (step a)] :
    Clears bounds kinds (loopFrom a step) where
  leads := .loopFrom (fun _ => kinds) fun a => (clears a).leads.weaken fun _ => .inl rfl

instance {otherwise : α} [clears : Clears bounds kinds rule] : Clears bounds kinds (nested otherwise rule) where
  leads := .nested clears.leads

instance {noLambda : Bool} [clears : Clears bounds kinds rule] : Clears bounds kinds (withNoLambda noLambda rule) where
  leads := .withNoLambda clears.leads

end Composition

section Questions

variable {question one other : Rule Bool} {kind : Kind} {oneYes oneNo otherYes otherNo : KindSet}

instance {n : Nat} : Spares bounds (nth n) := by
  unfold nth
  infer_instance

instance : Spares bounds current := by
  unfold current
  infer_instance

instance : Spares bounds position := by
  unfold position
  infer_instance

instance {n : Nat} : Spares bounds (nthIs n kind) := by
  unfold nthIs
  infer_instance

instance {n : Nat} : Spares bounds (nthIsWord n kind) := by
  unfold nthIsWord
  infer_instance

/-- A decision that ran into the limit is told of, which is no matter of what was expected. -/
instance [Inhabited α] {what : String} {peek : Lookahead.Peek α} : Spares bounds (decideBy what peek) := by
  unfold decideBy endless
  refine @Spares.bind _ _ _ _ _ inferInstance fun limit => @Spares.bind _ _ _ _ _ inferInstance fun cursor => ?_
  split <;> infer_instance

private theorem seesAny_leads {found : KindSet} {s t : State} {answer : Bool} (gives : bounds.Gives (seesAny found) s answer t)
    (sincere : s.Sincere bounds.env kinds) :
    t.Sincere bounds.env (kinds.union found) ∧ answer = found.contains (t.current bounds.env) := by
  obtain ⟨_, u, allowed, rest⟩ := gives.bind
  obtain ⟨here, v, looked, last⟩ := rest.bind
  obtain ⟨cursor, w, read, told⟩ := looked.bind
  cases allowed.act
  cases read.act
  obtain ⟨rfl, rfl⟩ := told.pure
  obtain ⟨rfl, rfl⟩ := last.pure
  exact ⟨State.sincere_allow sincere, rfl⟩

theorem gives_sees {s t : State} {answer : Bool} (gives : bounds.Gives (sees kind) s answer t) :
    t = s.allow (.singleton kind) ∧ answer = (t.current bounds.env == kind) := by
  obtain ⟨_, u, allowed, rest⟩ := gives.bind
  obtain ⟨here, v, looked, last⟩ := rest.bind
  obtain ⟨cursor, w, read, told⟩ := looked.bind
  cases allowed.act
  cases read.act
  obtain ⟨rfl, rfl⟩ := told.pure
  obtain ⟨rfl, rfl⟩ := last.pure
  exact ⟨rfl, rfl⟩

theorem sees_leads {s t : State} {answer : Bool} (gives : bounds.Gives (sees kind) s answer t)
    (sincere : s.Sincere bounds.env kinds) :
    t.Sincere bounds.env (kinds.union (.singleton kind)) ∧ answer = (t.current bounds.env == kind) := by
  obtain ⟨rfl, told⟩ := gives_sees gives
  exact ⟨State.sincere_allow sincere, told⟩

instance {found : KindSet} : Asks bounds kinds (seesAny found) found kinds where
  leads s answer t gives sincere := by
    obtain ⟨behind, told⟩ := seesAny_leads gives sincere
    cases answer with
    | true => exact State.sincere_found behind told.symm
    | false => exact State.sincere_missed behind told.symm

/-- Behind a kind that was found only this is in doubt, and it no longer is where it was not. -/
theorem sees_asks (found : yes.contains kind = true)
    (missed : ∀ other, kind ≠ other → kinds.contains other = true → no.contains other = true) :
    Asks bounds kinds (sees kind) yes no where
  leads s answer t gives sincere := by
    obtain ⟨behind, told⟩ := sees_leads gives sincere
    cases answer with
    | true =>
      obtain rfl := beq_iff_eq.mp told.symm
      exact behind.weaken fun _ => .inl found
    | false =>
      have away : kind ≠ t.current bounds.env := (beq_eq_false_iff_ne.mp told.symm).symm
      exact behind.weaken fun given => .inl (missed _ away (by simpa [away] using given))

instance (priority := low) : Asks bounds kinds (sees kind) (.singleton kind) kinds := sees_asks (by simp) fun _ _ => id

instance : Asks bounds (.singleton kind) (sees kind) (.singleton kind) .empty :=
  sees_asks (by simp) fun _ away given => by simp [away] at given

instance : Asks bounds (kinds.union (.singleton kind)) (sees kind) (.singleton kind) kinds :=
  sees_asks (by simp) fun _ away given => by simpa [away] using given

instance : Asks bounds ((KindSet.singleton kind).union kinds) (sees kind) (.singleton kind) kinds :=
  sees_asks (by simp) fun _ away given => by simpa [away] using given

/-- A look at one of the next tokens tells its kind and changes nothing. -/
theorem nthIs_gives {n : Nat} {s t : State} {answer : Bool} (gives : bounds.Gives (nthIs n kind) s answer t) :
    t = s ∧ answer = ((s.cursor bounds.env).nth n == kind) := by
  obtain ⟨here, v, looked, last⟩ := gives.bind
  obtain ⟨cursor, w, read, told⟩ := looked.bind
  cases read.act
  obtain ⟨rfl, rfl⟩ := told.pure
  obtain ⟨rfl, rfl⟩ := last.pure
  exact ⟨rfl, rfl⟩

class Probes (kind next : Kind) : Prop where
  probed : ∀ other, other ≠ next → kind.isProbed other = true

instance : Probes .dot .identifier := ⟨fun _ other => by simpa using other⟩

instance : Probes .leftBracket .rightBracket := ⟨fun _ other => by simpa using other⟩

/-- A token is in doubt only where the one behind it is as it should be. -/
theorem probe_asks {next : Kind} [probes : Probes kind next]
    (missed : ∀ other, kind ≠ other → kinds.contains other = true → no.contains other = true) :
    Asks bounds kinds (sees kind <&&> nthIs 1 next) (.singleton kind) no where
  leads s answer u gives sincere := by
    obtain ⟨found, t, seen, rest⟩ := gives.bind
    obtain ⟨behind, told⟩ := sees_leads seen sincere
    cases found with
    | false =>
      obtain ⟨rfl, rfl⟩ := rest.pure
      have away : kind ≠ u.current bounds.env := (beq_eq_false_iff_ne.mp told.symm).symm
      exact behind.weaken fun given => .inl (missed _ away (by simpa [away] using given))
    | true =>
      obtain ⟨rfl, same⟩ := nthIs_gives rest
      have here := beq_iff_eq.mp told.symm
      cases answer with
      | true => exact behind.weaken fun _ => .inl (by simp [here])
      | false =>
        refine behind.weaken fun _ => .inr ?_
        have probed := probes.probed _ (beq_eq_false_iff_ne.mp same.symm)
        rw [State.Waives, here, Kind.isPassed, probed, Bool.true_or]

instance (priority := high) {next : Kind} [Probes kind next] :
    Asks bounds kinds (sees kind <&&> nthIs 1 next) (.singleton kind) kinds := probe_asks fun _ _ => id

instance (priority := high) {next : Kind} [Probes kind next] :
    Asks bounds (.singleton kind) (sees kind <&&> nthIs 1 next) (.singleton kind) .empty :=
  probe_asks fun _ away given => by simp [away] at given

theorem seesWord_spares (contextual : kind.isContextualKeyword = true) : Spares bounds (seesWord kind) where
  leads kinds s answer t gives sincere := by
    obtain ⟨_, u, allowed, rest⟩ := gives.bind
    cases allowed.act
    have behind := Spares.leads _ rest (State.sincere_allow sincere)
    refine behind.weaken fun given => ?_
    simp only [KindSet.contains_union, KindSet.contains_singleton, Bool.or_eq_true, decide_eq_true_eq] at given
    exact given.imp id fun same => by simp [State.Waives, Kind.isPassed, ← same, contextual]

instance Asks.of_spares [spares : Spares bounds question] : Asks bounds kinds question kinds kinds where
  leads := (spares.leads kinds).weaken fun answer => .inr (by cases answer <;> rfl)

instance (priority := low) Asks.of_clears [clears : Clears bounds kinds question] : Asks bounds kinds question .empty .empty where
  leads := clears.leads.weaken fun answer => .inr (by cases answer <;> rfl)

theorem Asks.and (first : Asks bounds kinds one oneYes no) (second : Asks bounds oneYes other yes no) :
    Asks bounds kinds (one <&&> other) yes no where
  leads := first.leads.bind fun found => by
    cases found with
    | true => exact second.leads
    | false => exact .pure rfl

theorem Asks.weaken {more rest : KindSet} (asks : Asks bounds kinds question yes no) (holds : yes = .empty ∨ yes = more)
    (fails : no = .empty ∨ no = rest) : Asks bounds kinds question more rest where
  leads := asks.leads.weaken fun answer => by
    cases answer with
    | true => exact holds
    | false => exact fails

instance (priority := low) [first : Asks bounds kinds one oneYes oneNo] [second : Asks bounds oneNo other yes no] :
    Asks bounds kinds (one <||> other) (oneYes.union yes) no where
  leads := first.leads.bind fun found s a t gives sincere => by
    cases found with
    | true =>
      obtain ⟨rfl, rfl⟩ := gives.pure
      exact sincere.weaken fun given => .inl (by simpa using .inl given)
    | false =>
      have behind := second.leads gives sincere
      cases a with
      | true => exact State.Sincere.weaken behind fun given => .inl (by simpa using .inr given)
      | false => exact behind

instance [first : Asks bounds kinds one oneYes .empty] [second : Asks bounds oneYes other yes no] :
    Asks bounds kinds (one <&&> other) yes no := .and (first.weaken (.inr rfl) (.inl rfl)) second

instance [first : Asks bounds kinds one oneYes no] [second : Asks bounds oneYes other yes no] :
    Asks bounds kinds (one <&&> other) yes no := .and first second

instance [first : Spares bounds one] [second : Spares bounds other] : Spares bounds (one <&&> other) where
  leads kinds := (first.leads kinds).bind fun found => by
    cases found with
    | true => exact second.leads kinds
    | false => exact .pure rfl

/-- A question after which a rule is run if something is found, and another if not. -/
instance Spares.ask {rest : Rule α} {behind : Rule α} [asks : ∀ kinds, Asks bounds kinds question yes kinds]
    [holds : Clears bounds yes behind] [fails : Spares bounds rest] :
    Spares bounds (question >>= fun answer => if answer = true then behind else rest) where
  leads kinds := .ask (asks kinds) (holds.leads.weaken fun _ => .inl rfl) (fails.leads kinds)

end Questions

section Combinators

variable {rule : Rule α} {kind : Kind} {left : KindSet}

class Defers (bounds : Bounds) (kinds : KindSet) {α : Type} (rule : Rule α) (left : outParam KindSet) : Prop where
  leads : Leads bounds kinds rule fun _ => left

instance (priority := low) Clears.deferThen {next : α → Rule β} [defers : Defers bounds kinds rule left]
    [second : ∀ a, Clears bounds left (next a)] : Clears bounds kinds (rule >>= next) where
  leads := defers.leads.bind fun a => (second a).leads

instance [defers : Defers bounds kinds rule left] : Defers bounds kinds (discard rule) left where
  leads := defers.leads.bind fun _ => .pure rfl

instance [Clears bounds kinds rule] : Clears bounds kinds (bracketed rule) := inferInstanceAs (Clears bounds kinds (withNoLambda false rule))

instance [defers : Defers bounds kinds rule left] : Defers bounds kinds (bracketed rule) left where
  leads := .withNoLambda defers.leads

instance {rule : Rule Kind} [Clears bounds kinds rule] : Clears bounds kinds (nodeOf rule) := by
  unfold nodeOf
  infer_instance

instance {rule : Rule Unit} [Clears bounds kinds rule] : Clears bounds kinds (node kind rule) := by
  unfold node
  infer_instance

instance {rule : Rule (Kind × α)} [Clears bounds kinds rule] : Clears bounds kinds (nodeWith rule) := by
  unfold nodeWith
  infer_instance

instance {first : Completed} {rule : Rule Kind} [Clears bounds kinds rule] : Clears bounds kinds (around first rule) := by
  unfold around
  infer_instance

instance {rule : Rule (Option Kind)} [clears : Clears bounds kinds rule] : Clears bounds kinds (nodeIf rule) where
  leads := by
    unfold nodeIf
    refine Leads.spare.bind fun mark => clears.leads.bind fun found => ?_
    cases found <;> exact Leads.spare.bind fun _ => .pure rfl

instance [asks : Asks bounds kinds (sees kind) (.singleton kind) no] : Asks bounds kinds (accept kind) .empty no where
  leads := by
    have taken : Leads bounds (.singleton kind) (consume kind) fun _ => .empty := .clear
    exact .ask asks (taken.bind fun _ => .pure rfl) (.pure rfl)

end Combinators

end Grammar

end LosslessJava
