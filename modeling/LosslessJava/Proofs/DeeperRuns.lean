import LosslessJava.Proofs.Angles
import LosslessJava.Proofs.Clean.Inputs
import LosslessJava.Proofs.Expected
import LosslessJava.Proofs.Silence

/-! A run that reports nothing, beside a run of the same rule in which rules may nest deeper. The two do the same until
a name with a `<` behind it is tried as the receiver of a method reference, and the trial fails in the first run only
for want of room. From there on the first run goes on within what the other one read as type arguments, and it does
not get out of them: no rule goes over their `>` that did not start in front of their `<`. -/

namespace LosslessJava

/-- The same options with another bound on how deep rules may nest. -/
def ParseOptions.within (options : ParseOptions) (maxDepth : Nat) : ParseOptions := { options with maxDepth }

namespace Parser

def Env.within (env : Env) (maxDepth : Nat) : Env := { env with options := env.options.within maxDepth }

end Parser

namespace Grammar

open LosslessJava.Parser

set_option synthInstance.maxSize 2000

abbrev Bounds.within (bounds : Bounds) (bound depth : Nat) : Bounds := ⟨bounds.env.within bound, depth⟩

variable {bounds : Bounds} {α β : Type} {s t : State}

section Runs

variable {rule : Rule α} {a : α}

theorem Bounds.Gives.ready (gives : bounds.Gives rule s a t) (ready : s.Ready bounds.env)
    (clean : t.errorCount = s.errorCount) : t.Ready bounds.env := by
  obtain ⟨_, run⟩ := gives
  have evaluates := Program.evaluates_of_exec run.exec_eq
  constructor
  · rcases evaluates.heard rfl ready.normal with calm | ⟨first, tells⟩
    · exact (calm.recovery (by simp [ready.normal])).trans ready.normal
    · have more := tells.counted
      omega
  · have invariant := @State.position_invariant bounds.env (· < bounds.env.stream.size) fun x n before => by omega
    exact evaluates.keeps invariant (fun _ _ => Program.uses_any _) (Program.uses_any _) rfl ready.inside

theorem Bounds.Gives.loopFrom {b : α} {step : α → Rule (Option α)} (gives : bounds.Gives (Parser.loopFrom a step) s b t) :
    bounds.Gives (step a) s none t ∧ b = a ∨
      ∃ c u, bounds.Gives (step a) s (some c) u ∧ bounds.Gives (Parser.loopFrom c step) u b t := by
  rcases bounds with ⟨env, depth⟩
  obtain ⟨_, run⟩ := gives
  cases run with
  | loopEnd round => exact .inl ⟨⟨_, round⟩, rfl⟩
  | loopNext round _ _ rest => exact .inr ⟨_, _, ⟨_, round⟩, ⟨_, rest⟩⟩

private theorem Bounds.Gives.nested_of_lt {otherwise : α} (room : s.depth < bounds.env.options.maxDepth)
    (gives : bounds.Gives (Parser.nested otherwise rule) s a t) : ∃ u, bounds.Gives rule s.enter a u ∧ t = u.leave := by
  rcases bounds with ⟨env, depth⟩
  obtain ⟨_, run⟩ := gives
  generalize given : (Except.ok (a, t) : Result α) = r at run
  cases run with
  | tooDeep deep => exact absurd room (Nat.not_lt.mpr deep)
  | nested _ inner =>
    obtain ⟨⟨b, u⟩, rfl, same⟩ := map_eq_ok.mp given.symm
    cases same
    exact ⟨u, ⟨_, inner⟩, rfl⟩

theorem Bounds.Gives.room {otherwise : α} (gives : bounds.Gives (Parser.nested otherwise rule) s a t)
    (normal : s.recovery = .normal) (clean : t.errorCount = s.errorCount) : s.depth < bounds.env.options.maxDepth := by
  rcases bounds with ⟨env, depth⟩
  obtain ⟨_, run⟩ := gives
  generalize given : (Except.ok (a, t) : Result α) = r at run
  cases run with
  | tooDeep deep =>
    obtain ⟨u, abandoned, same⟩ := map_eq_ok.mp given.symm
    cases same
    have more := @abandonNested_fails ⟨env, depth⟩ _ _ normal abandoned
    omega
  | nested room _ => exact room

end Runs

/-- If a rule reports nothing, the post-condition holds where it is left. -/
def Smooth (bounds : Bounds) (rule : Rule α) (s : State) (post : α → State → Prop) : Prop :=
  ∀ a t, bounds.Gives rule s a t → s.Ready bounds.env → t.errorCount = s.errorCount → post a t

namespace Smooth

variable {rule : Rule α} {post : α → State → Prop}

theorem weaken {other : α → State → Prop} (smooth : Smooth bounds rule s post) (implies : ∀ a t, post a t → other a t) :
    Smooth bounds rule s other := fun a t gives ready clean => implies a t (smooth a t gives ready clean)

theorem always (holds : ∀ a t, post a t) : Smooth bounds rule s post := fun a t _ _ _ => holds a t

theorem and {other : α → State → Prop} (one : Smooth bounds rule s post) (two : Smooth bounds rule s other) :
    Smooth bounds rule s fun a t => post a t ∧ other a t := fun a t gives ready clean =>
  ⟨one a t gives ready clean, two a t gives ready clean⟩

theorem of_draws {drawn : α → List Shape → State → Prop} (draws : Draws bounds rule s drawn)
    (implies : ∀ a row t, s.Adds bounds.env row t → drawn a row t → post a t) : Smooth bounds rule s post :=
  fun a t gives ready clean => by
    obtain ⟨row, adds, holds⟩ := draws a t gives ready clean
    exact implies a row t adds holds

theorem pure {a : α} (holds : post a s) : Smooth bounds (Pure.pure a) s post := fun b t gives _ _ => by
  obtain ⟨rfl, rfl⟩ := gives.pure
  exact holds

theorem fails [fails : Fails bounds rule] : Smooth bounds rule s post := fun a t gives ready clean => by
  have more := fails.fails gives ready.normal
  omega

theorem bind {first : Rule β} {next : β → Rule α} {middle : β → State → Prop} (one : Smooth bounds first s middle)
    (two : ∀ b t, middle b t → Smooth bounds (next b) t post) : Smooth bounds (first >>= next) s post :=
  fun a u gives ready clean => by
    obtain ⟨b, t, ran, rest⟩ := gives.bind
    have early := ran.le_errorCount
    have later := rest.le_errorCount
    exact two b t (one b t ran ready (by omega)) a u rest (ran.ready ready (by omega)) (by omega)

theorem peek {first : Rule β} [peeks : Peeks bounds first] : Smooth bounds first s fun _ t => s.Still t :=
  fun _ _ gives ready clean => peeks.still gives ready.normal clean

theorem look {first : Rule β} {answer : TokenCursor → β} [reads : Reads bounds first answer] :
    Smooth bounds first s fun a t => s.Still t ∧ a = answer (s.cursor bounds.env) :=
  fun _ _ gives ready clean => ⟨reads.still gives ready.normal clean, reads.reads gives ready.normal clean⟩

theorem call {name : Nonterminal α} (inner : ∀ depth, Smooth ⟨bounds.env, depth⟩ (Grammar.rule α name) s post) :
    Smooth bounds (Parser.call name) s post := fun a t gives ready clean => by
  obtain ⟨depth, -, body⟩ := gives.call
  exact inner depth a t body ready clean

theorem nested {otherwise : α} (inner : Smooth bounds rule s.enter fun a t => post a t.leave) :
    Smooth bounds (Parser.nested otherwise rule) s post := fun a t gives ready clean => by
  obtain ⟨u, ran, rfl⟩ := gives.nested_of_lt (gives.room ready.normal clean)
  exact inner a u ran ⟨ready.normal, ready.inside⟩ clean

private theorem withNoLambda {noLambda : Bool}
    (inner : Smooth bounds rule (s.withNoLambda noLambda) fun a t => post a (t.withNoLambda s.noLambda)) :
    Smooth bounds (Parser.withNoLambda noLambda rule) s post := fun a t gives ready clean => by
  obtain ⟨u, ran, rfl⟩ := gives.withNoLambda
  exact inner a u ran ⟨ready.normal, ready.inside⟩ clean

/-- What holds of the last round of a loop, and of a round and all behind it, holds of the loop. -/
theorem loopFrom {step : α → Rule (Option α)} {motive : α → State → α → State → Prop}
    (leaves : ∀ a s, Smooth bounds (step a) s fun next t => next = none → motive a s a t)
    (goes : ∀ a s, Smooth bounds (step a) s fun next t => ∀ c, next = some c →
      Smooth bounds (Parser.loopFrom c step) t fun b u => motive c t b u → motive a s b u) (a : α) (s : State) :
    Smooth bounds (Parser.loopFrom a step) s (motive a s) := by
  rcases bounds with ⟨env, calls⟩
  rintro b u ⟨steps, run⟩
  induction left : env.stream.size - s.position using Nat.strongRecOn generalizing a s steps with
  | ind size ih =>
    intro ready clean
    cases run with
    | loopEnd round => exact leaves _ _ _ _ ⟨_, round⟩ ready clean rfl
    | @loopNext _ _ _ c _ _ t _ _ _ round inside moved rest =>
      have ran : Bounds.Gives ⟨env, calls⟩ (step a) s (some c) t := ⟨_, round⟩
      have later : Bounds.Gives ⟨env, calls⟩ (Parser.loopFrom c step) t b u := ⟨_, rest⟩
      have one := ran.le_errorCount
      have two := later.le_errorCount
      have ready' := ran.ready ready (by omega)
      exact goes a s _ t ran ready (by omega) c rfl b u later ready' (by omega)
        (ih _ (by dsimp only at inside left; omega) c t _ rest rfl ready' (by omega))

end Smooth

/-- Ways over the tokens that rules keep to. -/
inductive Course where
  /-- A rule for a type closes the angle brackets it opens. -/
  | spans
  /-- It also does the same however deep rules may nest. -/
  | angles
  /-- A rule does the same however deep rules may nest, whatever it takes. -/
  | free
  /-- A rule does not get out of the type arguments of a receiver, and does the same unless it gets into some. -/
  | all
  deriving DecidableEq

namespace Course

variable {stream : TokenStream} {course : Course} {kind : Kind} {x y z : Nat}

@[reducible] def takes : Course → Kind → Bool
  | .all, .gt => false
  | .all, _ | .free, _ => true
  | _, kind => kind.isUnpaired

/-- What is gone over closes its angle brackets, or at least does not get out of type arguments that it starts in. -/
def Leads (stream : TokenStream) : Course → Nat → Nat → Prop
  | .all, x, y => x ≤ y ∧ ∀ name close, stream.Receiver name close → name + 1 < x → x ≤ close → y ≤ close
  | .free, x, y => x ≤ y
  | _, x, y => x ≤ y ∧ Kind.Angled (stream.kinds x y)

def Parts (stream : TokenStream) : Course → Nat → Nat → Prop
  | .all, x, y => ∃ name close, stream.Receiver name close ∧ x ≤ name ∧ name + 1 < y ∧ y ≤ close
  | _, _, _ => False

def Waits (stream : TokenStream) : Course → Nat → Nat → Prop
  | .all, x, y => ∃ name close, stream.Receiver name close ∧ x ≤ name ∧ y = name + 1
  | _, _, _ => False

theorem Leads.le (leads : course.Leads stream x y) : x ≤ y := by
  cases course with
  | free => exact leads
  | spans | angles | all => exact leads.1

theorem Leads.refl : course.Leads stream x x := by
  have none : stream.kinds x x = [] := by simp [TokenStream.kinds]
  cases course with
  | all => exact ⟨Nat.le_refl x, fun _ _ _ _ inside => inside⟩
  | free => exact Nat.le_refl x
  | spans | angles => exact ⟨Nat.le_refl x, none ▸ .nil⟩

theorem Leads.trans (first : course.Leads stream x y) (second : course.Leads stream y z) : course.Leads stream x z := by
  have whole := Nat.le_trans first.le second.le
  cases course with
  | all =>
    refine ⟨whole, fun name close receiver inside before => ?_⟩
    exact second.2 name close receiver (Nat.lt_of_lt_of_le inside first.le) (first.2 name close receiver inside before)
  | free => exact whole
  | spans | angles =>
    refine ⟨whole, ?_⟩
    rw [← stream.kinds_append first.le second.le]
    exact first.2.append second.2

private theorem Leads.step (taken : course.takes (stream.kindAt x) = true) : course.Leads stream x (x + 1) := by
  have one : stream.kinds x (x + 1) = [stream.kindAt x] := by
    rw [stream.kinds_cons (Nat.lt_succ_self x)]
    simp [TokenStream.kinds]
  cases course with
  | all =>
    refine ⟨Nat.le_succ x, fun name close receiver inside before => Nat.lt_of_le_of_ne before fun same => ?_⟩
    rw [same, receiver.closed] at taken
    cases taken
  | free => exact Nat.le_succ x
  | spans | angles => exact ⟨Nat.le_succ x, one ▸ .one taken⟩

class Angular (course : Course) : Prop where
  leads : ∀ {stream x y}, x ≤ y → Kind.Angled (stream.kinds x y) → course.Leads stream x y
  angled : ∀ {stream x y}, course.Leads stream x y → Kind.Angled (stream.kinds x y)
  whole : ∀ {stream x y}, ¬ course.Parts stream x y

instance : Angular .spans := ⟨fun le angled => ⟨le, angled⟩, fun leads => leads.2, fun parts => parts⟩

instance : Angular .angles := ⟨fun le angled => ⟨le, angled⟩, fun leads => leads.2, fun parts => parts⟩

private theorem Leads.of_angles (leads : Course.angles.Leads stream x y) : Course.all.Leads stream x y :=
  ⟨leads.1, fun _ _ receiver inside before => receiver.within inside before leads.2⟩

private theorem Parts.after (parts : course.Parts stream y z) (le : x ≤ y) : course.Parts stream x z := by
  cases course with
  | all =>
    obtain ⟨name, close, receiver, behind, inside⟩ := parts
    exact ⟨name, close, receiver, Nat.le_trans le behind, inside⟩
  | spans | angles | free => exact parts

theorem Parts.behind (parts : course.Parts stream x y) (leads : course.Leads stream y z) : course.Parts stream x z := by
  cases course with
  | all =>
    obtain ⟨name, close, receiver, before, inside, within⟩ := parts
    exact ⟨name, close, receiver, before, Nat.lt_of_lt_of_le inside leads.1, leads.2 name close receiver inside within⟩
  | spans | angles | free => exact parts.elim

private theorem Waits.after (waits : course.Waits stream y z) (le : x ≤ y) : course.Waits stream x z := by
  cases course with
  | all =>
    obtain ⟨name, close, receiver, behind, here⟩ := waits
    exact ⟨name, close, receiver, Nat.le_trans le behind, here⟩
  | spans | angles | free => exact waits

theorem Waits.opened (waits : course.Waits stream x y) : stream.kindAt y = .lt := by
  cases course with
  | all =>
    obtain ⟨name, close, receiver, -, rfl⟩ := waits
    exact receiver.opened
  | spans | angles | free => exact waits.elim

theorem Waits.parts (waits : course.Waits stream x y) (leads : course.Leads stream (y + 1) z) :
    course.Parts stream x z := by
  cases course with
  | all =>
    obtain ⟨name, close, receiver, before, rfl⟩ := waits
    have inside : name + 1 < name + 1 + 1 := Nat.lt_succ_self _
    have order := receiver.order
    refine ⟨name, close, receiver, before, Nat.lt_of_lt_of_le inside leads.1, ?_⟩
    exact leads.2 name close receiver inside (by omega)
  | spans | angles | free => exact waits.elim

/-- What a run from one position to another has in common with another run, which should have come to the same. -/
inductive Agrees (stream : TokenStream) (course : Course) (x y : Nat) (same late : Prop) : Prop where
  | same (same : same)
  | parted (parts : course.Parts stream x y)
  | late (late : late) (waits : course.Waits stream x y)

theorem Agrees.after {same late : Prop} (agrees : course.Agrees stream y z same late) (le : x ≤ y) :
    course.Agrees stream x z same late := by
  cases agrees with
  | same same => exact .same same
  | parted parts => exact .parted (parts.after le)
  | late late waits => exact .late late (waits.after le)

end Course

/-- A loop keeps to a course if all its rounds do. -/
theorem Smooth.leadsFrom {course : Course} {step : α → Rule (Option α)}
    (round : ∀ a t, Smooth bounds (step a) t fun _ u => course.Leads bounds.env.stream t.position u.position) (a : α) (s : State) :
    Smooth bounds (Parser.loopFrom a step) s fun _ t => course.Leads bounds.env.stream s.position t.position := by
  apply Smooth.loopFrom (motive := fun _ s _ t => course.Leads bounds.env.stream s.position t.position)
  · intro a s
    exact (round a s).weaken fun _ _ leads _ => leads
  · intro a s
    exact (round a s).weaken fun _ _ leads _ _ => .always fun _ _ later => leads.trans later

/-- A rule that is run in a state keeps to a course, and where rules may nest deeper it does the same, or parts. It may
stop late, between a name and its type arguments, where the answer allows for that. -/
structure OnCourse (bounds : Bounds) (course : Course) (late : α → Prop) (rule : Rule α) (s : State) : Prop where
  leads : Smooth bounds rule s fun _ t => course.Leads bounds.env.stream s.position t.position
  agrees : course ≠ .spans → ∀ {bound depth b u}, bounds.env.options.maxDepth ≤ bound →
    (bounds.within bound depth).Gives rule s b u →
      Smooth bounds rule s fun a t => course.Agrees bounds.env.stream s.position t.position (b = a ∧ u = t) (late a)

/-- No answer allows for a late stop. -/
abbrev Never {α : Type} (_ : α) : Prop := False

/-- A rule keeps to a course wherever it is run, and never stops late. -/
class Steers (bounds : Bounds) (course : Course) {α : Type} (rule : Rule α) : Prop where
  onCourse : ∀ s, OnCourse bounds course Never rule s

namespace OnCourse

variable {course : Course} {rule : Rule α} {late : α → Prop}

theorem weaken {other : α → Prop} (onCourse : OnCourse bounds course late rule s) (implies : ∀ a, late a → other a) :
    OnCourse bounds course other rule s where
  leads := onCourse.leads
  agrees compared _ _ _ _ le gives := (onCourse.agrees compared le gives).weaken fun a t agrees => by
    cases agrees with
    | same same => exact .same same
    | parted parts => exact .parted parts
    | late here waits => exact .late (implies a here) waits

theorem of_never (onCourse : OnCourse bounds course Never rule s) : OnCourse bounds course late rule s :=
  onCourse.weaken fun _ never => never.elim

/-- What does the same anyway keeps to the course on which it goes over the tokens. -/
theorem of_free (leads : Smooth bounds rule s fun _ t => course.Leads bounds.env.stream s.position t.position)
    (free : OnCourse bounds .free Never rule s) : OnCourse bounds course late rule s where
  leads := leads
  agrees _ _ _ _ _ le gives := (free.agrees (by decide) le gives).weaken fun _ _ agrees => by
    cases agrees with
    | same same => exact .same same
    | parted impossible => exact impossible.elim
    | late impossible => exact impossible.elim

theorem spans [angular : Course.Angular course] (onCourse : OnCourse bounds course late rule s) :
    OnCourse bounds .spans late rule s where
  leads := onCourse.leads.weaken fun _ _ leads => ⟨leads.le, angular.angled leads⟩
  agrees compared := absurd rfl compared

theorem of_angles (onCourse : OnCourse bounds .angles Never rule s) : OnCourse bounds .all late rule s where
  leads := onCourse.leads.weaken fun _ _ leads => leads.of_angles
  agrees _ _ _ _ _ le gives := (onCourse.agrees (by decide) le gives).weaken fun _ _ agrees => by
    cases agrees with
    | same same => exact .same same
    | parted impossible => exact impossible.elim
    | late impossible => exact impossible.elim

theorem fails [Fails bounds rule] : OnCourse bounds course late rule s := ⟨.fails, fun _ _ _ _ _ _ _ => .fails⟩

theorem pure {a : α} : OnCourse bounds course late (Pure.pure a) s where
  leads := .pure .refl
  agrees _ _ _ _ _ _ gives := .pure (.same gives.pure)

theorem act {action : Action α} (same : ∀ bound, action.run (bounds.env.within bound) s = action.run bounds.env s)
    (leads : Smooth bounds (.act action) s fun _ t => course.Leads bounds.env.stream s.position t.position) :
    OnCourse bounds course late (.act action) s where
  leads := leads
  agrees _ bound depth b u _ other a t gives _ _ := by
    have run := (same bound).symm.trans other.act
    rw [gives.act, Except.ok.injEq, Prod.mk.injEq] at run
    exact .same ⟨run.1.symm, run.2.symm⟩

/-- A rule, and another one behind it. If the first stopped late, the other one stops there as well or takes the `<`. -/
theorem bindLate {first : Rule β} {next : β → Rule α} {middle : β → Prop} {known : β → State → Prop}
    (knows : Smooth bounds first s known) (one : OnCourse bounds course middle first s)
    (two : ∀ b t, known b t → OnCourse bounds course late (next b) t)
    (resumes : ∀ b t, known b t → middle b → bounds.env.stream.kindAt t.position = .lt →
      Smooth bounds (next b) t fun a u => u.position = t.position ∧ late a ∨
        course.Leads bounds.env.stream (t.position + 1) u.position) :
    OnCourse bounds course late (first >>= next) s where
  leads := (knows.and one.leads).bind fun b t ⟨here, leads⟩ => (two b t here).leads.weaken fun _ _ later => leads.trans later
  agrees compared bound depth b' u' le other a u gives ready clean := by
    obtain ⟨b', t', ran', rest'⟩ := other.bind
    obtain ⟨b, t, ran, rest⟩ := gives.bind
    have early := ran.le_errorCount
    have later := rest.le_errorCount
    have ready' := ran.ready ready (by omega)
    have here := knows b t ran ready (by omega)
    cases one.agrees compared le ran' b t ran ready (by omega) with
    | same same =>
      obtain ⟨rfl, rfl⟩ := same
      exact ((two _ _ here).agrees compared le rest' a u rest ready' (by omega)).after
        (one.leads _ _ ran ready (by omega)).le
    | parted parts => exact .parted (parts.behind ((two b t here).leads a u rest ready' (by omega)))
    | late stops waits =>
      rcases resumes b t here stops waits.opened a u rest ready' (by omega) with ⟨still, stops⟩ | leads
      · exact .late stops (still ▸ waits)
      · exact .parted (waits.parts leads)

theorem bind {first : Rule β} {next : β → Rule α} {known : β → State → Prop} (knows : Smooth bounds first s known)
    (one : OnCourse bounds course Never first s) (two : ∀ b t, known b t → OnCourse bounds course late (next b) t) :
    OnCourse bounds course late (first >>= next) s := bindLate knows one two fun _ _ _ never => never.elim

theorem behindLate {first : Rule β} {next : β → Rule α} {middle : β → Prop} (one : OnCourse bounds course middle first s)
    (two : ∀ b t, OnCourse bounds course late (next b) t)
    (resumes : ∀ b t, middle b → bounds.env.stream.kindAt t.position = .lt →
      Smooth bounds (next b) t fun a u => u.position = t.position ∧ late a ∨
        course.Leads bounds.env.stream (t.position + 1) u.position) :
    OnCourse bounds course late (first >>= next) s :=
  bindLate (show Smooth bounds first s fun _ _ => True from .always fun _ _ => trivial) one (fun b t _ => two b t)
    fun b t _ => resumes b t

theorem behind {first : Rule β} {next : β → Rule α} (one : OnCourse bounds course Never first s)
    (two : ∀ b t, OnCourse bounds course late (next b) t) : OnCourse bounds course late (first >>= next) s :=
  behindLate one two fun _ _ never => never.elim

theorem andThen {first : Rule β} {next : β → Rule α} [one : Steers bounds course first]
    (two : ∀ b t, OnCourse bounds course late (next b) t) : OnCourse bounds course late (first >>= next) s :=
  behind (one.onCourse s) two

theorem look {first : Rule β} {next : β → Rule α} {answer : TokenCursor → β} [Reads bounds first answer]
    [one : Steers bounds course first]
    (goes : ∀ t, s.Still t → OnCourse bounds course late (next (answer (s.cursor bounds.env))) t) :
    OnCourse bounds course late (first >>= next) s :=
  bind .look (one.onCourse s) fun _ t ⟨still, same⟩ => same ▸ goes t still

/-- A loop of rounds that may stop late. The round behind one that did so stops there as well or takes the `<`. -/
theorem loopFromLate {step : α → Rule (Option α)} {middle : Option α → Prop}
    (round : ∀ a t, OnCourse bounds course middle (step a) t)
    (resumes : ∀ next t, middle next → bounds.env.stream.kindAt t.position = .lt → ∃ c, next = some c ∧
      Smooth bounds (Parser.loopFrom c step) t fun a u => u.position = t.position ∧ late a ∨
        course.Leads bounds.env.stream (t.position + 1) u.position) (a : α) (s : State) :
    OnCourse bounds course late (Parser.loopFrom a step) s := by
  have leads := Smooth.leadsFrom fun a t => (round a t).leads
  refine ⟨leads a s, fun compared bound depth b' u' le other => ?_⟩
  suffices agrees : ∀ a s, Smooth bounds (Parser.loopFrom a step) s fun b u => ∀ b' u',
      (bounds.within bound depth).Gives (Parser.loopFrom a step) s b' u' →
        course.Agrees bounds.env.stream s.position u.position (b' = b ∧ u' = u) (late b) from
    (agrees a s).weaken fun _ _ agrees => agrees b' u' other
  apply Smooth.loopFrom (motive := fun a s b u => ∀ b' u', (bounds.within bound depth).Gives (Parser.loopFrom a step) s b' u' →
    course.Agrees bounds.env.stream s.position u.position (b' = b ∧ u' = u) (late b))
  · rintro a s _ t gives ready clean rfl b' u' other
    have ends {next : Option α} {v : State} (ran : (bounds.within bound depth).Gives (step a) s next v)
        (same : next = none ∧ v = t → b' = a ∧ u' = t) :
        course.Agrees bounds.env.stream s.position t.position (b' = a ∧ u' = t) (late a) := by
      cases (round a s).agrees compared le ran none t gives ready clean with
      | same both => exact .same (same both)
      | parted parts => exact .parted parts
      | late stops waits =>
        obtain ⟨_, impossible, _⟩ := resumes none t stops waits.opened
        cases impossible
    rcases other.loopFrom with ⟨last, rfl⟩ | ⟨c, v, ran, -⟩
    · exact ends last fun both => ⟨rfl, both.2⟩
    · exact ends ran fun both => by cases both.1
  · rintro a s _ t gives ready clean c rfl b u rest ready' clean' ih b' u' other
    have goes {next : Option α} {v : State} (ran : (bounds.within bound depth).Gives (step a) s next v)
        (same : next = some c ∧ v = t → course.Agrees bounds.env.stream t.position u.position (b' = b ∧ u' = u) (late b)) :
        course.Agrees bounds.env.stream s.position u.position (b' = b ∧ u' = u) (late b) := by
      cases (round a s).agrees compared le ran _ t gives ready clean with
      | same both => exact (same both).after ((round a s).leads _ t gives ready clean).le
      | parted parts => exact .parted (parts.behind (leads c t b u rest ready' clean'))
      | late stops waits =>
        obtain ⟨_, same, resumed⟩ := resumes _ t stops waits.opened
        cases same
        rcases resumed b u rest ready' clean' with ⟨still, stops⟩ | leads
        · exact .late stops (still ▸ waits)
        · exact .parted (waits.parts leads)
    rcases other.loopFrom with ⟨last, rfl⟩ | ⟨c', v, ran, later⟩
    · exact goes last fun both => by cases both.1
    · exact goes ran fun both => by
        obtain ⟨same, rfl⟩ := both
        cases same
        exact ih b' u' later

theorem loopFrom {step : α → Rule (Option α)} (round : ∀ a t, OnCourse bounds course Never (step a) t) (a : α) (s : State) :
    OnCourse bounds course late (Parser.loopFrom a step) s :=
  loopFromLate round (fun _ _ never => never.elim) a s

theorem nested {otherwise : α} (inner : OnCourse bounds course late rule s.enter) :
    OnCourse bounds course late (Parser.nested otherwise rule) s where
  leads := .nested (inner.leads.weaken fun _ _ leads => leads)
  agrees compared bound depth b' u' le other a t gives ready clean := by
    have room := gives.room ready.normal clean
    obtain ⟨u, ran, rfl⟩ := gives.nested_of_lt room
    obtain ⟨v, ran', rfl⟩ := other.nested_of_lt (Nat.lt_of_lt_of_le room le)
    cases inner.agrees compared le ran' a u ran ⟨ready.normal, ready.inside⟩ clean with
    | same both =>
      obtain ⟨rfl, rfl⟩ := both
      exact .same ⟨rfl, rfl⟩
    | parted parts => exact .parted parts
    | late stops waits => exact .late stops waits

theorem withNoLambda {noLambda : Bool} (inner : OnCourse bounds course late rule (s.withNoLambda noLambda)) :
    OnCourse bounds course late (Parser.withNoLambda noLambda rule) s where
  leads := .withNoLambda (inner.leads.weaken fun _ _ leads => leads)
  agrees compared bound depth b' u' le other a t gives ready clean := by
    obtain ⟨u, ran, rfl⟩ := gives.withNoLambda
    obtain ⟨v, ran', rfl⟩ := other.withNoLambda
    cases inner.agrees compared le ran' a u ran ⟨ready.normal, ready.inside⟩ clean with
    | same both =>
      obtain ⟨rfl, rfl⟩ := both
      exact .same ⟨rfl, rfl⟩
    | parted parts => exact .parted parts
    | late stops waits => exact .late stops waits

/-- A call does what the rule that it calls does one level deeper. -/
theorem call {env : Env} {depth : Nat} {name : Nonterminal α} (body : OnCourse ⟨env, depth⟩ course late (Grammar.rule α name) s) :
    OnCourse ⟨env, depth + 1⟩ course late (Parser.call name) s where
  leads a t gives ready clean := by
    obtain ⟨_, same, ran⟩ := gives.call
    cases same
    exact body.leads a t ran ready clean
  agrees compared bound depth' b' u' le other a t gives ready clean := by
    obtain ⟨_, same, ran⟩ := gives.call
    cases same
    obtain ⟨_, -, ran'⟩ := other.call
    exact body.agrees compared le ran' a t ran ready clean

private theorem leads_pushToken {kind : Kind} (taken : course.takes (s.current bounds.env) = true) (ready : s.Ready bounds.env) :
    course.Leads bounds.env.stream s.position (s.pushToken bounds.env kind 1).position := by
  have inside := ready.inside
  show course.Leads bounds.env.stream s.position (min (s.position + 1) (bounds.env.stream.size - 1))
  rw [State.current, TokenCursor.current, TokenCursor.nth_eq] at taken
  by_cases last : s.position + 1 ≤ bounds.env.stream.size - 1
  · rw [Nat.min_eq_left last]
    exact .step taken
  · rw [Nat.min_eq_right (by omega), show bounds.env.stream.size - 1 = s.position by omega]
    exact .refl

theorem push {action : Action Unit} {late : Unit → Prop}
    (same : ∀ bound, action.run (bounds.env.within bound) s = action.run bounds.env s)
    (takes : ∀ a t, action.run bounds.env s = .ok (a, t) → t = s ∨
      course.takes (s.current bounds.env) = true ∧ ∃ kind, t = s.pushToken bounds.env kind 1) :
    OnCourse bounds course late (.act action) s := by
  refine act same fun a t gives ready _ => ?_
  rcases takes a t gives.act with rfl | ⟨taken, kind, rfl⟩
  · exact .refl
  · exact leads_pushToken taken ready

theorem consumeAny {late : Unit → Prop} (taken : course.takes (s.current bounds.env) = true) :
    OnCourse bounds course late Parser.consumeAny s := by
  refine push (fun _ => rfl) fun a t run => ?_
  simp only [Action.run, State.consumeAny, Except.ok.injEq, Prod.mk.injEq] at run
  obtain ⟨-, rfl⟩ := run
  split
  · exact .inl rfl
  · exact .inr ⟨taken, _, rfl⟩

theorem consumeAnyThen {next : Unit → Rule α} (taken : course.takes (s.current bounds.env) = true)
    (rest : ∀ t, OnCourse bounds course late (next ()) t) : OnCourse bounds course late (Parser.consumeAny >>= next) s :=
  behind (consumeAny taken) fun _ t => rest t

end OnCourse

end Grammar

end LosslessJava
