import LosslessJava.Proofs.Compositional
import LosslessJava.Proofs.Nodes

/-! Tame rules: if such a rule reports nothing, it closes the brackets that it opens, and all that it
records keeps its contracts. What is tame is found from what a rule is put together from, so most
rules need no argument of their own. -/

namespace LosslessJava.Grammar

open LosslessJava.Parser LosslessJava.Shape

set_option synthInstance.maxSize 2000

variable {bounds : Bounds} {α β : Type} {kind : Kind}

/-- If a rule reports nothing, it leaves everything as it was but what no rule can see. -/
class Peeks (bounds : Bounds) {α : Type} (rule : Rule α) : Prop where
  still : ∀ {s a t}, bounds.Gives rule s a t → s.recovery = .normal → t.errorCount = s.errorCount → s.Still t

class Reads (bounds : Bounds) {α : Type} (rule : Rule α) (answer : outParam (TokenCursor → α)) : Prop
    extends Peeks bounds rule where
  reads : ∀ {s a t}, bounds.Gives rule s a t → s.recovery = .normal → t.errorCount = s.errorCount →
    a = answer (s.cursor bounds.env)

class Fails (bounds : Bounds) {α : Type} (rule : Rule α) : Prop where
  fails : ∀ {s a t}, bounds.Gives rule s a t → s.recovery = .normal → s.errorCount < t.errorCount

class TameWith (bounds : Bounds) {α : Type} (good : α → Prop) (rule : Rule α) : Prop where
  draws : ∀ s, Draws bounds rule s fun a row _ => Kind.Orderly (outline row) ∧ good a

/-- Every answer is a good one. -/
def Any {α : Type} (_ : α) : Prop := True

abbrev Tame (bounds : Bounds) {α : Type} (rule : Rule α) : Prop := TameWith bounds Any rule

class Plain (kind : Kind) : Prop where
  holds : kind.isPlain = true

class AllPlain (found : Option Kind) : Prop where
  holds : ∀ kind ∈ found, kind.isPlain = true

instance [evident : Evident kind.isPlain] : Plain kind := ⟨evident.holds⟩

instance : AllPlain none := ⟨by simp⟩

instance [plain : Plain kind] : AllPlain (some kind) := ⟨by simpa using plain.holds⟩

instance {c : Prop} [Decidable c] {one other : Option Kind} [AllPlain one] [AllPlain other] :
    AllPlain (if c then one else other) := by
  split <;> infer_instance

@[reducible] def closes : Kind → Kind → Bool
  | .leftParen, .rightParen | .leftBracket, .rightBracket | .leftBrace, .rightBrace => true
  | _, _ => false

section Looks

variable {rule : Rule α} {answer : TokenCursor → α} {base s : State} {row : List Shape}
  {next : α → Rule β} {post : β → List Shape → State → Prop}

theorem DrawsSince.rebase {t u : State} {rule : Rule β} (still : s.Still t)
    (draws : DrawsSince bounds t rule u post) : DrawsSince bounds s rule u post := fun a v gives ready clean => by
  obtain ⟨row, adds, holds⟩ := draws a v gives ready clean
  refine ⟨row, ⟨adds.toReady, ?_, adds.sound, still.position ▸ adds.later, still.position ▸ adds.moved,
    still.position ▸ adds.brackets⟩, holds⟩
  simpa only [still.events] using adds.events

theorem DrawsSince.peek [peeks : Peeks bounds rule] (before : base.Adds bounds.env row s)
    (goes : ∀ a t, s.Still t → base.Adds bounds.env row t → DrawsSince bounds base (next a) t post) :
    DrawsSince bounds base (rule >>= next) s post := fun b u gives ready clean => by
  obtain ⟨a, t, ran, rest⟩ := gives.bind
  have early := ran.le_errorCount
  have late := rest.le_errorCount
  have still := peeks.still ran ready.normal (by omega)
  have adds := before.still still
  exact goes a t still adds b u rest adds.toReady (by omega)

theorem DrawsSince.look [reads : Reads bounds rule answer] (before : base.Adds bounds.env row s)
    (goes : ∀ t, s.Still t → base.Adds bounds.env row t →
      DrawsSince bounds base (next (answer (s.cursor bounds.env))) t post) :
    DrawsSince bounds base (rule >>= next) s post := fun b u gives ready clean => by
  obtain ⟨a, t, ran, rest⟩ := gives.bind
  have early := ran.le_errorCount
  have late := rest.le_errorCount
  have still := reads.still ran ready.normal (by omega)
  have adds := before.still still
  obtain rfl := reads.reads ran ready.normal (by omega)
  exact goes t still adds b u rest adds.toReady (by omega)

theorem Draws.peek [peeks : Peeks bounds rule] (goes : ∀ a t, s.Still t → Draws bounds (next a) t post) :
    Draws bounds (rule >>= next) s post := fun b u gives ready clean =>
  DrawsSince.peek (.refl ready) (fun a t still _ => (goes a t still).rebase still) b u gives ready clean

theorem Draws.look [reads : Reads bounds rule answer]
    (goes : ∀ t, s.Still t → Draws bounds (next (answer (s.cursor bounds.env))) t post) :
    Draws bounds (rule >>= next) s post := fun b u gives ready clean =>
  DrawsSince.look (.refl ready) (fun t still _ => (goes t still).rebase still) b u gives ready clean

end Looks

section Failures

variable {rule : Rule α} {base s : State}

theorem DrawsSince.fails {post : α → List Shape → State → Prop} [fails : Fails bounds rule] :
    DrawsSince bounds base rule s post := fun _ _ gives ready clean => by
  have more := fails.fails gives ready.normal
  omega

instance Fails.bind {next : α → Rule β} [fails : Fails bounds rule] : Fails bounds (rule >>= next) where
  fails gives normal := by
    obtain ⟨a, t, ran, rest⟩ := gives.bind
    exact Nat.lt_of_lt_of_le (fails.fails ran normal) rest.le_errorCount

private theorem report_fails {issue : Issue} {t : State} (normal : s.recovery = .normal)
    (run : s.report bounds.env issue = .ok t) : s.errorCount < t.errorCount := by
  rw [(State.report_tells normal run).1]
  exact Nat.lt_succ_self _

instance {issue : Issue} : Fails bounds (report issue) where
  fails gives normal := report_fails normal (Result.of_done gives.act)

instance {issue : Issue} : Fails bounds (reportAndSkip issue) where
  fails gives normal := by
    obtain ⟨t, told, rest⟩ := State.reportAndSkip_from (Result.of_done gives.act)
    have more := report_fails normal told
    rcases rest with ⟨-, rfl⟩ | calm
    · exact more
    · rw [calm.errorCount]
      exact more

end Failures

section Reading

private theorem act_still {action : Action α} {s t : State} {a : α} (gives : bounds.Gives (.act action) s a t)
    (quiet : ∀ s t a, action.run bounds.env s = .ok (a, t) → s.Still t) : s.Still t := quiet s t a gives.act

instance : Reads bounds cursor id where
  still gives _ _ := act_still gives fun _ _ _ run => by cases run; exact .refl
  reads gives _ _ := by
    have run := gives.act
    cases run
    rfl

instance : Peeks bounds (.act .noLambda) where
  still gives _ _ := act_still gives fun _ _ _ run => by cases run; exact .refl

instance : Peeks bounds (.act .lookaheadLimit) where
  still gives _ _ := act_still gives fun _ _ _ run => by cases run; exact .refl

instance {kinds : KindSet} : Peeks bounds (allow kinds) where
  still gives _ _ := act_still gives fun _ _ _ run => by cases run; exact ⟨rfl, rfl, rfl⟩

instance {a : α} : Reads bounds (Pure.pure a) fun _ => a where
  still gives _ _ := by
    obtain ⟨rfl, rfl⟩ := gives.pure
    exact .refl
  reads gives _ _ := gives.pure.1

theorem Peeks.andThen {rule : Rule α} {next : α → Rule β} [first : Peeks bounds rule]
    (second : ∀ a, Peeks bounds (next a)) : Peeks bounds (rule >>= next) where
  still gives normal clean := by
    obtain ⟨a, t, ran, rest⟩ := gives.bind
    have early := ran.le_errorCount
    have late := rest.le_errorCount
    have one := first.still ran normal (by omega)
    exact one.trans ((second a).still rest (one.recovery.trans normal) (by omega))

instance Peeks.bind {rule : Rule α} {next : α → Rule β} [Peeks bounds rule]
    [second : ∀ a, Peeks bounds (next a)] : Peeks bounds (rule >>= next) := .andThen second

instance Peeks.ite {c : Prop} [Decidable c] {yes no : Rule α} [one : Peeks bounds yes]
    [other : Peeks bounds no] : Peeks bounds (if c then yes else no) := by
  split
  · exact one
  · exact other

/-- A look that reports something has not failed to. -/
instance (priority := low) Peeks.of_fails {rule : Rule α} [fails : Fails bounds rule] : Peeks bounds rule where
  still gives normal clean := by
    have more := fails.fails gives normal
    omega

theorem Reads.andThen {rule : Rule α} {next : α → Rule β} {answer : TokenCursor → α}
    (rest : α → TokenCursor → β) [first : Reads bounds rule answer]
    (second : ∀ a, Reads bounds (next a) (rest a)) :
    Reads bounds (rule >>= next) fun cursor => rest (answer cursor) cursor where
  toPeeks := .andThen fun a => (second a).toPeeks
  reads := by
    intro s b u gives normal clean
    obtain ⟨a, t, ran, later⟩ := gives.bind
    have early := ran.le_errorCount
    have late := later.le_errorCount
    have still := first.still ran normal (by omega)
    obtain rfl := first.reads ran normal (by omega)
    have same := (second _).reads later (still.recovery.trans normal) (by omega)
    rwa [still.cursor_eq] at same

instance Reads.map {rule : Rule α} {answer : TokenCursor → α} {f : α → β} [Reads bounds rule answer] :
    Reads bounds (rule >>= fun a => Pure.pure (f a)) fun cursor => f (answer cursor) :=
  .andThen (fun a _ => f a) fun _ => inferInstance

/-- Kinds that are remembered as acceptable are nothing that a rule can see. -/
instance Reads.allowing {kinds : KindSet} {rule : Rule α} {answer : TokenCursor → α}
    [reads : Reads bounds rule answer] : Reads bounds (allow kinds >>= fun _ => rule) answer where
  toPeeks := .andThen fun _ => reads.toPeeks
  reads := by
    intro s b u gives normal clean
    obtain ⟨a, t, ran, later⟩ := gives.bind
    have early := ran.le_errorCount
    have late := later.le_errorCount
    have still := Peeks.still ran normal (by omega)
    have same := reads.reads later (still.recovery.trans normal) (by omega)
    rwa [still.cursor_eq] at same

instance {n : Nat} : Reads bounds (nth n) (·.nth n) := by
  unfold nth
  infer_instance

instance : Reads bounds current TokenCursor.current := by
  unfold current
  infer_instance

instance {n : Nat} : Reads bounds (nthIs n kind) (·.nth n == kind) := by
  unfold nthIs
  infer_instance

instance {n : Nat} : Reads bounds (nthIsWord n kind) (isWordAt · n kind) := by
  unfold nthIsWord
  infer_instance

instance : Reads bounds position TokenCursor.position := by
  unfold position
  infer_instance

instance : Reads bounds (sees kind) (·.current == kind) := by
  unfold sees
  infer_instance

instance {kinds : KindSet} : Reads bounds (seesAny kinds) fun cursor => kinds.contains cursor.current := by
  unfold seesAny
  infer_instance

instance : Reads bounds (seesWord kind) (isWordAt · 0 kind) := by
  unfold seesWord
  infer_instance

instance {one other : Rule Bool} {first second : TokenCursor → Bool} [Reads bounds one first]
    [Reads bounds other second] : Reads bounds (one <||> other) fun cursor => first cursor || second cursor :=
  .andThen (fun found cursor => found || second cursor) fun found => by
    cases found <;> (simp only [ToBool.toBool, Bool.false_or, Bool.true_or]; infer_instance)

instance {one other : Rule Bool} {first second : TokenCursor → Bool} [Reads bounds one first]
    [Reads bounds other second] : Reads bounds (one <&&> other) fun cursor => first cursor && second cursor :=
  .andThen (fun found cursor => found && second cursor) fun found => by
    cases found <;> (simp only [ToBool.toBool, Bool.false_and, Bool.true_and]; infer_instance)

instance {one other : Rule Bool} [Peeks bounds one] [Peeks bounds other] : Peeks bounds (one <||> other) :=
  .andThen fun found => by cases found <;> (simp only [ToBool.toBool]; infer_instance)

instance {one other : Rule Bool} [Peeks bounds one] [Peeks bounds other] : Peeks bounds (one <&&> other) :=
  .andThen fun found => by cases found <;> (simp only [ToBool.toBool]; infer_instance)

instance [Inhabited α] : Peeks bounds (endless : Rule α) where
  still gives := absurd gives Bounds.Gives.endless

/-- A decision that ran into the limit is reported. -/
instance [Inhabited α] {what : String} {peek : Lookahead.Peek α} : Peeks bounds (decideBy what peek) := by
  unfold decideBy
  refine .andThen fun limit => .andThen fun cursor => ?_
  split <;> infer_instance

instance : Peeks bounds parenKindHere := by
  unfold parenKindHere
  infer_instance

instance : Peeks bounds patternKindHere := inferInstanceAs (Peeks bounds (decideBy _ _))

instance : Peeks bounds seesLocalVarDecl := inferInstanceAs (Peeks bounds (decideBy _ _))

instance : Peeks bounds seesLocalTypeDecl := inferInstanceAs (Peeks bounds (decideBy _ _))

instance : Peeks bounds seesForeach := inferInstanceAs (Peeks bounds (decideBy _ _))

instance : Peeks bounds seesArrayTypeLiteral := inferInstanceAs (Peeks bounds (decideBy _ _))

theorem Fails.andThen {rule : Rule α} {next : α → Rule β} [peeks : Peeks bounds rule]
    (second : ∀ a, Fails bounds (next a)) : Fails bounds (rule >>= next) where
  fails := by
    intro s b u gives normal
    obtain ⟨a, t, ran, later⟩ := gives.bind
    have early := ran.le_errorCount
    have late := later.le_errorCount
    refine Nat.lt_of_not_le fun clean => ?_
    have still := peeks.still ran normal (by omega)
    have told := (second a).fails later (still.recovery.trans normal)
    omega

instance {what : String} : Fails bounds (expectedHere what) := by
  unfold expectedHere
  exact .andThen fun _ => inferInstance

instance {what : String} {recovery : KindSet} : Fails bounds (expectedThenRecover what recovery) := by
  unfold expectedThenRecover
  infer_instance

end Reading

section Tokens

class Takes (bounds : Bounds) (rule : Rule α) (kind : outParam Kind) : Prop where
  draws : ∀ s, Draws bounds rule s fun _ row t =>
    row = [.token kind 1] ∧ (kind ≠ .eof → s.position < t.position)

@[reducible] def known : Kind → Bool
  | .unknown => false
  | _ => true

theorem ne_unknown_of_known (here : known kind = true) : kind ≠ .unknown := by
  rintro rfl
  cases here

instance [evident : Evident (known kind)] : Takes bounds (consume kind) kind where
  draws _ := draws_consume (ne_unknown_of_known evident.holds)

theorem draws_accept (here : kind ≠ .unknown) {s : State} :
    Draws bounds (accept kind) s fun found row t =>
      if found then row = [.token kind 1] ∧ (kind ≠ .eof → s.position < t.position) else row = [] := by
  unfold accept
  refine .look fun t still => ?_
  split
  · refine .bind (draws_consume here) fun _ row u _ ⟨same, moved⟩ => .pure ?_
    rw [still.position] at moved
    simpa using ⟨same, moved⟩
  · exact .pure rfl

theorem draws_expect (here : kind ≠ .unknown) {s : State} :
    Draws bounds (expect kind) s fun found row t =>
      found = true ∧ row = [.token kind 1] ∧ (kind ≠ .eof → s.position < t.position) := by
  unfold expect
  refine .bind (draws_accept here) fun found front t _ took => ?_
  cases found with
  | true => exact .pure ⟨rfl, by simpa using took⟩
  | false =>
    simp only [Bool.false_eq_true, if_false]
    exact .fails

instance [evident : Evident (known kind)] : Takes bounds (require kind) kind where
  draws s := .bind (draws_expect (ne_unknown_of_known evident.holds)) fun _ front t _ ⟨_, took⟩ =>
    .pure (by simpa using took)

end Tokens

section Rules

variable {good : α → Prop} {rule : Rule α}

instance {a : α} : Tame bounds (Pure.pure a) := ⟨fun _ => .pure ⟨.nil, trivial⟩⟩

instance {kind : Kind} [plain : Plain kind] : TameWith bounds Plain (Pure.pure kind) :=
  ⟨fun _ => .pure ⟨.nil, plain⟩⟩

instance {found : Option Kind} [plain : AllPlain found] : TameWith bounds AllPlain (Pure.pure found) :=
  ⟨fun _ => .pure ⟨.nil, plain⟩⟩

instance (priority := low) [Fails bounds rule] : TameWith bounds good rule := ⟨fun _ => .fails⟩

instance (priority := low) [peeks : Peeks bounds rule] : Tame bounds rule where
  draws _ := fun _ _ gives ready clean =>
    ⟨[], (State.Adds.refl ready).still (peeks.still gives ready.normal clean), .nil, trivial⟩

theorem TameWith.andThen {first : Rule β} {next : β → Rule α} [one : Tame bounds first]
    (two : ∀ b, TameWith bounds good (next b)) : TameWith bounds good (first >>= next) where
  draws s := .bind (one.draws s) fun b _ t _ ⟨nested, _⟩ =>
    ((two b).draws t).weaken fun _ row _ _ ⟨later, holds⟩ => by
      rw [outline_append]
      exact ⟨nested.append later, holds⟩

instance TameWith.bind {first : Rule β} {next : β → Rule α} [Tame bounds first]
    [two : ∀ b, TameWith bounds good (next b)] : TameWith bounds good (first >>= next) := .andThen two

instance TameWith.ite {c : Prop} [Decidable c] {yes no : Rule α} [one : TameWith bounds good yes]
    [other : TameWith bounds good no] : TameWith bounds good (if c then yes else no) := by
  split
  · exact one
  · exact other

theorem TameWith.choice {found : Rule Bool} {yes no : Rule α} [Tame bounds found] (one : TameWith bounds good yes)
    (other : TameWith bounds good no) : TameWith bounds good (do if ← found then yes else no) :=
  .andThen fun _ => .ite

/-- A token that is no bracket. -/
instance Takes.tame [takes : Takes bounds rule kind] [evident : Evident kind.isPlain] : Tame bounds rule where
  draws s := (takes.draws s).weaken fun _ row _ _ ⟨same, _⟩ => by
    subst same
    exact ⟨.plain (Kind.isLoose_of_isPlain evident.holds), trivial⟩

private theorem closing_of_closes {opener closer : Kind} (evident : closes opener closer = true) :
    Lookahead.closing? opener = some closer := by
  unfold closes at evident
  split at evident
  · rfl
  · rfl
  · rfl
  · cases evident

theorem orderly_between {opener closer : Kind} {row : List Shape} (evident : closes opener closer = true)
    (nested : Kind.Orderly (outline row)) :
    Kind.Orderly (outline (.token opener 1 :: (row ++ [.token closer 1]))) := by
  simpa [outline, Shape.kind] using Kind.Orderly.between (closing_of_closes evident) nested

section

variable {opening closing : Rule Unit} {opener closer : Kind} [opens : Takes bounds opening opener]
  [closed : Takes bounds closing closer] [evident : Evident (closes opener closer)]

/-- A rule between a bracket and the one that closes it. -/
instance TameWith.between {next : α → Rule β} {good : β → Prop} [inside : Tame bounds rule]
    [rest : ∀ a, TameWith bounds good (next a)] :
    TameWith bounds good (opening >>= fun _ => rule >>= fun a => closing >>= fun _ => next a) where
  draws s := by
    refine .bind (opens.draws s) fun _ front t _ ⟨first, _⟩ => .bind (inside.draws t) fun a middle u _ ⟨nested, _⟩ =>
      .bind (closed.draws u) fun _ back v _ ⟨last, _⟩ => ((rest a).draws v).weaken fun b row w _ ⟨later, holds⟩ => ?_
    subst first last
    have whole := (orderly_between evident.holds nested).append later
    rw [← outline_append] at whole
    exact ⟨by simpa using whole, holds⟩

instance Tame.enclosed [inside : Tame bounds rule] :
    Tame bounds (opening >>= fun _ => rule >>= fun _ => closing) where
  draws s := by
    refine .bind (opens.draws s) fun _ front t _ ⟨first, _⟩ => .bind (inside.draws t) fun a middle u _ ⟨nested, _⟩ =>
      (closed.draws u).weaken fun _ back v _ ⟨last, _⟩ => ?_
    subst first last
    exact ⟨orderly_between evident.holds nested, trivial⟩

/-- Two rules between a bracket and the one that closes it. -/
instance Tame.enclosedTwo {first : Rule β} [inside : Tame bounds first] [also : Tame bounds rule] :
    Tame bounds (opening >>= fun _ => first >>= fun _ => rule >>= fun _ => closing) where
  draws s := by
    refine .bind (opens.draws s) fun _ front t _ ⟨opened, _⟩ => .bind (inside.draws t) fun _ one u _ ⟨nested, _⟩ =>
      .bind (also.draws u) fun _ two v _ ⟨nested', _⟩ => (closed.draws v).weaken fun _ back w _ ⟨last, _⟩ => ?_
    subst opened last
    have inner : Kind.Orderly (outline (one ++ two)) := by
      rw [outline_append]
      exact nested.append nested'
    exact ⟨by simpa using orderly_between evident.holds inner, trivial⟩

end

/-- A rule that is run only where another one looks favourable. -/
instance TameWith.andM {one other : Rule Bool} [peeks : Peeks bounds one] [tame : Tame bounds other] :
    Tame bounds (one <&&> other) :=
  .andThen fun found => by cases found <;> (simp only [ToBool.toBool]; infer_instance)

end Rules

section Combinators

variable {rule : Rule α}

instance [Tame bounds rule] : Tame bounds (discard rule) :=
  inferInstanceAs (Tame bounds (rule >>= fun _ => Pure.pure ()))

theorem orderly_of_roots {s t : State} {first : Completed} {row : List Shape} (roots : s.Roots first row t)
    (loose : first.kind.isLoose = true) : Kind.Orderly (outline row) := by
  rw [roots.outline]
  exact .plain loose

instance {rule : Rule Kind} [tame : TameWith bounds Plain rule] : Tame bounds (nodeOf rule) where
  draws s := by
    have inner := (tame.draws s.start).weaken fun kind _ _ _ ⟨nested, (plain : Plain kind)⟩ =>
      And.intro (Kind.holds_of_isPlain plain.holds nested) plain.holds
    exact (draws_nodeOf inner).weaken fun _ _ _ _ ⟨roots, plain⟩ =>
      ⟨orderly_of_roots roots (Kind.isLoose_of_isPlain plain), trivial⟩

instance {rule : Rule Unit} [Plain kind] [Tame bounds rule] : Tame bounds (node kind rule) := by
  unfold Parser.node
  infer_instance

instance {rule : Rule (Option Kind)} [tame : TameWith bounds AllPlain rule] : Tame bounds (nodeIf rule) where
  draws s := by
    have inner : Draws bounds rule s.start fun found row _ =>
        match found with
        | some kind => kind.Holds (outline row) ∧ kind.isPlain = true
        | none => Kind.Orderly (outline row) :=
      (tame.draws s.start).weaken fun found _ _ _ ⟨nested, (plain : AllPlain found)⟩ =>
        match found, plain.holds with
        | some kind, plain => ⟨Kind.holds_of_isPlain (plain kind rfl) nested, plain kind rfl⟩
        | none, _ => nested
    refine (draws_nodeIf inner).weaken fun found row t _ holds => ⟨?_, trivial⟩
    cases found with
    | some first => exact orderly_of_roots holds.1 (Kind.isLoose_of_isPlain holds.2)
    | none => exact holds

instance {step : α → Rule (Option α)} {a : α} [tame : ∀ a, Tame bounds (step a)] :
    Tame bounds (loopFrom a step) where
  draws _ := .loopFrom (fun _ row _ => Kind.Orderly (outline row)) .nil fun a front u _ nested =>
    ((tame a).draws u).weaken fun next row v _ ⟨later, _⟩ => by
      have whole := nested.append later
      rw [← outline_append] at whole
      cases next with
      | some next => exact whole
      | none => exact ⟨whole, trivial⟩

instance {next : α} {step : Rule Bool} [Tame bounds step] : Tame bounds (stepTo next step) := by
  unfold stepTo
  infer_instance

instance {step : Rule Bool} [Tame bounds step] : Tame bounds (loop step) := by
  unfold loop
  infer_instance

instance {step : Rule Bool} [Tame bounds step] : Tame bounds (loopAny step) := by
  unfold loopAny
  infer_instance

theorem abandonNested_fails {s t : State} (normal : s.recovery = .normal)
    (run : s.abandonNested bounds.env = .ok t) : s.errorCount < t.errorCount := by
  rcases State.abandonNested_from run with ⟨-, abandoned⟩ | ⟨u, issue, told, quiet, -⟩
  · rw [normal] at abandoned
    cases abandoned
  · rw [quiet.errorCount]
    exact report_fails normal told

/-- Beyond the deepest level something is reported. -/
theorem draws_nested {otherwise : α} {s : State} {post : α → List Shape → State → Prop}
    (inner : Draws bounds rule s.enter fun a row t => post a row t.leave) :
    Draws bounds (nested otherwise rule) s post := fun a t gives ready clean => by
  rcases gives.nested with deep | ⟨u, ran, rfl⟩
  · obtain ⟨v, run, same⟩ := map_eq_ok.mp deep
    cases same
    have more := abandonNested_fails ready.normal run
    omega
  · obtain ⟨row, adds, holds⟩ := inner a u ran ⟨ready.normal, ready.inside⟩ clean
    exact ⟨row, ⟨⟨adds.normal, adds.inside⟩, adds.events, adds.sound, adds.later, adds.moved, adds.brackets⟩, holds⟩

theorem draws_withNoLambda {noLambda : Bool} {s : State} {post : α → List Shape → State → Prop}
    (inner : Draws bounds rule (s.withNoLambda noLambda) fun a row t => post a row (t.withNoLambda s.noLambda)) :
    Draws bounds (withNoLambda noLambda rule) s post := fun a t gives ready clean => by
  obtain ⟨u, ran, rfl⟩ := gives.withNoLambda
  obtain ⟨row, adds, holds⟩ := inner a u ran ⟨ready.normal, ready.inside⟩ clean
  exact ⟨row, ⟨⟨adds.normal, adds.inside⟩, adds.events, adds.sound, adds.later, adds.moved, adds.brackets⟩, holds⟩

/-- A rule that is tried and taken back leaves no trace. -/
theorem draws_speculate {rule : Rule (Option Completed)} {s : State}
    {P : Completed → List Shape → State → Prop}
    (inner : Draws bounds rule s fun found row t => ∀ first, found = some first → P first row t) :
    Draws bounds (speculate rule) s fun found row t =>
      match found with
      | some first => P first row t
      | none => t = s := fun found t gives ready clean => by
  obtain ⟨given, u, ran, settled⟩ := gives.speculate
  unfold Program.settle at settled
  split at settled
  · next kept =>
    cases settled
    obtain ⟨row, adds, holds⟩ := inner _ _ ran ready clean
    obtain ⟨first, rfl⟩ := Option.isSome_iff_exists.mp kept.1
    exact ⟨row, adds, holds first rfl⟩
  · cases settled
    exact ⟨[], .refl ready, rfl⟩

variable {good : α → Prop}

instance {otherwise : α} [tame : TameWith bounds good rule] : TameWith bounds good (nested otherwise rule) where
  draws s := draws_nested ((tame.draws s.enter).weaken fun _ _ _ _ holds => holds)

instance {noLambda : Bool} [tame : TameWith bounds good rule] :
    TameWith bounds good (withNoLambda noLambda rule) where
  draws _ := draws_withNoLambda ((tame.draws _).weaken fun _ _ _ _ holds => holds)

instance [TameWith bounds good rule] : TameWith bounds good (bracketed rule) := by
  unfold bracketed
  infer_instance

instance [Evident (known kind)] [evident : Evident kind.isPlain] : Tame bounds (accept kind) where
  draws _ := (draws_accept (ne_unknown_of_known (Evident.holds))).weaken fun found row _ _ took => by
    refine ⟨?_, trivial⟩
    split at took
    · rw [took.1]
      exact .plain (Kind.isLoose_of_isPlain evident.holds)
    · rw [took]
      exact .nil

instance [evident : Evident kind.isPlain] : Tame bounds (consumeAs kind) where
  draws _ := (draws_consumeAs evident.holds).weaken fun _ row _ _ same => by
    subst same
    exact ⟨.plain (Kind.isLoose_of_isPlain evident.holds), trivial⟩

instance {rule : Rule Unit} [Tame bounds rule] : Tame bounds (whenSees kind rule) := by
  unfold whenSees
  infer_instance

section

variable {closer delimiter : Kind} {what : String} {first : KindSet} {element : Rule Bool}
  [Evident (known delimiter)] [Evident delimiter.isPlain] [Tame bounds element]

instance : Tame bounds (delimitedRound closer delimiter what first element) := by
  unfold delimitedRound
  infer_instance

/-- Elements between brackets. -/
instance {opener : Kind} [Evident (known opener)] [Evident (known closer)] [Evident (closes opener closer)] :
    Tame bounds (delimited opener closer delimiter what first element) := by
  unfold delimited
  infer_instance

end

instance {rule : Rule Unit} [Tame bounds rule] : Tame bounds (commaSeparated rule) := by
  unfold commaSeparated
  infer_instance

instance {rule : Rule Unit} {issue : Kind → Issue} [Tame bounds rule] :
    Tame bounds (skipUnmoved rule issue) := by
  unfold skipUnmoved
  infer_instance

instance {rule : Rule Unit} {closer : Kind} [Tame bounds rule] : Tame bounds (listUntil closer rule) := by
  unfold listUntil
  infer_instance

theorem draws_semicolon {recovery : KindSet} {s : State} :
    Draws bounds (semicolon recovery) s fun _ row t => row = [.token .semicolon 1] ∧ s.position < t.position := by
  unfold semicolon
  refine .bind (draws_expect (by decide)) fun found front t _ ⟨there, took⟩ => ?_
  subst there
  exact .pure (by simpa using took)

instance {recovery : KindSet} : Tame bounds (semicolon recovery) where
  draws _ := draws_semicolon.weaken fun _ row _ _ ⟨same, _⟩ => by
    subst same
    exact ⟨.plain rfl, trivial⟩

theorem draws_consumePlain {s : State} (plain : (s.current bounds.env).isPlain = true)
    (more : s.current bounds.env ≠ .eof) :
    Draws bounds consumeAny s fun a row _ => Kind.Orderly (outline row) ∧ Any a := by
  have named : s.current bounds.env ≠ .unknown := fun same => by simp [same] at plain
  refine (draws_consumeAny named more).weaken fun _ row t _ same => ?_
  subst same
  exact ⟨.plain (Kind.isLoose_of_isPlain plain), trivial⟩

theorem draws_consumeAnyThen {next : Unit → Rule α} {s : State} (plain : (s.current bounds.env).isPlain = true)
    (more : s.current bounds.env ≠ .eof) [rest : TameWith bounds good (next ())] :
    Draws bounds (consumeAny >>= next) s fun a row _ => Kind.Orderly (outline row) ∧ good a :=
  .bind (draws_consumePlain plain more) fun _ _ t _ ⟨nested, _⟩ =>
    (rest.draws t).weaken fun _ _ _ _ ⟨later, holds⟩ => by
      rw [outline_append]
      exact ⟨nested.append later, holds⟩

end Combinators

end LosslessJava.Grammar
