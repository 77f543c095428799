import LosslessJava.Proofs.DeeperCombinators

/-! Types go over stretches that close their angle brackets, however they are nested. So do annotations, whose arguments
stand between round brackets, whatever these arguments are. -/

namespace LosslessJava.Grammar

open LosslessJava.Parser LosslessJava.Shape

set_option synthInstance.maxSize 2000

variable {bounds : Bounds} {course : Course} {α : Type} {s t : State} {opener closer kind : Kind}

section Brackets

private theorem same_of_free {rule : Rule α} [free : Steers bounds .free rule] {bound depth : Nat} {a b : α} {u : State}
    (le : bounds.env.options.maxDepth ≤ bound) (other : (bounds.within bound depth).Gives rule s b u)
    (gives : bounds.Gives rule s a t) (ready : s.Ready bounds.env) (clean : t.errorCount = s.errorCount) : b = a ∧ u = t := by
  cases (free.onCourse s).agrees (by decide) le other a t gives ready clean with
  | same same => exact same
  | parted impossible => exact impossible.elim
  | late impossible => exact impossible.elim

theorem smooth_consume (known : known kind = true) (more : kind ≠ .eof) :
    Smooth bounds (consume kind) s fun _ t => Passes bounds kind s t :=
  .of_draws (draws_consume_passes (ne_unknown_of_known known) more) fun _ _ _ _ taken => taken.2

private theorem smooth_require (known : known kind = true) (more : kind ≠ .eof) :
    Smooth bounds (require kind) s fun _ t => Passes bounds kind s t :=
  .of_draws (draws_require_passes (ne_unknown_of_known known) more) fun _ _ _ _ taken => taken.2

private theorem smooth_level {rule : Rule α} [tame : Tame bounds rule] : Smooth bounds rule s fun _ t =>
    s.position ≤ t.position ∧ Kind.Level (bounds.env.stream.kinds s.position t.position) :=
  .of_draws (tame.draws s) fun _ _ _ adds holds =>
    ⟨adds.later, .of_wellNested (Kind.wellNested_of_filter adds.brackets (adds.sound.nested holds.1.nested))⟩

private theorem kinds_around {stream : TokenStream} {x y : Nat} (order : x < y) (opened : stream.kindAt x = opener)
    (closed : stream.kindAt y = closer) :
    stream.kinds x (y + 1) = opener :: (stream.kinds (x + 1) y ++ [closer]) := by
  have ended : stream.kinds (y + 1) (y + 1) = [] := by simp [TokenStream.kinds]
  rw [stream.kinds_cons (by omega), opened, ← stream.kinds_append (show x + 1 ≤ y from order) (Nat.le_succ y),
    stream.kinds_cons (Nat.lt_succ_self y), closed, ended]

/-- A rule between two brackets does the same where rules may nest deeper if the rule within does, unless it does not
come to the closing bracket. -/
theorem OnCourse.enclosed {late : Unit → Prop} {rule : Rule α} {closing : Rule Unit} [Steers bounds .free closing]
    (passes : ∀ u, Smooth bounds closing u fun _ v => Passes bounds closer u v)
    (leads : Smooth bounds (consume opener >>= fun _ => rule >>= fun _ => closing) s fun _ t =>
      course.Leads bounds.env.stream s.position t.position)
    (same : course ≠ .spans → ∀ t {bound depth b v}, bounds.env.options.maxDepth ≤ bound →
      (bounds.within bound depth).Gives rule t b v → Smooth bounds rule t fun a u =>
        b = a ∧ v = u ∨ bounds.env.stream.kindAt u.position ≠ closer) :
    OnCourse bounds course late (consume opener >>= fun _ => rule >>= fun _ => closing) s where
  leads := leads
  agrees compared bound depth b' w' le other a w gives ready clean := by
    obtain ⟨_, t', ran₁', rest'⟩ := other.bind
    obtain ⟨_, u', ran₂', ran₃'⟩ := rest'.bind
    obtain ⟨_, t, ran₁, rest⟩ := gives.bind
    obtain ⟨_, u, ran₂, ran₃⟩ := rest.bind
    have first := ran₁.le_errorCount
    have second := ran₂.le_errorCount
    have third := ran₃.le_errorCount
    have ready₁ := ran₁.ready ready (by omega)
    have ready₂ := ran₂.ready ready₁ (by omega)
    obtain ⟨-, rfl⟩ := same_of_free le ran₁' ran₁ ready (by omega)
    rcases same compared _ le ran₂' _ u ran₂ ready₁ (by omega) with ⟨rfl, rfl⟩ | away
    · obtain ⟨-, rfl⟩ := same_of_free le ran₃' ran₃ ready₂ (by omega)
      exact .same ⟨rfl, rfl⟩
    · exact absurd (passes u _ w ran₃ ready₂ (by omega)).1 away

end Brackets

section Names

instance : Steers bounds course qualifiedName := by
  unfold qualifiedName
  infer_instance

instance : Steers bounds course seesAnnotation := by
  unfold seesAnnotation
  infer_instance

/-- The arguments of an annotation. No way into the type arguments around it leads through the `)` of it. -/
theorem annotationArgs_enclosed [Calls bounds] [angular : Course.Angular course]
    (args : course ≠ .spans → Steers bounds .all (bracketed annotationArgs)) :
    Steers bounds course (consume .leftParen >>= fun _ => bracketed annotationArgs >>= fun _ => require .rightParen) where
  onCourse s := by
    refine @OnCourse.enclosed bounds course _ s .leftParen .rightParen _ _ _ _ ?_ ?_ ?_
    · exact fun u => smooth_require rfl (by decide)
    · refine (smooth_consume rfl (by decide)).bind fun _ t ⟨opened, next⟩ => smooth_level.bind fun _ u ⟨order, level⟩ =>
        (smooth_require rfl (by decide)).weaken fun _ v ⟨closed, last⟩ => ?_
      rw [next] at order level
      apply angular.leads
      · omega
      · rw [last, kinds_around order opened closed]
        exact .enclosed level
    · intro compared t bound depth b v le other
      refine (smooth_level.and (((args compared).onCourse t).agrees (by decide) le other)).weaken fun a u ⟨level, agrees⟩ => ?_
      cases agrees with
      | same same => exact .inl same
      | parted parts =>
        obtain ⟨name, close, receiver, before, inside, within⟩ := parts
        exact .inr (receiver.not_enclosed before (by omega) within level.2)
      | late impossible => exact impossible.elim

theorem annotation_steers [Calls bounds] [Course.Angular course]
    (args : course ≠ .spans → Steers bounds .all (bracketed annotationArgs)) : Steers bounds course annotation := by
  have enclosed := annotationArgs_enclosed args
  unfold annotation
  infer_instance

instance [Steers bounds course annotation] : Steers bounds course annotations := by
  unfold annotations
  infer_instance

end Names

section TypeArguments

instance : Steers bounds course seesDims := by
  unfold seesDims
  infer_instance

instance : Steers bounds course emptyBrackets := by
  unfold emptyBrackets
  infer_instance

instance : Steers bounds course seesWildcard := by
  unfold seesWildcard
  infer_instance

instance {type : Completed} : Steers bounds course (arraySuffix type) := by
  unfold arraySuffix
  infer_instance

instance : Steers bounds course dims := by
  unfold dims
  infer_instance

def Listing (stream : TokenStream) (x y : Nat) : Prop :=
  ∃ close, x < close ∧ y = close + 1 ∧ stream.kindAt x = .lt ∧ stream.kindAt close = .gt ∧
    Kind.Angled (stream.kinds (x + 1) close)

theorem Listing.angled {stream : TokenStream} {x y : Nat} (listing : Listing stream x y) :
    x ≤ y ∧ Kind.Angled (stream.kinds x y) := by
  obtain ⟨close, order, rfl, opened, closed, inside⟩ := listing
  exact ⟨by omega, kinds_around order opened closed ▸ .between inside⟩

section

variable {what : String} {first : KindSet} {element : Rule Bool}

theorem smooth_listing [Steers bounds .spans element] : Smooth bounds (delimited .lt .gt .comma what first element) s fun _ t =>
    Listing bounds.env.stream s.position t.position := by
  have rounds : Steers bounds .spans (loop (delimitedRound .gt .comma what first element)) := inferInstance
  refine (smooth_consume rfl (by decide)).bind fun _ t ⟨opened, next⟩ => (rounds.onCourse t).leads.bind fun _ u leads =>
    (smooth_require rfl (by decide)).weaken fun _ v ⟨closed, last⟩ => ?_
  rw [next] at leads
  exact ⟨u.position, leads.1, last, opened, closed, leads.2⟩

private theorem delimited_steers [angular : Course.Angular course] [steers : Steers bounds course element] :
    Steers bounds course (delimited .lt .gt .comma what first element) where
  onCourse s := by
    have spans : Steers bounds .spans element := ⟨fun s => (steers.onCourse s).spans⟩
    have rounds : Steers bounds course (loop (delimitedRound .gt .comma what first element)) := inferInstance
    refine @OnCourse.enclosed bounds course _ s .lt .gt _ _ _ _ ?_ ?_ ?_
    · exact fun u => smooth_require rfl (by decide)
    · exact smooth_listing.weaken fun _ _ listing => angular.leads listing.angled.1 listing.angled.2
    · intro compared t bound depth b v le other
      refine ((rounds.onCourse t).agrees compared le other).weaken fun a u agrees => ?_
      cases agrees with
      | same same => exact .inl same
      | parted impossible => exact absurd impossible angular.whole
      | late impossible => exact impossible.elim

end

theorem smooth_emptyListing : Smooth bounds (consume .lt >>= fun _ => consume .gt) s fun _ t =>
    Listing bounds.env.stream s.position t.position := by
  refine (smooth_consume rfl (by decide)).bind fun _ t ⟨opened, next⟩ => (smooth_consume rfl (by decide)).weaken
    fun _ u ⟨closed, last⟩ => ?_
  rw [next] at closed last
  exact ⟨s.position + 1, Nat.lt_succ_self _, last, opened, closed, by simpa [TokenStream.kinds] using Kind.Angled.nil⟩

theorem typeArgs_steers [angular : Course.Angular course] [Steers bounds course (call .typeArg)] :
    Steers bounds course typeArgs := by
  have list : Steers bounds course (delimited .lt .gt .comma "type argument" First.typeArgument (call .typeArg)) :=
    delimited_steers
  have empty : Steers bounds course (consume .lt >>= fun _ => consume .gt) := ⟨fun s => .of_free
    (smooth_emptyListing.weaken fun _ _ listing => angular.leads listing.angled.1 listing.angled.2) (Steers.onCourse s)⟩
  unfold typeArgs
  infer_instance

section

variable [Steers bounds course (call .type)]

instance : Steers bounds course wildcardBound where
  onCourse s := by
    unfold wildcardBound
    refine .look fun t still => ?_
    split
    · next bound =>
      have same := @State.Still.current_eq bounds.env _ _ still
      refine .consumeAnyThen ?_ fun u => Steers.onCourse u
      rcases (Bool.or_eq_true _ _).mp bound with here | here
      all_goals
        rw [same, State.current, beq_iff_eq.mp here]
        exact takes_of_unpaired rfl
    · exact .pure

variable [Steers bounds course annotation]

instance : Steers bounds course wildcard := by
  unfold wildcard
  infer_instance

theorem typeArg_steers : Steers bounds course typeArg := by
  unfold typeArg
  infer_instance

end

section

variable [Steers bounds course annotation] [Steers bounds course typeArgs]

instance : Steers bounds course classTypeSegment := by
  unfold classTypeSegment
  infer_instance

instance : Steers bounds course classTypeSegments := by
  unfold classTypeSegments
  infer_instance

private theorem unpaired_of_primitiveType (among : First.primitiveType.contains kind = true) : kind.isUnpaired = true := by
  cases kind <;> first | rfl | exact absurd among (by decide +kernel)

instance : Steers bounds course elementType := by
  have inner : Steers bounds course (do
      let annotated ← annotations
      if ← seesAny First.primitiveType then
        consumeAny
        return some .primitiveType
      else if ← sees .identifier then
        classTypeSegments
        return some .classType
      else
        expectedHere "type"
        return if annotated then some .error else none : Rule (Option Kind)) := by
    refine .andThen fun annotated => ⟨fun s => .look fun t still => ?_⟩
    split
    · next among =>
      have same := @State.Still.current_eq bounds.env _ _ still
      exact .consumeAnyThen (same ▸ takes_of_unpaired (unpaired_of_primitiveType among)) fun u => Steers.onCourse u
    · exact Steers.onCourse t
  unfold elementType
  infer_instance

theorem type_steers : Steers bounds course type := by
  unfold type
  refine ⟨fun s => .nested ((Steers.andThen fun found => ?_).onCourse s.enter)⟩
  split <;> infer_instance

end

section TypeParameters

variable [Steers bounds course (call .type)]

instance [Taken course kind] : Steers bounds course (typesAfter kind) := by
  unfold typesAfter
  infer_instance

instance [Taken course opener] : Steers bounds course (compoundType opener kind) := by
  unfold compoundType
  refine .andThen fun found => ?_
  split <;> infer_instance

instance : Steers bounds course intersectionType := by
  unfold intersectionType
  infer_instance

instance : Steers bounds course unionType := by
  unfold unionType
  infer_instance

instance : Steers bounds course typeBound := by
  unfold typeBound
  infer_instance

variable [Steers bounds course annotation]

instance : Steers bounds course typeParam := by
  unfold typeParam
  infer_instance

theorem typeParams_steers [Course.Angular course] : Steers bounds course typeParams := by
  have list : Steers bounds course (delimited .lt .gt .comma "type parameter" First.type typeParam) := delimited_steers
  unfold typeParams
  infer_instance

end TypeParameters

section Spans

theorem OnCourse.never {env : Env} {late : α → Prop} {name : Nonterminal α} : OnCourse ⟨env, 0⟩ course late (Parser.call name) s where
  leads a t gives _ _ := by
    obtain ⟨_, impossible, _⟩ := gives.call
    cases impossible
  agrees _ _ _ _ _ _ _ a t gives _ _ := by
    obtain ⟨_, impossible, _⟩ := gives.call
    cases impossible

theorem calls_span (env : Env) (depth : Nat) :
    Steers ⟨env, depth⟩ .spans (call .type) ∧ Steers ⟨env, depth⟩ .spans (call .typeArg) := by
  induction depth with
  | zero => exact ⟨⟨fun _ => .never⟩, ⟨fun _ => .never⟩⟩
  | succ depth ih =>
    obtain ⟨_, _⟩ := ih
    have annotation : Steers ⟨env, depth⟩ .spans annotation := annotation_steers fun compared => absurd rfl compared
    have arguments : Steers ⟨env, depth⟩ .spans typeArgs := typeArgs_steers
    exact ⟨⟨fun s => .call (type_steers.onCourse s)⟩, ⟨fun s => .call (typeArg_steers.onCourse s)⟩⟩

end Spans

end TypeArguments

end LosslessJava.Grammar
