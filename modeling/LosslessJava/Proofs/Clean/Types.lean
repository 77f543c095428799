import LosslessJava.Proofs.Clean.Lists

/-! What types, type arguments and patterns record where nothing is reported. A rule for a type that
reports nothing has found one. -/

namespace LosslessJava.Grammar

open LosslessJava.Parser LosslessJava.Shape

set_option synthInstance.maxSize 2000

variable {bounds : Bounds} {base s : State} {sort : Kind → Bool}

theorem draws_foundThen {α : Type} {rule : Rule (Option Completed)} {next : Option Completed → Rule α}
    {post : α → List Shape → State → Prop} (finds : Draws bounds rule s (Found s sort))
    (goes : ∀ first row t, s.Adds bounds.env row t → s.Roots first row t → sort first.kind = true →
      DrawsSince bounds s (next (some first)) t post) : Draws bounds (rule >>= next) s post :=
  DrawsSince.bind finds fun found row t adds ⟨first, same, roots, sorted⟩ => by
    subst same
    exact goes first row t adds roots sorted

private theorem Found.tame {rule : Rule (Option Completed)} (finds : ∀ s, Draws bounds rule s (Found s sort))
    (node : ∀ kind, sort kind = true → kind.isElement = true) : Tame bounds rule where
  draws s := (finds s).weaken fun _ _ _ _ found => ⟨found.nested node, trivial⟩

/-- A rule that reports nothing has found something. -/
theorem TameWith.andFound {α : Type} {good : α → Prop} {rule : Rule (Option Completed)}
    {next : Option Completed → Rule α} (finds : ∀ s, Draws bounds rule s (Found s sort))
    (node : ∀ kind, sort kind = true → kind.isElement = true)
    (rest : ∀ first, TameWith bounds good (next (some first))) : TameWith bounds good (rule >>= next) where
  draws s := .bind (finds s) fun found front t _ holds => by
    have nested := holds.nested node
    obtain ⟨first, there, -⟩ := holds
    subst there
    apply ((rest first).draws t).weaken
    intro a row u _ drawn
    rw [outline_append]
    exact ⟨nested.append drawn.1, drawn.2⟩

section Sorts

class Sorted (sort : Kind → Bool) (kind : Kind) : Prop where
  plain : kind.isPlain = true
  sorted : sort kind = true

class SortedSome (sort : Kind → Bool) (found : Option Kind) : Prop where
  holds : ∃ kind, found = some kind ∧ Sorted sort kind

instance {kind : Kind} [plain : Evident kind.isPlain] [sorted : Evident (sort kind)] : Sorted sort kind :=
  ⟨plain.holds, sorted.holds⟩

instance {kind : Kind} [sorted : Sorted sort kind] : SortedSome sort (some kind) := ⟨kind, rfl, sorted⟩

instance {kind : Kind} [here : Sorted sort kind] : TameWith bounds (Sorted sort) (Pure.pure kind) :=
  ⟨fun _ => .pure ⟨.nil, here⟩⟩

instance {found : Option Kind} [here : SortedSome sort found] :
    TameWith bounds (SortedSome sort) (Pure.pure found) := ⟨fun _ => .pure ⟨.nil, here⟩⟩

theorem draws_nodeOf_sorted (sort : Kind → Bool) {rule : Rule Kind} (tame : TameWith bounds (Sorted sort) rule) :
    Draws bounds (nodeOf rule) s fun first row t => s.Roots first row t ∧ sort first.kind = true := by
  refine draws_nodeOf (P := (sort · = true)) ((tame.draws s.start).weaken fun kind row _ _ ⟨nested, (sorted : Sorted sort kind)⟩ => ?_)
  exact ⟨Kind.holds_of_isPlain sorted.plain nested, sorted.sorted⟩

theorem draws_node_here (sort : Kind → Bool) {rule : Rule Unit} {kind : Kind} [here : Sorted sort kind]
    (inner : Draws bounds rule s.start fun a row _ => Kind.Orderly (outline row) ∧ Any a) :
    Draws bounds (Parser.node kind rule) s fun first row t => s.Roots first row t ∧ sort first.kind = true :=
  (draws_node (inner.weaken fun _ _ _ _ ⟨nested, _⟩ => Kind.holds_of_isPlain here.plain nested)).weaken
    fun _ _ _ _ ⟨roots, named⟩ => ⟨roots, named ▸ here.sorted⟩

theorem draws_node_sorted (sort : Kind → Bool) {rule : Rule Unit} {kind : Kind} [tame : Tame bounds rule]
    [Sorted sort kind] :
    Draws bounds (Parser.node kind rule) s fun first row t => s.Roots first row t ∧ sort first.kind = true :=
  draws_node_here sort (tame.draws _)

theorem draws_nodeIf_found (sort : Kind → Bool) {rule : Rule (Option Kind)}
    (inner : Draws bounds rule s.start fun found row _ =>
      ∃ kind, found = some kind ∧ kind.Holds (outline row) ∧ sort kind = true) :
    Draws bounds (nodeIf rule) s (Found s sort) := by
  refine (draws_nodeIf (P := (sort · = true)) (Q := fun _ => False)
    (inner.weaken fun found row _ _ ⟨kind, same, holds⟩ => ?_)).weaken fun found row t _ holds => ?_
  · subst same
    exact holds
  · cases found with
    | some first => exact ⟨first, rfl, holds⟩
    | none => exact holds.elim

theorem draws_nodeIf_sorted (sort : Kind → Bool) {rule : Rule (Option Kind)}
    (tame : TameWith bounds (SortedSome sort) rule) : Draws bounds (nodeIf rule) s (Found s sort) :=
  draws_nodeIf_found sort ((tame.draws s.start).weaken fun _ _ _ _ ⟨nested, ⟨kind, same, sorted⟩⟩ =>
    ⟨kind, same, Kind.holds_of_isPlain sorted.plain nested, sorted.sorted⟩)

theorem draws_around_sorted (sort : Kind → Bool) {first : Completed} {row : List Shape} {rule : Rule Kind}
    (before : base.Adds bounds.env row s) (roots : base.Roots first row s) (node : first.kind.isElement = true)
    (tame : TameWith bounds (Sorted sort) rule) :
    DrawsSince bounds base (around first rule) s fun outer row t =>
      base.Roots outer row t ∧ sort outer.kind = true := by
  refine draws_around (P := (sort · = true)) before roots fun u _ => (tame.draws u).weaken
    fun kind row _ _ ⟨nested, (sorted : Sorted sort kind)⟩ => ?_
  exact ⟨Kind.holds_of_isPlain sorted.plain (.cons (Kind.isLoose_of_isElement node) nested), sorted.sorted⟩

end Sorts

instance : Peeks bounds seesDims := by
  unfold seesDims
  infer_instance

instance : Tame bounds emptyBrackets where
  draws s := by
    unfold emptyBrackets
    refine .bind (Takes.draws s) fun _ front t _ ⟨first, _⟩ => (Takes.draws t).weaken fun _ back u _ ⟨last, _⟩ => ?_
    subst first last
    exact ⟨orderly_between rfl .nil, trivial⟩

private theorem arraySuffix_draws {type : Completed} {row : List Shape} (before : base.Adds bounds.env row s)
    (roots : base.Roots type row s) (sorted : type.kind.isType = true) :
    DrawsSince bounds base (arraySuffix type) s fun outer row t =>
      base.Roots outer row t ∧ outer.kind.isType = true := by
  unfold arraySuffix
  refine .loopFrom (fun type row t => base.Roots type row t ∧ type.kind.isType = true) before ⟨roots, sorted⟩
    fun type row t before ⟨roots, sorted⟩ => .peek before fun found u still before => ?_
  split
  · exact .bind (draws_around_sorted Kind.isType before (roots.still still) (Kind.isElement_of_isType sorted) inferInstance)
      fun outer row v adds holds => .pure adds holds
  · exact .pure before ⟨roots.still still, sorted⟩

variable [calls : Calls bounds]

instance : Peeks bounds seesWildcard := by
  unfold seesWildcard
  infer_instance

instance : Tame bounds wildcardBound where
  draws s := by
    unfold wildcardBound
    refine .look fun t still => ?_
    split
    · next bound =>
      have same := @State.Still.current_eq bounds.env _ _ still
      rcases (Bool.or_eq_true _ _).mp bound with here | here
      all_goals
        have here : t.current bounds.env = _ := same.trans (beq_iff_eq.mp here)
        exact draws_consumeAnyThen (by rw [here]) (by rw [here]; decide)
    · exact TameWith.draws t

instance : Sorted Kind.isElement .wildcardType := ⟨rfl, rfl⟩

instance : Sorted Kind.isElement .typeParam := ⟨rfl, rfl⟩

theorem typeArg_draws : Draws bounds typeArg s fun found row _ => found = true ∧ One Kind.isElement row := by
  unfold typeArg
  refine .peek fun found t _ => ?_
  split
  · have single : Draws bounds wildcard t fun _ row _ => One Kind.isElement row :=
      .discard <| (draws_node_sorted Kind.isElement).weaken fun _ _ _ _ ⟨roots, sorted⟩ => ⟨_, roots.outline, sorted⟩
    exact .bind single fun _ row u _ one => .pure ⟨rfl, by simpa using one⟩
  · exact (Supplies.isSome (calls.draws .type trivial) fun _ => Kind.isElement_of_isType).draws t

instance : Supplies bounds Kind.isElement (call .typeArg) := ⟨calls.draws .typeArg trivial⟩

instance : DrawsList bounds .lt .gt (do
    if ← nthIs 1 .gt then
      consume .lt
      consume .gt
    else
      delimited .lt .gt .comma "type argument" First.typeArgument (call .typeArg)) where
  draws s := .peek fun found t _ => by
    split
    · refine .bind (draws_consume (by decide)) fun _ front u _ ⟨opened, _⟩ => (draws_consume (by decide)).weaken
        fun _ back v _ ⟨closed, _⟩ => ?_
      subst opened closed
      exact ⟨⟨[], rfl, .inl rfl⟩, by simp [Kind.Apart]⟩
    · exact DrawsList.draws t

instance : Tame bounds typeArgs := by
  unfold typeArgs
  infer_instance

instance : Tame bounds classTypeSegment := by
  unfold classTypeSegment
  infer_instance

instance : Tame bounds classTypeSegments := by
  unfold classTypeSegments
  infer_instance

private theorem plain_of_primitiveType {kind : Kind} (among : First.primitiveType.contains kind = true) :
    kind.isPlain = true ∧ kind ≠ .eof := by
  cases kind <;> first | exact ⟨rfl, by decide⟩ | exact absurd among (by decide +kernel)

theorem elementType_draws : Draws bounds elementType s (Found s Kind.isType) := by
  unfold elementType
  refine .bind (draws_nodeIf_sorted Kind.isType (.andThen fun annotated => ⟨fun t => .look fun u still => ?_⟩))
    fun found row t _ ⟨first, there, roots, sorted⟩ => .pure ?_
  · split
    · next among =>
      obtain ⟨plain, more⟩ := plain_of_primitiveType among
      have same := @State.Still.current_eq bounds.env _ _ still
      exact draws_consumeAnyThen (same ▸ plain) (same ▸ more)
    · exact TameWith.draws u
  · subst there
    have named : first.kind ≠ .error := fun same => by rw [same] at sorted; cases sorted
    exact ⟨first, by simp [Option.filter, named], by simpa using roots, sorted⟩

theorem type_draws : Draws bounds type s (Found s Kind.isType) := by
  unfold type
  refine draws_nested (draws_foundThen elementType_draws fun first row t adds roots sorted => ?_)
  exact .bind (arraySuffix_draws adds roots sorted) fun outer row u adds ⟨roots, sorted⟩ =>
    .pure adds ⟨outer, rfl, roots, sorted⟩

instance : Tame bounds dims := by
  unfold dims
  infer_instance

theorem resultType_draws : Draws bounds resultType s (Found s Kind.isType) := by
  unfold resultType
  refine .look fun t still => ?_
  split
  · exact .bind (draws_node_sorted Kind.isType) fun first row u _ ⟨roots, sorted⟩ =>
      .pure ⟨first, rfl, by simpa using roots.of_still still, sorted⟩
  · exact (calls.draws .type trivial t).weaken fun _ _ _ _ found => found.of_still still

instance : Tame bounds resultType := Found.tame (fun _ => resultType_draws) fun _ => Kind.isElement_of_isType

instance {operator : Kind} [Evident (known operator)] [Evident operator.isPlain] :
    Tame bounds (typesAfter operator) := by
  unfold typesAfter
  infer_instance

instance : Tame bounds typeBound := by
  unfold typeBound
  infer_instance

instance : Supplies bounds Kind.isElement typeParam := by
  unfold typeParam
  exact .isSome (fun _ => draws_nodeIf_sorted Kind.isElement inferInstance) fun _ => id

instance : Tame bounds typeParams := by
  unfold typeParams
  infer_instance

instance {keyword : Kind} [plain : Evident keyword.isPlain] : Tame bounds (consumeKeyword keyword) := by
  have : Evident (known keyword) := ⟨by
    have := plain.holds
    revert this
    cases keyword <;> simp [Kind.isPlain, known]⟩
  unfold consumeKeyword
  infer_instance

theorem clause_tame {keyword kind : Kind} [Evident keyword.isPlain] [Plain kind] :
    Tame bounds (clause keyword kind) := by
  unfold clause
  infer_instance

private theorem compoundType_draws {operator kind : Kind} [Evident (known operator)] [Evident operator.isPlain]
    [Sorted Kind.isType kind] :
    Draws bounds (compoundType operator kind) s fun _ row _ => One Kind.isType row := by
  unfold compoundType
  refine draws_foundThen (calls.draws .type trivial s) fun first row t adds roots sorted => .look adds fun u still adds => ?_
  split
  · exact .bind (draws_around_sorted Kind.isType adds (roots.still still) (Kind.isElement_of_isType sorted)
      inferInstance) fun outer row v adds ⟨roots, sorted⟩ => .pure adds ⟨_, roots.outline, sorted⟩
  · exact .pure adds ⟨_, roots.outline, sorted⟩

theorem intersectionType_draws : Draws bounds intersectionType s fun _ row _ => One Kind.isType row :=
  compoundType_draws

instance : Tame bounds unionType where
  draws _ := compoundType_draws.weaken fun _ row _ _ ⟨kind, same, sorted⟩ => by
    rw [same]
    exact ⟨.plain (Kind.isLoose_of_isElement (Kind.isElement_of_isType sorted)), trivial⟩

section Patterns

instance : Supplies bounds Kind.isElement (do return (← call .pattern).isSome) :=
  .isSome (calls.draws .pattern trivial) fun _ => Kind.isElement_of_isPattern

instance : Tame bounds patternList := by
  unfold patternList
  infer_instance

private theorem parenPattern_draws : Draws bounds parenPattern s fun first row t =>
    s.Roots first row t ∧ first.kind.isPattern = true := by
  unfold parenPattern
  exact draws_node_sorted _

private theorem typedPattern_draws : Draws bounds typedPattern s (Found s Kind.isPattern) := by
  unfold typedPattern
  refine draws_nodeIf_sorted Kind.isPattern (.andThen fun _ => ?_)
  refine .andFound (calls.draws .type trivial) (fun _ => Kind.isElement_of_isType) fun first => ?_
  simp only [Option.isSome_some, if_true]
  infer_instance

theorem pattern_draws : Draws bounds pattern s (Found s Kind.isPattern) := by
  unfold pattern
  have inner (s : State) : Draws bounds (do
      if ← sees .leftParen then return some (← parenPattern) else typedPattern) s (Found s Kind.isPattern) := by
    refine .look fun t still => ?_
    split
    · exact .bind parenPattern_draws fun first row u _ ⟨roots, sorted⟩ =>
        .pure ⟨first, rfl, by simpa using roots.of_still still, sorted⟩
    · exact typedPattern_draws.weaken fun _ _ _ _ found => found.of_still still
  exact draws_nested (inner _)

end Patterns

end LosslessJava.Grammar
