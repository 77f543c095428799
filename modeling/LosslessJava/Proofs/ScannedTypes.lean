import LosslessJava.Proofs.PredictedRuns
import LosslessJava.Proofs.Scans

/-! What a scan accepts as a type, the grammar reads as a type: without an error, and up to the same token.
The two were written independently of each other; both read the part of a type that the tokens span, and
the grammar records the tree of it. -/

namespace LosslessJava

open LosslessJava.Parser

namespace TokenStream

/-- How many more angle brackets are opened than closed between two indices. -/
def opened (stream : TokenStream) (first stop : Nat) : Int :=
  ((stream.kinds first stop).count .lt : Int) - (stream.kinds first stop).count .gt

variable {stream : TokenStream} {form : TypeForm} {part : TypePart form} {count i j k : Nat}

theorem opened_self : stream.opened i i = 0 := by simp [opened, kinds]

theorem opened_trans (one : i ≤ j) (two : j ≤ k) : stream.opened i j + stream.opened j k = stream.opened i k := by
  rw [opened, opened, opened, ← stream.kinds_append one two, List.count_append, List.count_append]
  omega

private theorem kinds_succ : stream.kinds i (i + 1) = [stream.kindAt i] := by
  rw [kinds, Nat.add_sub_cancel_left]
  rfl

private theorem opened_lt (here : stream.kindAt i = .lt) : stream.opened i (i + 1) = 1 := by
  rw [opened, kinds_succ, here]
  rfl

private theorem opened_gt (here : stream.kindAt i = .gt) : stream.opened i (i + 1) = -1 := by
  rw [opened, kinds_succ, here]
  rfl

theorem opened_plain {kind : Kind} (here : stream.kindAt i = kind) (plain : kind ≠ .lt ∧ kind ≠ .gt) :
    stream.opened i (i + 1) = 0 := by
  rw [opened, kinds_succ, here]
  simp [plain]

theorem opened_behind {kind : Kind} (here : stream.kindAt i = kind) (plain : kind ≠ .lt ∧ kind ≠ .gt) (later : i + 1 ≤ j) :
    stream.opened i j = stream.opened (i + 1) j := by
  rw [← opened_trans (Nat.le_succ i) later, opened_plain here plain, Int.zero_add]

theorem Dims.opened (dims : stream.Dims count i j) : stream.opened i j = 0 := by
  induction dims with
  | stop => exact opened_self
  | more opener closer rest ih =>
    have later := rest.le
    rw [opened_behind opener (by decide) (by omega), opened_behind closer (by decide) later]
    exact ih

theorem Spans.closer {arguments : TypePart .arguments} {i j : Nat} :
    stream.Spans arguments i j → stream.kindAt j = .gt
  | .last _ closer => closer
  | .more _ _ rest => rest.closer

/-- A part of a type closes the angle brackets that it opens. -/
theorem Spans.opened (spans : stream.Spans part i j) : stream.opened i j = 0 := by
  induction spans with
  | @primitive kind proper _ i j here dims =>
    have plain : kind ≠ .lt ∧ kind ≠ .gt := by constructor <;> (rintro rfl; cases proper)
    rw [opened_behind here plain dims.le, dims.opened]
  | named here rest dims ih =>
    have one := rest.le
    have two := dims.le
    rw [opened_behind here (by decide) (by omega), ← opened_trans one two, ih, dims.opened, Int.zero_add]
  | bare _ _ ih => exact ih
  | @diamond _ i j opener closer rest ih =>
    have later := rest.le
    rw [← opened_trans (Nat.le_succ i) (show i + 1 ≤ j by omega), ← opened_trans (Nat.le_succ (i + 1)) later,
      opened_lt opener, opened_gt closer, ih]
    rfl
  | @generic _ _ i j k opener _ inside rest ih ih' =>
    have one := inside.le
    have two := rest.le
    rw [← opened_trans (Nat.le_succ i) (show i + 1 ≤ k by omega), ← opened_trans one (show j ≤ k by omega),
      ← opened_trans (Nat.le_succ j) two, opened_lt opener, opened_gt inside.closer, ih, ih']
    rfl
  | stop => exact opened_self
  | next dot name rest ih =>
    have later := rest.le
    rw [opened_behind dot (by decide) (by omega), opened_behind name (by decide) later, ih]
  | last _ _ ih => exact ih
  | more first comma rest ih ih' =>
    have one := first.le
    have two := rest.le
    rw [← opened_trans one (by omega), ih, opened_behind comma (by decide) two, ih', Int.zero_add]
  | unbounded here => exact opened_plain here (by decide)
  | @bounded bound proper _ i j here behind type ih =>
    have later := type.le
    have plain : bound ≠ .lt ∧ bound ≠ .gt := by rcases proper with rfl | rfl <;> decide
    rw [opened_behind here (by decide) (by omega), opened_behind behind plain later, ih]
  | only _ ih => exact ih

private theorem opened_le_behind {kind : Kind} {n index : Nat} (here : stream.kindAt i = kind) (plain : kind ≠ .lt ∧ kind ≠ .gt)
    (later : i ≤ index) (rest : i + 1 ≤ index → stream.opened (i + 1) index ≤ n) : stream.opened i index ≤ n := by
  by_cases same : i = index
  · rw [same, opened_self]
    omega
  · rw [opened_behind here plain (by omega)]
    exact rest (by omega)

private theorem Dims.opened_le {index : Nat} (dims : stream.Dims count i j) (later : i ≤ index) (inside : index ≤ j) :
    stream.opened i index ≤ (0 : Nat) := by
  induction dims with
  | stop =>
    obtain rfl := Nat.le_antisymm later inside
    rw [opened_self]
    omega
  | more opener closer rest ih =>
    exact opened_le_behind opener (by decide) later fun later => opened_le_behind closer (by decide) later fun later =>
      ih later inside

/-- In a part of a type there are never more angle brackets open than lists nest. -/
theorem Spans.opened_le {index : Nat} (spans : stream.Spans part i j) (later : i ≤ index) (inside : index ≤ j) :
    stream.opened i index ≤ part.nesting := by
  induction spans with
  | @primitive kind proper _ i j here dims =>
    have plain : kind ≠ .lt ∧ kind ≠ .gt := by constructor <;> (rintro rfl; cases proper)
    exact opened_le_behind here plain later fun later => dims.opened_le later inside
  | @named _ _ i j k here rest dims ih =>
    refine opened_le_behind here (by decide) later fun later => ?_
    by_cases early : index ≤ j
    · exact ih later early
    · rw [← opened_trans rest.le (show j ≤ index by omega), rest.opened, Int.zero_add]
      have none := dims.opened_le (show j ≤ index by omega) inside
      omega
  | bare _ _ ih => exact ih later inside
  | @diamond further i j opener closer rest ih =>
    simp only [TypePart.nesting]
    by_cases early : index ≤ i + 1
    · obtain rfl | rfl : index = i ∨ index = i + 1 := by omega
      · rw [opened_self]
        omega
      · rw [opened_lt opener]
        omega
    · have last := ih (by omega) inside
      have behind : stream.opened i (i + 2) = 0 := by
        rw [← opened_trans (Nat.le_succ i) (Nat.le_succ (i + 1)), opened_lt opener, opened_gt closer]
        rfl
      rw [← opened_trans (show i ≤ i + 2 by omega) (by omega), behind]
      omega
  | @generic arguments further i j k opener _ inner rest ih ih' =>
    simp only [TypePart.nesting]
    by_cases first : index = i
    · rw [first, opened_self]
      omega
    · rw [← opened_trans (Nat.le_add_right i 1) (show i + 1 ≤ index by omega), opened_lt opener]
      by_cases early : index ≤ j
      · have within := ih (by omega) early
        omega
      · have last := ih' (by omega) inside
        rw [← opened_trans inner.le (show j ≤ index by omega), inner.opened, ← opened_trans (Nat.le_add_right j 1) (by omega),
          opened_gt inner.closer]
        omega
  | stop =>
    obtain rfl := Nat.le_antisymm later inside
    rw [opened_self]
    omega
  | next dot name rest ih =>
    exact opened_le_behind dot (by decide) later fun later => opened_le_behind name (by decide) later fun later =>
      ih later inside
  | last _ _ ih => exact ih later inside
  | @more _ _ i j k first comma rest ih ih' =>
    simp only [TypePart.nesting]
    by_cases early : index ≤ j
    · have within := ih later early
      omega
    · have last := ih' (by omega) inside
      rw [← opened_trans first.le (show j ≤ index by omega), first.opened, opened_behind comma (by decide) (by omega)]
      omega
  | unbounded here _ =>
    exact opened_le_behind here (by decide) later fun later => by
      obtain rfl := Nat.le_antisymm later inside
      rw [opened_self]
      omega
  | @bounded bound proper _ i j here behind _ ih =>
    have plain : bound ≠ .lt ∧ bound ≠ .gt := by rcases proper with rfl | rfl <;> decide
    exact opened_le_behind here (by decide) later fun later => opened_le_behind behind plain later fun later =>
      ih later inside
  | only _ ih => exact ih later inside

end TokenStream

namespace Grammar

open TokenStream (Spans Dims opened_trans opened_lt opened_behind opened_plain)

/-- There is room for types between two indices: at no place too many angle brackets are open for the depth
that they are read at. -/
def Roomy (env : Env) (depth first stop : Nat) : Prop :=
  ∀ index, first ≤ index → index ≤ stop → depth + env.stream.opened first index < env.options.maxDepth

variable {env : Env} {level : Level} {form : TypeForm} {depth count i j k : Nat}

/-- Where there is room, there is room for a part, at a depth that the brackets before it allow. -/
theorem Roomy.part {inner first stop : Nat} (room : Roomy env depth i k) (one : i ≤ first) (two : stop ≤ k)
    (deep : (inner : Int) ≤ depth + env.stream.opened i first) : Roomy env inner first stop := by
  intro index later inside
  have whole : env.stream.opened i first + env.stream.opened first index = env.stream.opened i index :=
    opened_trans one later
  have enough := room index (by omega) (by omega)
  omega

/-- There is room for a type where as many levels are left as lists nest in it. -/
theorem roomy_of_nesting {part : TypePart form} (spans : env.stream.Spans part i j)
    (enough : depth + part.nesting < env.options.maxDepth) : Roomy env depth i j := by
  intro index later inside
  have most := spans.opened_le later inside
  omega

private theorem Roomy.here (room : Roomy env depth i k) (later : i ≤ k) : depth < env.options.maxDepth := by
  have enough := room i (Nat.le_refl _) later
  rw [TokenStream.opened_self] at enough
  omega

private theorem primitive_iff (kind : Kind) : First.primitiveType.contains kind = kind.isPrimitiveType := by
  cases kind <;> decide +kernel

theorem seesAnnotation_follows (away : env.stream.kindAt i ≠ .atSign) :
    Follows env level i seesAnnotation fun found row j => found = false ∧ row = [] ∧ j = i := by
  refine .look ?_
  rw [TokenCursor.nth_eq, Nat.add_zero, beq_eq_false_iff_ne.mpr away]
  exact .pure ⟨rfl, rfl, rfl⟩

theorem annotations_follows (away : env.stream.kindAt i ≠ .atSign) :
    Follows env level i annotations fun found row j => found = false ∧ row = [] ∧ j = i := by
  refine .loopFrom <| (seesAnnotation_follows away).bind fun found front j ⟨no, empty, still⟩ => ?_
  subst no empty still
  exact .pure ⟨rfl, rfl, rfl⟩

private theorem unannotatedThen {α : Type} {next : Bool → Rule α} {post : α → List Shape → Nat → Prop}
    (away : env.stream.kindAt i ≠ .atSign) (rest : Follows env level i (next false) post) :
    Follows env level i (annotations >>= next) post :=
  (annotations_follows away).bind fun found front j ⟨no, empty, still⟩ => by
    subst no empty still
    exact rest

instance : Views env seesDims fun cursor => cursor.nth 0 == .leftBracket && cursor.nth 1 == .rightBracket := by
  unfold seesDims
  infer_instance

private theorem emptyBrackets_follows (opener : env.stream.kindAt i = .leftBracket)
    (closer : env.stream.kindAt (i + 1) = .rightBracket) :
    Follows env level i emptyBrackets fun _ row j => row = [.token .leftBracket 1, .token .rightBracket 1] ∧ j = i + 2 :=
  .consumeThen opener (by decide) <| .consume closer (by decide) ⟨rfl, rfl⟩

/-- Dimensions behind an element type, each pair of which makes an array type of what stands before it. -/
theorem arraySuffix_delivers {base s : State} {element : Shape} {type : Completed} (dims : env.stream.Dims count i j)
    (before : base.Wrote [element] s) (roots : base.Roots type [element] s) (here : s.position = i) :
    Delivers env base (arraySuffix type) s fun outer row t =>
      base.Roots outer row t ∧ row = [TypePart.arrayOf element count] ∧ t.position = j := by
  induction dims generalizing s element type with
  | @stop i away =>
    refine .loopFrom <| .look before fun t tried before => ?_
    have none : ¬ ((s.cursor env).nth 0 == .leftBracket && (s.cursor env).nth 1 == .rightBracket) = true := by
      simpa only [TokenCursor.nth_eq, State.cursor, here, Nat.add_zero, Bool.and_eq_true, beq_iff_eq, not_and] using away
    rw [if_neg none]
    exact .pure before ⟨roots.kept tried.events, rfl, tried.position.trans here⟩
  | @more count i j opener closer rest ih =>
    refine .loopFrom <| .look before fun t tried before => ?_
    have pair : ((s.cursor env).nth 0 == .leftBracket && (s.cursor env).nth 1 == .rightBracket) = true := by
      simp only [TokenCursor.nth_eq, State.cursor, here, Bool.and_eq_true, beq_iff_eq]
      exact ⟨opener, closer⟩
    rw [if_pos pair]
    have there : t.position = i := tried.position.trans here
    refine .bind (.around (P := fun row k =>
        row = [.node .arrayType [element, .token .leftBracket 1, .token .rightBracket 1]] ∧ k = i + 2)
      before (roots.kept tried.events) fun u still _ _ => ?_) fun outer row v before given => ?_
    · exact .bind (emptyBrackets_follows opener closer u (still.trans there) (Level.any u)) fun _ back w wrote given =>
        .pure wrote ⟨by decide, by rw [given.1]; rfl, given.2⟩
    · obtain ⟨roots, same, moved⟩ := given
      subst same
      exact .pure before (ih before roots moved)

private theorem argument_starts {argument : TypePart .argument} (spans : env.stream.Spans argument i j) :
    Starts .gt .comma (env.stream.kindAt i) := by
  have type_starts {type : TypePart .type} (spans : env.stream.Spans type i j) : Starts .gt .comma (env.stream.kindAt i) := by
    cases spans with
    | @primitive kind proper _ _ _ here =>
      rw [here]
      constructor <;> (rintro rfl; cases proper)
    | named here => rw [here]; constructor <;> decide
  cases spans with
  | unbounded here | bounded here => rw [here]; constructor <;> decide
  | only type => exact type_starts type

def segmentRest : Rule Bool := do
  let next ← nth 1
  let annotated := next == .atSign && (← nth 2) != .interfaceKw
  if ← sees .dot <&&> pure (next == .identifier || annotated) then
    consume .dot
    discard annotations
    if ← accept .identifier then
      return true
    else
      expectedHere "identifier"
      return false
  else
    return false

private theorem segmentRest_more (dot : env.stream.kindAt i = .dot)
    (name : env.stream.kindAt (i + 1) = .identifier) :
    Follows env level i segmentRest fun more row k =>
      more = true ∧ row = [.token .dot 1, .token .identifier 1] ∧ k = i + 2 := by
  refine .look (.look (.look ?_))
  simp only [TokenCursor.nth_eq, Nat.add_zero, dot, name, beq_self_eq_true, Bool.true_or, Bool.and_self, if_true]
  refine .consumeThen dot (by decide) <|
    Follows.bind (annotations_follows (by rw [name]; decide)).forget fun _ _ k ⟨_, _, empty, same⟩ => ?_
  subst empty same
  have taken : Follows env level (i + 1) (accept .identifier) fun found row k =>
      found = true ∧ row = [.token .identifier 1] ∧ k = i + 2 := .accept name (by decide) ⟨rfl, rfl, rfl⟩
  refine taken.bind fun found row k ⟨yes, same, moved⟩ => ?_
  subst yes same
  exact .pure ⟨rfl, rfl, moved⟩

private theorem segmentRest_end
    (away : env.stream.kindAt i = .dot → env.stream.kindAt (i + 1) ≠ .identifier ∧ env.stream.kindAt (i + 1) ≠ .atSign) :
    Follows env level i segmentRest fun more row k => more = false ∧ row = [] ∧ k = i := by
  refine .look (.look (.look ?_))
  have none : ¬ ((⟨env.stream, i⟩ : TokenCursor).nth 0 == .dot && ((⟨env.stream, i⟩ : TokenCursor).nth 1 == .identifier ||
      ((⟨env.stream, i⟩ : TokenCursor).nth 1 == .atSign && (⟨env.stream, i⟩ : TokenCursor).nth 2 != .interfaceKw))) = true := by
    simp only [TokenCursor.nth_eq, Nat.add_zero, Bool.and_eq_true, Bool.or_eq_true, beq_iff_eq]
    rintro ⟨dot, name | ⟨annotated, -⟩⟩
    · exact (away dot).1 name
    · exact (away dot).2 annotated
  rw [if_neg none]
  exact .pure ⟨rfl, rfl, rfl⟩

abbrev argumentRound : Rule Bool := delimitedRound .gt .comma "type argument" First.typeArgument (call .typeArg)

def Agrees (env : Env) (level : Level) : {form : TypeForm} → TypePart form → Nat → Nat → Prop
  | .type, part, i, j => FormsSome env level i (call .type) fun row k => row = part.row ∧ k = j
  | .segments, part, i, j => Follows env level.deeper i (loop classTypeSegment) fun _ row k => row = part.row ∧ k = j
  | .further, part, i, j => Follows env level.deeper i segmentRest fun more row k =>
    if more then Follows env level.deeper k (loop classTypeSegment) fun _ back l => row ++ back = part.row ∧ l = j
    else row = part.row ∧ k = j
  | .arguments, part, i, j => Follows env level i (loop argumentRound) fun _ row k => row = part.row ∧ k = j
  | .argument, part, i, j => Follows env level i (call .typeArg) fun found row k => found = true ∧ row = part.row ∧ k = j

private theorem agrees_segments {segments : TypePart .segments} : Agrees env level segments i j ↔
    Follows env level.deeper i (loop classTypeSegment) fun _ row k => row = segments.row ∧ k = j := .rfl

private theorem agrees_further {further : TypePart .further} : Agrees env level further i j ↔
    Follows env level.deeper i segmentRest fun more row k =>
      if more then Follows env level.deeper k (loop classTypeSegment) fun _ back l => row ++ back = further.row ∧ l = j
      else row = further.row ∧ k = j := .rfl

private theorem agrees_arguments {arguments : TypePart .arguments} : Agrees env level arguments i j ↔
    Follows env level i (loop argumentRound) fun _ row k => row = arguments.row ∧ k = j := .rfl

private theorem agrees_argument {argument : TypePart .argument} : Agrees env level argument i j ↔
    Follows env level i (call .typeArg) fun found row k => found = true ∧ row = argument.row ∧ k = j := .rfl

private theorem type_agrees {element : Shape} {type : TypePart .type} (same : type.row = [TypePart.arrayOf element count])
    (dims : env.stream.Dims count j k) (room : level.depth < env.options.maxDepth)
    (reads : FormsSome env level.deeper i elementType fun row l => row = [element] ∧ l = j) : Agrees env level type i k := by
  intro s here deep
  refine .call <| .nested (deep.depth ▸ room) <| .bind (reads s.enter here deep.enter)
    fun found row t wrote ⟨first, given, roots, read, there⟩ => ?_
  subst given read
  exact .bind (arraySuffix_delivers dims wrote roots there) fun outer row u wrote ⟨roots, made, there⟩ =>
    .pure wrote ⟨outer, rfl, roots, made.trans same.symm, there⟩

private theorem elementType_forms {kind : Kind} {told : List Shape → Nat → Prop} (away : env.stream.kindAt i ≠ .atSign)
    (proper : kind ≠ .tombstone ∧ kind ≠ .error)
    (reads : Follows env level i (do
      if ← seesAny First.primitiveType then
        consumeAny
        return some .primitiveType
      else if ← sees .identifier then
        classTypeSegments
        return some .classType
      else
        expectedHere "type"
        return none) fun found row k => found = some kind ∧ told [.node kind row] k) :
    FormsSome env level i elementType told := by
  intro s here deep
  have inner : Follows env level i (do
      let annotated ← annotations
      if ← seesAny First.primitiveType then
        consumeAny
        return some .primitiveType
      else if ← sees .identifier then
        classTypeSegments
        return some .classType
      else
        expectedHere "type"
        return if annotated then some .error else none) fun found row k => found = some kind ∧ told [.node kind row] k :=
    unannotatedThen away reads
  refine .bind (.nodeIf (P := fun row k => (∃ children, row = [.node kind children]) ∧ told row k) (Q := fun _ _ => False)
    ((inner s.start here deep.start).weaken fun found row t _ ⟨same, holds⟩ => ?_)) fun found row t wrote holds => ?_
  · subst same
    exact ⟨proper.1, ⟨_, rfl⟩, holds⟩
  · cases found with
    | none => exact holds.elim
    | some first =>
      obtain ⟨roots, ⟨children, same⟩, holds⟩ := holds
      have named : first.kind = kind := by
        obtain ⟨_, _, _, same', -⟩ := roots
        rw [same'] at same
        cases same
        rfl
      exact .pure wrote ⟨first, by simp [Option.filter, named, proper.2], roots, holds⟩

private theorem elementType_primitive {kind : Kind} (proper : kind.isPrimitiveType = true)
    (here : env.stream.kindAt i = kind) :
    FormsSome env level i elementType fun row k => row = [.node .primitiveType [.token kind 1]] ∧ k = i + 1 := by
  have away : kind ≠ .atSign := by
    rintro rfl
    cases proper
  refine elementType_forms (here ▸ away)
    (show Kind.primitiveType ≠ .tombstone ∧ Kind.primitiveType ≠ .error by decide) <| .look ?_
  rw [TokenCursor.nth_eq, Nat.add_zero, primitive_iff, here, if_pos proper]
  have more : kind ≠ .eof := by
    rintro rfl
    cases proper
  have taken : Follows env level i consumeAny fun _ row k => row = [.token kind 1] ∧ k = i + 1 :=
    .consumeAny here more ⟨rfl, rfl⟩
  refine taken.bind fun _ row k ⟨same, moved⟩ => ?_
  subst same
  exact .pure ⟨rfl, rfl, moved⟩

private theorem elementType_class {back : List Shape} (here : env.stream.kindAt i = .identifier)
    (segments : Follows env level (i + 1) (loop classTypeSegment) fun _ row k => row = back ∧ k = j) :
    FormsSome env level i elementType fun row k => row = [.node .classType (.token .identifier 1 :: back)] ∧ k = j := by
  refine elementType_forms (by rw [here]; decide)
    (show Kind.classType ≠ .tombstone ∧ Kind.classType ≠ .error by decide) <| .look ?_
  rw [TokenCursor.nth_eq, Nat.add_zero, primitive_iff, here, if_neg (by decide)]
  refine .look ?_
  rw [TokenCursor.nth_eq, Nat.add_zero, here, if_pos (by decide)]
  have whole : Follows env level i classTypeSegments fun _ row k => row = .token .identifier 1 :: back ∧ k = j :=
    .consumeThen here (by decide) <| segments.weaken fun _ row k ⟨same, moved⟩ => ⟨by rw [same], moved⟩
  refine whole.bind fun _ row k ⟨same, moved⟩ => ?_
  subst same
  exact .pure ⟨rfl, by rw [List.append_nil], moved⟩

private theorem segments_follow {segments : TypePart .segments} {further : TypePart .further} {front : List Shape}
    (same : segments.row = front ++ further.row)
    (arguments : Follows env level.deeper i (whenSees .lt typeArgs) fun _ row l => row = front ∧ l = k)
    (rest : Agrees env level further k j) : Agrees env level segments i j := by
  refine agrees_segments.mpr <| .loop <| arguments.bind fun _ row l ⟨wrote, moved⟩ => ?_
  subst wrote moved
  refine (agrees_further.mp rest).weaken fun more back m holds => ?_
  cases more with
  | false => exact ⟨by rw [same, ← holds.1], holds.2⟩
  | true =>
    rw [if_pos rfl] at holds ⊢
    refine holds.weaken fun _ more n ⟨wrote, moved⟩ => ⟨?_, moved⟩
    rw [same, ← wrote, List.append_assoc]

private theorem typeArgs_diamond (opener : env.stream.kindAt i = .lt) (closer : env.stream.kindAt (i + 1) = .gt) :
    Follows env level i typeArgs fun _ row k => row = [.node .typeArgList [.token .lt 1, .token .gt 1]] ∧ k = i + 2 := by
  refine .node (by decide) <| .look ?_
  rw [TokenCursor.nth_eq, closer, if_pos (by decide)]
  exact .consumeThen opener (by decide) <| .consume closer (by decide) ⟨rfl, rfl⟩

private theorem typeArgs_some {arguments : TypePart .arguments} (opener : env.stream.kindAt i = .lt)
    (some : env.stream.kindAt (i + 1) ≠ .gt) (closer : env.stream.kindAt j = .gt)
    (inside : Agrees env level arguments (i + 1) j) :
    Follows env level i typeArgs fun _ row k =>
      row = [.node .typeArgList (.token .lt 1 :: (arguments.row ++ [.token .gt 1]))] ∧ k = j + 1 := by
  refine .node (by decide) <| .look ?_
  rw [TokenCursor.nth_eq, if_neg (by simpa using some)]
  exact delimited_follows opener closer (by decide) <| (agrees_arguments.mp inside).weaken fun _ row k ⟨same, moved⟩ =>
    ⟨moved, by rw [same], rfl⟩

/-- Where no annotation stands, a wildcard is told by its first token. -/
theorem seesWildcard_follows (away : env.stream.kindAt i ≠ .atSign) :
    Follows env level i seesWildcard fun found row j => found = (env.stream.kindAt i == .question) ∧ row = [] ∧ j = i := by
  refine .look ?_
  rw [TokenCursor.nth_eq, Nat.add_zero]
  by_cases here : env.stream.kindAt i = .question
  · rw [here, if_pos (by decide)]
    exact .pure ⟨rfl, rfl, rfl⟩
  · rw [beq_eq_false_iff_ne.mpr here, if_neg (by decide)]
    refine .look ?_
    rw [TokenCursor.nth_eq, Nat.add_zero, beq_eq_false_iff_ne.mpr away, if_neg (by decide)]
    exact .pure ⟨rfl, rfl, rfl⟩

private theorem typeArg_wildcard {argument : TypePart .argument} {back : List Shape}
    (same : argument.row = [.node .wildcardType (.token .question 1 :: back)])
    (here : env.stream.kindAt i = .question)
    (bound : Follows env level (i + 1) wildcardBound fun _ row k => row = back ∧ k = j) : Agrees env level argument i j := by
  have away : env.stream.kindAt i ≠ .atSign := by
    rw [here]
    decide
  have node : Follows env level i wildcard fun _ row k => row = argument.row ∧ k = j := by
    refine .node (by decide) <| Follows.bind (annotations_follows away).forget fun _ _ l ⟨_, _, empty, still⟩ => ?_
    subst empty still
    refine .consumeThen here (by decide) <| bound.weaken fun _ row k ⟨wrote, moved⟩ => ⟨?_, moved⟩
    rw [wrote, same]
    rfl
  have body : Follows env level i typeArg fun found row k => found = true ∧ row = argument.row ∧ k = j := by
    refine (seesWildcard_follows away).bind fun found row k ⟨seen, empty, still⟩ => ?_
    subst seen empty still
    rw [here, if_pos (by decide)]
    exact node.bind fun _ row k ⟨wrote, moved⟩ => .pure ⟨rfl, by rw [← wrote]; simp, moved⟩
  exact Follows.call (show Follows env level i (rule _ .typeArg) _ from body)

private theorem typeArg_type {type : TypePart .type} (away : env.stream.kindAt i ≠ .atSign) (free : env.stream.kindAt i ≠ .question)
    (reads : Agrees env level type i j) : Agrees env level (.only type) i j := by
  have body : Follows env level i typeArg fun found row k => found = true ∧ row = type.row ∧ k = j := by
    refine (seesWildcard_follows away).bind fun found row k ⟨seen, empty, still⟩ => ?_
    subst seen empty still
    rw [beq_eq_false_iff_ne.mpr free, if_neg (by decide)]
    refine fun s here deep => .bind (reads s here deep) fun found row t wrote ⟨first, given, _, same, there⟩ => ?_
    subst given
    exact .pure wrote ⟨rfl, same, there⟩
  exact Follows.call (show Follows env level i (rule _ .typeArg) _ from body)

theorem type_follows {type : TypePart .type} (reads : Agrees env level type i j) :
    Follows env level i (Functor.discard (call .type)) fun _ row k => row = type.row ∧ k = j := fun s here deep =>
  .discard ((reads s here deep).weaken fun _ _ _ _ ⟨_, _, _, holds⟩ => holds)

private theorem wildcardBound_free (free : env.stream.kindAt i ≠ .extendsKw ∧ env.stream.kindAt i ≠ .superKw) :
    Follows env level i wildcardBound fun _ row k => row = [] ∧ k = i := by
  refine .look ?_
  rw [TokenCursor.nth_eq, Nat.add_zero, beq_eq_false_iff_ne.mpr free.1, beq_eq_false_iff_ne.mpr free.2, if_neg (by simp)]
  exact .pure ⟨rfl, rfl⟩

private theorem wildcardBound_type {bound : Kind} {type : TypePart .type} (proper : bound = .extendsKw ∨ bound = .superKw)
    (here : env.stream.kindAt i = bound) (reads : Agrees env level type (i + 1) j) :
    Follows env level i wildcardBound fun _ row k => row = .token bound 1 :: type.row ∧ k = j := by
  refine .look ?_
  rw [TokenCursor.nth_eq, Nat.add_zero, here, if_pos (by simpa using proper)]
  have more : bound ≠ .eof := by rcases proper with rfl | rfl <;> decide
  have taken : Follows env level i consumeAny fun _ row k => row = [.token bound 1] ∧ k = i + 1 :=
    .consumeAny here more ⟨rfl, rfl⟩
  refine taken.bind fun _ row k ⟨same, moved⟩ => ?_
  subst same moved
  exact (type_follows reads).weaken fun _ row k ⟨same, moved⟩ => ⟨by rw [same]; rfl, moved⟩

private theorem further_stop
    (away : env.stream.kindAt i = .dot → env.stream.kindAt (i + 1) ≠ .identifier ∧ env.stream.kindAt (i + 1) ≠ .atSign) :
    Agrees env level .stop i i :=
  agrees_further.mpr <| (segmentRest_end away).weaken fun more row k ⟨no, empty, still⟩ => by
    subst no
    exact ⟨empty, still⟩

private theorem further_next {segments : TypePart .segments} (dot : env.stream.kindAt i = .dot)
    (name : env.stream.kindAt (i + 1) = .identifier) (rest : Agrees env level segments (i + 2) j) :
    Agrees env level (.next segments) i j :=
  agrees_further.mpr <| (segmentRest_more dot name).weaken fun more row k ⟨yes, same, moved⟩ => by
    subst yes same moved
    rw [if_pos rfl]
    exact (agrees_segments.mp rest).weaken fun _ back l ⟨same, moved⟩ => ⟨by rw [same]; rfl, moved⟩

private theorem arguments_last {argument : TypePart .argument} (starts : Starts .gt .comma (env.stream.kindAt i))
    (reads : Agrees env level argument i j) (closer : env.stream.kindAt j = .gt) : Agrees env level (.last argument) i j := by
  have round : Follows env level i argumentRound fun more row k => more = false ∧ row = argument.row ∧ k = j :=
    delimitedRound_last starts (by rw [closer]; decide) (by rw [closer]; decide +kernel) <|
      (agrees_argument.mp reads).weaken fun _ row k ⟨yes, same, there⟩ => ⟨yes, there, rfl, same, rfl⟩
  exact agrees_arguments.mpr (.loopEnd round)

private theorem arguments_more {argument : TypePart .argument} {arguments : TypePart .arguments}
    (starts : Starts .gt .comma (env.stream.kindAt i)) (reads : Agrees env level argument i j)
    (comma : env.stream.kindAt j = .comma) (rest : Agrees env level arguments (j + 1) k) :
    Agrees env level (.more argument arguments) i k := by
  have round : Follows env level i argumentRound fun more row l =>
      more = true ∧ row = argument.row ++ [.token .comma 1] ∧ l = j + 1 :=
    delimitedRound_more starts (by decide) comma <|
      (agrees_argument.mp reads).weaken fun _ row k ⟨yes, same, there⟩ => ⟨yes, there, rfl, by rw [same], rfl⟩
  refine agrees_arguments.mpr <| .loopOn round fun row l ⟨same, moved⟩ => ?_
  subst same moved
  refine (agrees_arguments.mp rest).weaken fun _ back m ⟨same, there⟩ => ⟨?_, there⟩
  rw [same, List.append_assoc]
  rfl

/-- The rule for a part of a type reads the tokens that span the part, where there is room for the types in it. -/
theorem agrees_of_spans {part : TypePart form} (spans : env.stream.Spans part i j) (room : Roomy env level.depth i j) :
    Agrees env level part i j := by
  induction spans generalizing level with
  | @primitive kind proper count i j here dims =>
    have later := dims.le
    exact type_agrees rfl dims (room.here (by omega)) (elementType_primitive proper here)
  | @named segments count i j k here rest dims ih =>
    have one := rest.le
    have two := dims.le
    have reads : Agrees env level segments (i + 1) j := ih <| room.part (by omega) two <| by
      rw [opened_plain here (by decide)]
      omega
    exact type_agrees rfl dims (room.here (by omega)) (elementType_class here reads)
  | bare away rest ih => exact segments_follow rfl (.skip away ⟨rfl, rfl⟩) (ih room)
  | @diamond further i j opener closer rest ih =>
    have later := rest.le
    have reads : Agrees env level further (i + 2) j := ih <| room.part (by omega) (Nat.le_refl _) <| by
      rw [← opened_trans (Nat.le_succ i) (Nat.le_succ (i + 1)), opened_lt opener, TokenStream.opened_gt closer]
      omega
    exact segments_follow rfl (.whenSees opener (typeArgs_diamond opener closer)) reads
  | @generic arguments further i j k opener some inside rest ih ih' =>
    have one := inside.le
    have two := rest.le
    have reads : Agrees env level.deeper arguments (i + 1) j := ih <| room.part (by omega) (by omega) <| by
      rw [opened_lt opener, Level.deeper_depth]
      omega
    have others : Agrees env level further (j + 1) k := ih' <| room.part (by omega) (Nat.le_refl _) <| by
      rw [← opened_trans (Nat.le_succ i) (show i + 1 ≤ j + 1 by omega), ← opened_trans one (Nat.le_succ j), opened_lt opener,
        inside.opened, TokenStream.opened_gt inside.closer]
      omega
    exact segments_follow rfl (.whenSees opener (typeArgs_some opener some inside.closer reads)) others
  | stop away => exact further_stop away
  | @next segments i j dot name rest ih =>
    have later := rest.le
    have reads : Agrees env level segments (i + 2) j := ih <| room.part (by omega) (Nat.le_refl _) <| by
      rw [opened_behind dot (by decide) (by omega), opened_plain name (by decide)]
      omega
    exact further_next dot name reads
  | last first closer ih => exact arguments_last (argument_starts first) (ih room) closer
  | @more argument arguments i j k first comma rest ih ih' =>
    have one := first.le
    have two := rest.le
    have reads : Agrees env level argument i j := ih <| room.part (Nat.le_refl _) (by omega) <| by
      rw [TokenStream.opened_self]
      omega
    have others : Agrees env level arguments (j + 1) k := ih' <| room.part (by omega) (Nat.le_refl _) <| by
      rw [← opened_trans one (by omega), first.opened, opened_plain comma (by decide)]
      omega
    exact arguments_more (argument_starts first) reads comma others
  | unbounded here free => exact typeArg_wildcard rfl here (wildcardBound_free free)
  | @bounded bound proper type i j here behind spans ih =>
    have later := spans.le
    have plain' : bound ≠ .lt ∧ bound ≠ .gt := by rcases proper with rfl | rfl <;> decide
    have reads : Agrees env level type (i + 2) j := ih <| room.part (by omega) (Nat.le_refl _) <| by
      rw [opened_behind here (by decide) (by omega), opened_plain behind plain']
      omega
    exact typeArg_wildcard rfl here (wildcardBound_type proper behind reads)
  | @only part i j type ih =>
    have starts : env.stream.kindAt i ≠ .atSign ∧ env.stream.kindAt i ≠ .question := by
      cases type with
      | @primitive kind proper _ _ _ here =>
        rw [here]
        constructor <;> (rintro rfl; cases proper)
      | named here => rw [here]; decide
    exact typeArg_type starts.1 starts.2 (ih room)

private theorem typesAfter_follows (joined : env.stream.Joined i j) (room : Roomy env level.depth i j) :
    Follows env level i (typesAfter .amp) fun _ _ k => k = j := by
  induction joined with
  | @stop i away =>
    have refused : Follows env level i (accept .amp) fun found _ k => found = false ∧ k = i := .refuse away ⟨rfl, rfl⟩
    refine .loopEnd <| refused.bind fun found _ k ⟨no, still⟩ => ?_
    subst no
    exact .pure ⟨rfl, still⟩
  | @more part i j k amp type rest ih =>
    have one := type.le
    have two := rest.le
    have first : Agrees env level part (i + 1) j := agrees_of_spans type <| room.part (by omega) two <| by
      rw [opened_plain amp (by decide)]
      omega
    have others := ih <| room.part (show i ≤ j by omega) (Nat.le_refl _) <| by
      rw [opened_behind amp (by decide) one, type.opened]
      omega
    have taken : Follows env level i (accept .amp) fun found _ k => found = true ∧ k = i + 1 :=
      .accept amp (by decide) ⟨rfl, rfl⟩
    have round : Follows env level i (do
        if ← accept .amp then
          discard <| call .type
          return true
        else
          return false) fun more _ k => more = true ∧ k = j :=
      taken.bind fun found _ k ⟨yes, moved⟩ => by
        subst yes moved
        exact (type_follows first).bind fun _ _ k ⟨_, moved⟩ => .pure ⟨rfl, moved⟩
    exact .loopOn round fun _ l same => by
      subst same
      exact others

private theorem intersectionType_follows {part : TypePart .type} (first : env.stream.Spans part i j)
    (joined : env.stream.Joined j k) (room : Roomy env level.depth i k) :
    Follows env level i intersectionType fun _ _ l => l = k := by
  have one := first.le
  have two := joined.le
  have type : Agrees env level part i j := agrees_of_spans first <| room.part (Nat.le_refl _) two <| by
    rw [TokenStream.opened_self]
    omega
  have rest : Follows env level j (typesAfter .amp) fun _ _ l => l = k := typesAfter_follows joined <|
    room.part one (Nat.le_refl _) <| by
      rw [first.opened]
      omega
  intro s here deep
  refine .bind (type s here deep) fun found row t wrote given => ?_
  obtain ⟨first, rfl, roots, -, there⟩ := given
  refine .look wrote fun u tried before => ?_
  rw [State.cursor, there, TokenCursor.nth_eq, Nat.add_zero]
  split
  · have still : u.position = j := tried.position.trans there
    have around : Delivers env s (around first (do typesAfter .amp; return .intersectionType)) u fun outer row v =>
        s.Roots outer row v ∧ v.position = k :=
      .around (P := fun _ l => l = k) before (roots.kept tried.events) fun v moved depth recovery =>
        .bind (rest v (moved.trans still) ((deep.wrote before).same depth recovery)) fun _ _ _ wrote there =>
          .pure wrote ⟨by decide, there⟩
    exact .discard (around.weaken fun _ _ _ _ given => given.2)
  · next away =>
    have ended : j = k := by
      cases joined with
      | stop => rfl
      | more amp => exact absurd (by simpa using amp) away
    exact .pure before (tried.position.trans (there.trans ended))

/-- Where a scan accepts without hitting the limit, a rule reads up to where the scan did, and reports nothing. -/
def ReadsScanned (env : Env) {α : Type} (scan : Nat → Lookahead.Scan Nat) (rule : Rule α) (good : α → Prop) : Prop :=
  ∀ (index limit n stop : Nat) (s : State), (scan n).run.decide ⟨env.stream, index⟩ limit = (some stop, false) →
    s.position = index + n → Roomy env s.depth (index + n) (index + stop) →
      ∃ a t, rule.exec env Grammar.rule s = some (.ok (a, t)) ∧ good a ∧ t.position = index + stop ∧
        t.diagnostics = s.diagnostics ∧ t.errorCount = s.errorCount

/-- Types are read as they are scanned, and so are types joined by `&`. -/
theorem types_read_as_scanned (plain : env.stream.Unannotated) :
    ReadsScanned env Lookahead.type (call .type) (·.isSome) ∧
      ReadsScanned env Lookahead.castType intersectionType fun _ => True := by
  constructor
  · intro index limit n stop s accepted here room
    have accepted : Lookahead.Accepts ⟨⟨env.stream, index⟩, limit⟩ (Lookahead.type n) stop := accepted
    obtain ⟨part, spans⟩ := Lookahead.type_of_accepts plain accepted
    obtain ⟨_, t, ran, row, wrote, first, rfl, -, -, there⟩ := agrees_of_spans spans room s here (Level.any s)
    exact ⟨_, t, ran, rfl, there, wrote.diagnostics, wrote.errorCount⟩
  · intro index limit n stop s accepted here room
    have accepted : Lookahead.Accepts ⟨⟨env.stream, index⟩, limit⟩ (Lookahead.castType n) stop := accepted
    obtain ⟨part, j, first, joined⟩ := Lookahead.castType_of_accepts plain accepted
    obtain ⟨_, t, ran, row, wrote, there⟩ := intersectionType_follows first joined room s here (Level.any s)
    exact ⟨_, t, ran, trivial, there, wrote.diagnostics, wrote.errorCount⟩

/-- There is room for types where fewer tokens stand than levels are left. -/
theorem roomy_of_few (few : depth + (j - i) < env.options.maxDepth) : Roomy env depth i j := by
  intro index later inside
  have count := List.count_le_length (a := Kind.lt) (l := env.stream.kinds i index)
  have length : (env.stream.kinds i index).length = index - i := by simp [TokenStream.kinds]
  rw [TokenStream.opened]
  omega

theorem generic_type_reads_as_scanned :
    let env : Env := ⟨.lex "a.b<c[],? extends d<e>>[] f", {}⟩
    ∃ found t, (call .type : Rule _).exec env Grammar.rule {} = some (.ok (found, t)) ∧ found.isSome = true ∧
      t.position = 17 ∧ t.diagnostics = #[] ∧ t.errorCount = 0 :=
  (types_read_as_scanned (TokenStream.unannotated_of_all (by decide +kernel))).1 0 1024 0 17 {} (by decide +kernel) rfl
    (roomy_of_few (by decide))

end Grammar

end LosslessJava
