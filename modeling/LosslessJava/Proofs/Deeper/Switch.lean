import LosslessJava.Proofs.Deeper.Receivers

/-! Names, modifiers, patterns and switch blocks, as long as the rules that have a name keep to their courses. -/

namespace LosslessJava.Grammar

open LosslessJava.Parser

set_option synthInstance.maxSize 2000

variable {bounds : Bounds} {α β : Type} {s t : State} {kind : Kind}

def Nonterminal.Apt : {α : Type} → Nonterminal α → Prop
  | _, .clauses forms => ∀ form ∈ forms, form.1.isUnpaired = true
  | _, _ => True

def Nonterminal.Late : {α : Type} → Nonterminal α → α → Prop
  | _, .expression least, _ => Power.relational < least
  | _, .unary, found | _, .parenOperand, found => found.isSome = true
  | _, _, _ => False

class Routes (bounds : Bounds) : Prop extends Calls bounds where
  type : Steers bounds .angles (call .type)
  typeArg : Steers bounds .angles (call .typeArg)
  onCourse : ∀ {α : Type} (name : Nonterminal α), name.Apt → ∀ s, OnCourse bounds .all name.Late (call name) s

private theorem Steers.of_angles {rule : Rule α} (steers : Steers bounds .angles rule) : Steers bounds .all rule :=
  ⟨fun s => .of_angles (steers.onCourse s)⟩

theorem OnCourse.consumeHere {course : Course} {late : Unit → Prop} (still : s.Still t) (here : (s.cursor bounds.env).current = kind)
    (taken : course.takes kind = true) : OnCourse bounds course late Parser.consumeAny t :=
  .consumeAny (by rwa [still.current_eq, State.current, here])

/-- To take tokens as one keeps to the course if no type arguments end among them. -/
theorem OnCourse.join {late : Unit → Prop} {count : Nat} (clear : ∀ name close, bounds.env.stream.Receiver name close →
      name + 1 < s.position → s.position ≤ close → s.position + count ≤ close) :
    OnCourse bounds .all late (Parser.join kind count) s := by
  refine .act (fun _ => rfl) fun a t gives ready _ => ?_
  cases gives.act
  have inside := ready.inside
  show Course.all.Leads bounds.env.stream s.position (min (s.position + count) (bounds.env.stream.size - 1))
  refine ⟨by omega, fun name close receiver within before => ?_⟩
  have still := clear name close receiver within before
  omega

theorem OnCourse.idleThen {course : Course} {late : α → Prop} {first : Rule β} {next : β → Rule α} [idle : Idle bounds first]
    [one : Steers bounds course first] (two : ∀ b t, t.position = s.position → OnCourse bounds course late (next b) t) :
    OnCourse bounds course late (first >>= next) s := .bind (idle.still s) (one.onCourse s) two

theorem OnCourse.thenIdle {course : Course} {middle : β → Prop} {late : α → Prop} {first : Rule β} {next : β → Rule α}
    [idle : ∀ b, Idle bounds (next b)] [two : ∀ b, Steers bounds course (next b)] (one : OnCourse bounds course middle first s)
    (ends : ∀ b t, middle b → Smooth bounds (next b) t fun a _ => late a) : OnCourse bounds course late (first >>= next) s :=
  .behindLate one (fun b t => .of_never ((two b).onCourse t))
    fun b t here _ => (((idle b).still t).and (ends b t here)).weaken fun _ _ ends => .inl ends

theorem OnCourse.discard {course : Course} {middle : α → Prop} {late : Prop} {rule : Rule α} (one : OnCourse bounds course middle rule s)
    (ends : ∀ a, middle a → late) : OnCourse bounds course (fun _ => late) (discard rule) s :=
  show OnCourse bounds course _ (rule >>= fun _ => Pure.pure ()) s from .thenIdle one fun a _ here => .pure (ends a here)

theorem OnCourse.node {course : Course} {late : Prop} {rule : Rule Unit}
    (inner : ∀ t, t.position = s.position → OnCourse bounds course (fun _ => late) rule t) :
    OnCourse bounds course (fun _ => late) (Parser.node kind rule) s := by
  unfold Parser.node Parser.nodeOf
  exact .idleThen fun _ t same => .thenIdle (.thenIdle (inner t same) fun _ _ here => .pure here) fun _ _ here => .always fun _ _ => here

theorem OnCourse.around {course : Course} {late : Prop} {first : Completed} {rule : Rule Kind}
    (inner : ∀ t, t.position = s.position → OnCourse bounds course (fun _ => late) rule t) :
    OnCourse bounds course (fun _ => late) (Parser.around first rule) s := by
  unfold Parser.around
  exact .idleThen fun _ t same => .thenIdle (inner t same) fun _ _ here => .always fun _ _ => here

theorem OnCourse.impossible {course : Course} {late : α → Prop} {rule : Rule α} (never : Smooth bounds rule s fun _ _ => False) :
    OnCourse bounds course late rule s where
  leads := never.weaken fun _ _ impossible => impossible.elim
  agrees _ _ _ _ _ _ _ := never.weaken fun _ _ impossible => impossible.elim

section Calls

variable [routes : Routes bounds]

theorem Routes.steers (name : Nonterminal α) (apt : name.Apt) (never : ∀ a, ¬ name.Late a) : Steers bounds .all (call name) :=
  ⟨fun s => (routes.onCourse name apt s).weaken fun a late => never a late⟩

instance : Steers bounds .angles (call .type) := routes.type

instance : Steers bounds .angles (call .typeArg) := routes.typeArg

instance : Steers bounds .all (call .type) := routes.type.of_angles

instance : Steers bounds .all (call .simpleName) := routes.steers _ trivial fun _ late => late

instance : Steers bounds .all (call .lambdaParamList) := routes.steers _ trivial fun _ late => late

instance : Steers bounds .all (call .elementValue) := routes.steers _ trivial fun _ late => late

instance : Steers bounds .all (call .arrayInitializer) := routes.steers _ trivial fun _ late => late

instance : Steers bounds .all (call .pattern) := routes.steers _ trivial fun _ late => late

instance {form : Option Kind} : Steers bounds .all (call (.terminator form)) := routes.steers _ trivial fun _ late => late

instance : Steers bounds .all (call .block) := routes.steers _ trivial fun _ late => late

instance : Steers bounds .all (call .statement) := routes.steers _ trivial fun _ late => late

instance {kind : Kind} : Steers bounds .all (call (.classBody kind)) := routes.steers _ trivial fun _ late => late

theorem Routes.expression {least : Power} (loose : least ≤ Power.relational) : Steers bounds .all (call (.expression least)) :=
  routes.steers _ trivial fun _ => Nat.not_lt.mpr loose

instance : Steers bounds .all (call (.expression .assignment)) := routes.expression (by decide)

instance : Steers bounds .all (call (.expression .conditional)) := routes.expression (by decide)

instance : Steers bounds .all (call (.expression .logicalAnd)) := routes.expression (by decide)

instance : Steers bounds .all anyExpression := inferInstanceAs (Steers bounds .all (call (.expression .assignment)))

instance : Steers bounds .all elementValuePair := by
  unfold elementValuePair
  infer_instance

instance : Steers bounds .all annotationArgs := by
  unfold annotationArgs
  infer_instance

instance : Steers bounds .angles annotation := annotation_steers fun _ => inferInstance

instance : Steers bounds .all annotation := .of_angles inferInstance

theorem elementValue_steers : Steers bounds .all elementValue := by
  unfold elementValue
  infer_instance

instance : Steers bounds .angles typeArgs := typeArgs_steers

instance : Steers bounds .all typeArgs := .of_angles inferInstance

instance : Steers bounds .all typeParams := .of_angles typeParams_steers

private theorem takes_of_modifier (among : First.modifier.contains kind = true) : Course.all.takes kind = true := by
  cases kind <;> first | rfl | exact absurd among (by decide +kernel)

omit routes in
private theorem nonSealed_clear (here : isNonSealed (s.cursor bounds.env) = true) {i : Nat} (small : i < 3) :
    bounds.env.stream.kindAt (s.position + i) ≠ .gt := by
  simp only [isNonSealed, isWordAt, Bool.and_eq_true, beq_iff_eq, TokenCursor.current, TokenCursor.nth_eq] at here
  obtain ⟨⟨⟨⟨⟨first, -⟩, second⟩, third, -⟩, -⟩, -⟩ := here
  obtain rfl | rfl | rfl : i = 0 ∨ i = 1 ∨ i = 2 := by omega
  · exact ne_of_eq_of_ne first (by decide)
  · exact ne_of_eq_of_ne second (by decide)
  · exact ne_of_eq_of_ne third (by decide)

instance : Steers bounds .all modifier where
  onCourse s := by
    unfold modifier
    refine .andThen fun annotated t => ?_
    split
    · exact Steers.onCourse t
    · refine .look fun u still => ?_
      dsimp only [id]
      split
      · next among =>
        refine .consumeAnyThen ?_ fun v => .pure
        rw [still.current_eq]
        exact takes_of_modifier among
      · split
        · exact Steers.onCourse u
        · split
          · next here =>
            refine .behind (.join ?_) fun _ v => .pure
            intro name close receiver _ before
            refine Nat.le_of_not_lt fun past => ?_
            rw [← State.Still.cursor_eq still] at here
            refine nonSealed_clear here (i := close - u.position) (by omega) ?_
            rw [Nat.add_sub_cancel' before, receiver.closed]
          · exact .pure

instance : Steers bounds .all modifiers := by
  unfold modifiers
  infer_instance

section Patterns

instance : Steers bounds .all patternList := by
  unfold patternList
  infer_instance

instance : Steers bounds .all parenPattern := by
  unfold parenPattern
  infer_instance

instance : Steers bounds .all typedPattern := by
  unfold typedPattern
  infer_instance

theorem pattern_steers : Steers bounds .all pattern := by
  unfold pattern
  infer_instance

end Patterns

section Switch

instance : Steers bounds .all condition := by
  unfold condition
  infer_instance

private theorem smooth_anyExpression : Smooth bounds anyExpression s fun found _ => found.isSome = true :=
  .of_draws (routes.draws (.expression .assignment) trivial s) fun _ _ _ _ found => by
    obtain ⟨first, rfl, -⟩ := found
    rfl

instance : Steers bounds .all exprAndSemicolon where
  onCourse s := by
    unfold exprAndSemicolon
    refine .bind smooth_anyExpression (Steers.onCourse s) fun found t isSome => ?_
    rw [if_pos isSome]
    exact Steers.onCourse t

instance : Steers bounds .all exprStmt := by
  unfold exprStmt
  infer_instance

instance {pattern : Completed} : Steers bounds .all (guardedPattern pattern) := by
  unfold guardedPattern
  infer_instance

instance : Steers bounds .all caseItem := by
  have item : Steers bounds .all (do
      match ← call .pattern with
      | some pattern => guardedPattern pattern
      | none => return () : Rule Unit) := .andThen fun found => by split <;> infer_instance
  unfold caseItem
  infer_instance

instance : Steers bounds .all optionalGuard := by
  unfold optionalGuard
  infer_instance

instance : Steers bounds .all caseItems := by
  unfold caseItems
  infer_instance

omit routes in
theorem terminator_steers {form : Option Kind} : Steers bounds .all (terminator form) where
  onCourse s := by
    unfold terminator
    refine .look fun t still => ?_
    split
    · next found =>
      refine .look fun u still' => ?_
      rw [still.cursor_eq]
      have taken : Taken .all (s.cursor bounds.env).current := by
        constructor
        rcases (Bool.or_eq_true _ _).mp found with here | here
        all_goals rw [beq_iff_eq.mp here]
      dsimp only
      split <;> exact Steers.onCourse u
    · exact .fails

instance : Steers bounds .all labelHead := by
  unfold labelHead
  infer_instance

instance {form : Option Kind} : Steers bounds .all (switchLabel form) := by
  unfold switchLabel
  infer_instance

instance : Steers bounds .all seesLabel := by
  unfold seesLabel
  infer_instance

instance : Steers bounds .all ruleBody := by
  unfold ruleBody
  refine .andThen fun kind => ?_
  split <;> infer_instance

instance : Steers bounds .all groupStatements := by
  unfold groupStatements
  infer_instance

instance {form : Option Kind} : Steers bounds .all (moreLabels form) := by
  unfold moreLabels
  infer_instance

instance {form : Option Kind} : Steers bounds .all (switchEntry form) := by
  unfold switchEntry
  infer_instance

instance {form : Option Kind} : Steers bounds .all (entryOrError form) := by
  unfold entryOrError
  infer_instance

instance {form : Option Kind} : Steers bounds .all (nextEntry form) := by
  unfold nextEntry
  infer_instance

instance : Steers bounds .all switchBlock := by
  unfold switchBlock
  infer_instance

instance : Steers bounds .all switchExpr := by
  unfold switchExpr
  infer_instance

end Switch

end Calls

end LosslessJava.Grammar
