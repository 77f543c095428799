import LosslessJava.Proofs.Clean.Types

/-! What conditions, expression statements and switches record where nothing is reported. -/

namespace LosslessJava.Grammar

open LosslessJava.Parser LosslessJava.Shape

set_option synthInstance.maxSize 2000

variable {bounds : Bounds} {s : State}

/-- The end of a label is a colon or an arrow. -/
theorem terminator_tame {form : Option Kind} : Tame bounds (terminator form) where
  draws s := by
    unfold terminator
    refine .look fun t still => ?_
    split
    · next ends =>
      refine .look fun u _ => ?_
      have plain : (t.cursor bounds.env).current.isPlain = true := by
        rw [still.cursor_eq]
        rcases (Bool.or_eq_true _ _).mp ends with here | here <;> rw [beq_iff_eq.mp here]
      have known : (t.cursor bounds.env).current ≠ .unknown := fun same => by simp [same] at plain
      dsimp only
      split
      · refine .bind (draws_consume known) fun _ row v _ ⟨same, _⟩ => .pure ?_
        subst same
        exact ⟨.plain (Kind.isLoose_of_isPlain plain), trivial⟩
      · exact .fails
    · exact TameWith.draws t

class PlainFirst {α : Type} (answer : Kind × α) : Prop where
  holds : answer.1.isPlain = true

instance {α : Type} {kind : Kind} {a : α} [plain : Plain kind] : PlainFirst (kind, a) := ⟨plain.holds⟩

instance {α : Type} {answer : Kind × α} [plain : PlainFirst answer] :
    TameWith bounds PlainFirst (Pure.pure answer) := ⟨fun _ => .pure ⟨.nil, plain⟩⟩

private theorem nodeWith_tame {α : Type} {rule : Rule (Kind × α)} (tame : TameWith bounds PlainFirst rule) :
    Tame bounds (nodeWith rule) where
  draws s := by
    have inner : Draws bounds rule s.start fun found row _ => found.1.Holds (outline row) ∧ found.1.isLoose = true := by
      apply (tame.draws s.start).weaken
      intro found row t adds result
      exact ⟨Kind.holds_of_isPlain result.2.holds result.1, Kind.isLoose_of_isPlain result.2.holds⟩
    apply (draws_nodeWith (P := (Kind.isLoose · = true)) inner).weaken
    intro a row t adds drawn
    obtain ⟨kind, children, rfl, loose⟩ := drawn
    exact ⟨.plain loose, trivial⟩

variable [calls : Calls bounds]

theorem anyExpression_draws : Draws bounds anyExpression s (Found s Kind.isExpr) := calls.draws (.expression .assignment) trivial s

instance : Tame bounds anyExpression := inferInstanceAs (Tame bounds (call _))

theorem parenthesized_draws {opening closing : Rule Unit} [opens : Takes bounds opening .leftParen]
    [closed : Takes bounds closing .rightParen] :
    Draws bounds (do opening; discard <| bracketed anyExpression; closing) s fun _ row _ =>
      ∃ inner, outline row = [.leftParen, inner, .rightParen] ∧ inner.isExpr = true := by
  have expr (t : State) : Draws bounds (bracketed anyExpression) t fun _ row _ => One Kind.isExpr row :=
    draws_withNoLambda (anyExpression_draws.weaken fun _ _ _ _ found => found.one)
  refine .bind (opens.draws s) fun _ front t _ ⟨first, _⟩ => .bind (expr t).discard
    fun _ middle u _ ⟨inner, same, sorted⟩ => (closed.draws u).weaken fun _ back v _ ⟨last, _⟩ => ?_
  subst first last
  exact ⟨inner, by simp [same], sorted⟩

theorem holds_parenthesized {kind : Kind} {row : List Kind} (bracket : kind = .parenExpr ∨ kind = .condition)
    (elements : ∃ inner, row = [.leftParen, inner, .rightParen] ∧ inner.isExpr = true) : kind.Holds row := by
  obtain ⟨inner, rfl, sorted⟩ := elements
  have nested : Kind.Orderly [.leftParen, inner, .rightParen] :=
    .between rfl (.plain (Kind.isLoose_of_isElement (Kind.isElement_of_isExpr sorted)))
  rcases bracket with rfl | rfl
  · exact .of_orderly (by decide) (by decide) rfl ⟨inner, rfl, sorted⟩ nested
  · exact .of_orderly (by decide) (by decide) rfl ⟨inner, rfl, sorted⟩ nested

theorem condition_draws : Draws bounds condition s fun _ row _ => outline row = [.condition] := by
  unfold condition
  have holds (t : State) := (@parenthesized_draws bounds t _ (require .leftParen) (require .rightParen) _ _).weaken
    fun _ _ _ _ elements => @holds_parenthesized .condition _ (.inr rfl) elements
  refine .discard ((draws_node (holds _)).weaken fun first row _ _ ⟨roots, same⟩ => ?_)
  rw [roots.outline, same]

instance : Tame bounds condition where
  draws _ := condition_draws.weaken fun _ _ _ _ same => by
    rw [same]
    exact ⟨.plain rfl, trivial⟩

/-- An expression is never missing, and a semicolon behind it is consumed. -/
theorem exprAndSemicolon_draws : Draws bounds exprAndSemicolon s fun _ row t =>
    Kind.Orderly (outline row) ∧ s.position < t.position := by
  unfold exprAndSemicolon
  refine .bind anyExpression_draws fun found front t adds holds => ?_
  have nested := holds.nested fun _ => Kind.isElement_of_isExpr
  obtain ⟨first, rfl, -⟩ := holds
  simp only [Option.isSome_some, if_true]
  apply draws_semicolon.weaken
  intro _ row u _ drawn
  obtain ⟨same, moved⟩ := drawn
  subst same
  rw [outline_append]
  exact ⟨nested.append (.plain rfl), Nat.lt_of_le_of_lt adds.later moved⟩

theorem exprStmt_draws : Draws bounds exprStmt s fun _ row _ => One Kind.isStatement row := by
  unfold exprStmt
  refine .discard ((draws_nodeIf_found Kind.isStatement (.look fun t still => .bind exprAndSemicolon_draws
    fun _ row u _ ⟨nested, moved⟩ => .look fun v _ => ?_)).weaken fun _ _ _ _ found => found.one)
  have away : (u.cursor bounds.env).position ≠ (s.start.cursor bounds.env).position := by
    have here := still.position
    simp only [State.cursor] at *
    omega
  rw [if_neg away]
  exact .pure ⟨_, rfl, Kind.holds_of_isPlain rfl (by simpa using nested), rfl⟩

instance : Tame bounds exprStmt where
  draws _ := exprStmt_draws.weaken fun _ row _ _ ⟨kind, same, statement⟩ => by
    rw [same]
    exact ⟨.plain (Kind.isLoose_of_isElement (Kind.isElement_of_isStatement statement)), trivial⟩

/-- One item of a label is one element, but for its comma. -/
instance : Tame bounds caseItem where
  draws s := by
    unfold caseItem
    refine .look fun t _ => ?_
    split
    · exact TameWith.draws t
    · refine .peek fun found u _ => ?_
      split
      · refine draws_foundThen (calls.draws .pattern trivial u) fun first row v adds roots sorted => ?_
        have nested {first : Completed} {row : List Shape} {v : State} (roots : u.Roots first row v)
            (sorted : first.kind.isPattern = true) : Kind.Orderly (outline row) ∧ Any () :=
          ⟨orderly_of_roots roots (Kind.isLoose_of_isElement (Kind.isElement_of_isPattern sorted)), trivial⟩
        unfold guardedPattern
        refine .look adds fun w still adds => ?_
        split
        · exact .bind (draws_around_sorted Kind.isPattern adds (roots.still still) (Kind.isElement_of_isPattern sorted)
            inferInstance) fun outer row x adds ⟨roots, sorted⟩ => .pure adds (nested roots sorted)
        · exact .pure adds (nested (roots.still still) sorted)
      · exact TameWith.draws u

instance : Tame bounds optionalGuard := by
  unfold optionalGuard
  infer_instance

instance : Tame bounds caseItems := by
  unfold caseItems
  infer_instance

instance : Tame bounds labelHead := by
  unfold labelHead
  infer_instance

instance {form : Option Kind} : Tame bounds (switchLabel form) := by
  unfold switchLabel
  exact nodeWith_tame inferInstance

instance : Peeks bounds seesLabel := by
  unfold seesLabel
  infer_instance

instance : Tame bounds ruleBody where
  draws s := by
    unfold ruleBody
    refine .look fun t _ => ?_
    split <;> exact TameWith.draws t

instance : Tame bounds groupStatements := by
  unfold groupStatements
  infer_instance

instance {form : Option Kind} : Tame bounds (moreLabels form) := by
  unfold moreLabels
  infer_instance

instance {form : Option Kind} : Tame bounds (switchEntry form) := by
  unfold switchEntry
  refine nodeWith_tame (.andThen fun (ending, form) => ?_)
  infer_instance

instance {form : Option Kind} : Tame bounds (entryOrError form) := by
  unfold entryOrError
  infer_instance

instance {form : Option Kind} : Tame bounds (nextEntry form) := by
  unfold nextEntry
  infer_instance

instance : Tame bounds switchBlock := by
  unfold switchBlock
  infer_instance

theorem switchExpr_draws : Draws bounds switchExpr s fun first row t =>
    s.Roots first row t ∧ first.kind.isExpr = true := by
  unfold switchExpr
  exact draws_node_sorted _

end LosslessJava.Grammar
