import LosslessJava.Proofs.RoundBrackets
import LosslessJava.Proofs.BalancedRules

/-! What the rules that have a name record where they report nothing; and names, annotations and
modifiers. -/

namespace LosslessJava.Grammar

open LosslessJava.Parser LosslessJava.Shape

def Found (s : State) (sort : Kind → Bool) (found : Option Completed) (row : List Shape) (t : State) : Prop :=
  ∃ first, found = some first ∧ s.Roots first row t ∧ sort first.kind = true

def One (sort : Kind → Bool) (row : List Shape) : Prop := ∃ kind, outline row = [kind] ∧ sort kind = true

def Nonterminal.Drawn : {α : Type} → Nonterminal α → State → α → List Shape → State → Prop
  | _, .type, s, found, row, t => Found s Kind.isType found row t
  | _, .pattern, s, found, row, t => Found s Kind.isPattern found row t
  | _, .expression _, s, found, row, t | _, .unary, s, found, row, t => Found s Kind.isExpr found row t
  | _, .parenOperand, s, found, row, t | _, .simpleName, s, found, row, t => Found s Kind.isExpr found row t
  | _, .typeArg, _, found, row, _ => found = true ∧ One Kind.isElement row
  | _, .statement, _, _, row, _ => One Kind.isStatement row
  | _, .block, _, _, row, _ => outline row = [.block]
  | _, _, _, _, row, _ => Kind.Orderly (outline row)

def Nonterminal.Fit : {α : Type} → Nonterminal α → Prop
  | _, .classBody kind => kind.isPlain = true
  | _, .clauses forms => ∀ form ∈ forms, form.1.isPlain = true ∧ form.2.isPlain = true
  | _, .lambdaParamList => False
  | _, _ => True

def Scanned (env : Env) (s : State) : Prop :=
  ∃ stop, Lookahead.Accepts ⟨s.cursor env, env.options.lookaheadLimit⟩ (Lookahead.lambdaParams 1) stop

/-- Rules that have a name record what they promise. -/
class Calls (bounds : Bounds) : Prop where
  draws : ∀ {α : Type} (name : Nonterminal α), name.Fit → ∀ s, Draws bounds (call name) s (name.Drawn s)
  lambda : ∀ s, Scanned bounds.env s →
    Draws bounds (call .lambdaParamList) s fun _ row _ => outline row = [.lambdaParamList]

set_option synthInstance.maxSize 2000

variable {bounds : Bounds}

theorem Found.one {s t : State} {sort : Kind → Bool} {found : Option Completed} {row : List Shape}
    (holds : Found s sort found row t) : One sort row := by
  obtain ⟨first, -, roots, sorted⟩ := holds
  exact ⟨first.kind, roots.outline, sorted⟩

theorem Found.nested {s t : State} {sort : Kind → Bool} {found : Option Completed} {row : List Shape}
    (holds : Found s sort found row t) (node : ∀ kind, sort kind = true → kind.isElement = true) :
    Kind.Orderly (outline row) := by
  obtain ⟨first, -, roots, sorted⟩ := holds
  exact orderly_of_roots roots (Kind.isLoose_of_isElement (node _ sorted))

theorem Found.of_still {s t u : State} {sort : Kind → Bool} {found : Option Completed} {row : List Shape}
    (holds : Found t sort found row u) (still : s.Still t) : Found s sort found row u := by
  obtain ⟨first, same, roots, sorted⟩ := holds
  exact ⟨first, same, roots.of_still still, sorted⟩

variable [calls : Calls bounds]

theorem call_tame {α : Type} {name : Nonterminal α} (fit : name.Fit)
    (nested : ∀ s a row t, name.Drawn s a row t → Kind.Orderly (outline row)) : Tame bounds (call name) where
  draws s := (calls.draws name fit s).weaken fun a row t _ holds => ⟨nested s a row t holds, trivial⟩

instance : Tame bounds (call .type) := call_tame trivial fun _ _ _ _ found => found.nested fun _ => Kind.isElement_of_isType

instance : Tame bounds (call .pattern) :=
  call_tame trivial fun _ _ _ _ found => found.nested fun _ => Kind.isElement_of_isPattern

instance {least : Power} : Tame bounds (call (.expression least)) :=
  call_tame trivial fun _ _ _ _ found => found.nested fun _ => Kind.isElement_of_isExpr

instance : Tame bounds (call .elementValue) := call_tame trivial fun _ _ _ _ nested => nested

instance : Tame bounds (call .arrayInitializer) := call_tame trivial fun _ _ _ _ nested => nested

instance {form : Option Kind} : Tame bounds (call (.terminator form)) := call_tame trivial fun _ _ _ _ nested => nested

instance : Tame bounds (call .block) := call_tame trivial fun _ _ row _ (same : outline row = [.block]) => by
  rw [same]
  exact .plain rfl

instance : Tame bounds (call .statement) := call_tame trivial fun _ _ row _ ⟨kind, same, statement⟩ => by
  rw [same]
  exact .plain (Kind.isLoose_of_isElement (Kind.isElement_of_isStatement statement))

instance {kind : Kind} [plain : Plain kind] : Tame bounds (call (.classBody kind)) :=
  call_tame plain.holds fun _ _ _ _ nested => nested

instance : Tame bounds qualifiedName := by
  unfold qualifiedName
  infer_instance

instance : Peeks bounds seesAnnotation := by
  unfold seesAnnotation
  infer_instance

instance : Tame bounds elementValuePair := by
  unfold elementValuePair
  infer_instance

instance : Tame bounds annotationArgs := by
  unfold annotationArgs
  infer_instance

instance : Tame bounds annotation := by
  unfold annotation
  infer_instance

instance : Tame bounds annotations := by
  unfold annotations
  infer_instance

theorem elementValue_tame : Tame bounds elementValue := by
  unfold elementValue
  infer_instance

private theorem plain_of_modifier {kind : Kind} (among : First.modifier.contains kind = true) :
    kind.isPlain = true ∧ kind ≠ .eof := by
  cases kind <;> first | exact ⟨rfl, by decide⟩ | exact absurd among (by decide +kernel)

private theorem nth_of_isNonSealed {cursor : TokenCursor} (here : isNonSealed cursor = true) :
    ∀ n < 3, (cursor.nth n).isBracket = false := by
  simp only [isNonSealed, isWordAt, Bool.and_eq_true, beq_iff_eq, TokenCursor.current] at here
  obtain ⟨⟨⟨⟨⟨first, -⟩, second⟩, third, -⟩, -⟩, -⟩ := here
  intro n less
  obtain rfl | rfl | rfl : n = 0 ∨ n = 1 ∨ n = 2 := by omega
  · rw [first]; rfl
  · rw [second]; rfl
  · rw [third]; rfl

private theorem modifier_draws {s : State} :
    Draws bounds modifier s fun found row _ => Kind.Orderly (outline row) ∧ (found = false → row = []) := by
  have taken {rule : Rule Unit} {s : State} (draws : Draws bounds rule s fun _ row _ => Kind.Orderly (outline row)) :
      Draws bounds (do rule; return true) s fun found row _ => Kind.Orderly (outline row) ∧ (found = false → row = []) :=
    .bind draws fun _ row _ _ orderly => .pure ⟨by simpa using orderly, nofun⟩
  unfold modifier
  refine .peek fun found t _ => ?_
  split
  · have tame : Tame bounds annotation := inferInstance
    exact taken ((tame.draws t).weaken fun _ _ _ _ holds => holds.1)
  · refine .look fun u still => ?_
    dsimp only [id]
    split
    · next among =>
      obtain ⟨plain, more⟩ := plain_of_modifier among
      have same := @State.Still.current_eq bounds.env _ _ still
      exact taken ((draws_consumePlain (same ▸ plain) (same ▸ more)).weaken fun _ _ _ _ holds => holds.1)
    · split
      · have tame : Tame bounds (consumeAs .sealedKw) := inferInstance
        exact taken ((tame.draws u).weaken fun _ _ _ _ holds => holds.1)
      · split
        · next here =>
          have cursor := @State.Still.cursor_eq bounds.env _ _ still
          refine taken ((draws_join rfl (cursor ▸ nth_of_isNonSealed here)).weaken fun _ row _ _ same => ?_)
          subst same
          exact .plain rfl
        · exact .pure ⟨.nil, fun _ => rfl⟩

theorem modifiers_draws {s : State} : Draws bounds modifiers s fun _ row _ => outline row = [] ∨ outline row = [.modifierList] := by
  unfold modifiers
  have all (t : State) : Draws bounds (loopAny modifier) t fun found row _ =>
      Kind.Orderly (outline row) ∧ (found = false → row = []) := by
    unfold loopAny
    refine .loopFrom (fun found row _ => Kind.Orderly (outline row) ∧ (found = false → row = [])) ⟨.nil, fun _ => rfl⟩
      fun found front u _ ⟨nested, idle⟩ => ?_
    unfold stepTo
    refine .bind modifier_draws fun more row v _ ⟨nested', idle'⟩ => ?_
    have whole : Kind.Orderly (outline (front ++ row)) := by
      rw [outline_append]
      exact nested.append nested'
    cases more with
    | true => exact .pure ⟨by simpa using whole, nofun⟩
    | false => exact .pure ⟨by simpa using whole, fun missing => by simp [idle missing, idle' rfl]⟩
  refine .bind (draws_nodeIf (P := (· = .modifierList)) (Q := (· = [])) (.bind (all _) fun found row t _ ⟨nested, idle⟩ => ?_))
    fun found row t _ holds => .pure ?_
  · cases found with
    | true => exact .pure ⟨Kind.holds_of_isPlain rfl (by simpa using nested), rfl⟩
    | false => exact .pure (by simpa using idle rfl)
  · rw [List.append_nil]
    cases found with
    | some first => exact .inr (holds.1.outline.trans (by rw [holds.2]))
    | none => exact .inl (by rw [holds]; rfl)

instance : Tame bounds modifiers where
  draws _ := modifiers_draws.weaken fun _ _ _ _ same => by
    rcases same with same | same <;> rw [same]
    · exact ⟨.nil, trivial⟩
    · exact ⟨.plain rfl, trivial⟩

end LosslessJava.Grammar
