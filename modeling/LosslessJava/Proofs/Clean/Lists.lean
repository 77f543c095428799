import LosslessJava.Proofs.Clean.Modifiers

/-! Lists between brackets, where nothing is reported. A round of the loop for such a list leaves it with a comma
behind its last element, or is the last one; what comes between the brackets are elements with commas between them,
and perhaps one more comma. -/

namespace LosslessJava

namespace Kind

variable {kind opener closer : Kind} {row : List Kind} {trailing : Bool}

/-- Nodes of some sort with commas between them. -/
inductive SeparatedBy (sort : Kind → Bool) : List Kind → Prop
  | one {kind : Kind} (sorted : sort kind = true) : SeparatedBy sort [kind]
  | more {kind : Kind} {row : List Kind} (sorted : sort kind = true) (rest : SeparatedBy sort row) :
      SeparatedBy sort (kind :: .comma :: row)

namespace SeparatedBy

variable {sort : Kind → Bool}

private theorem snoc (before : SeparatedBy sort row) (sorted : sort kind = true) : SeparatedBy sort (row ++ [.comma, kind]) := by
  induction before with
  | one first => exact .more first (.one sorted)
  | more first _ ih => exact .more first ih

theorem separated (sorted : SeparatedBy sort row) (node : ∀ kind, sort kind = true → kind.isNode = true) : Separated row := by
  induction sorted with
  | one first => exact .one (node _ first)
  | more first _ ih => exact .more (node _ first) ih

private theorem parts (sorted : SeparatedBy sort row) : ∀ part ∈ row, part = .comma ∨ sort part = true := by
  induction sorted with
  | one first => exact List.forall_mem_singleton.mpr (.inr first)
  | more first _ ih => exact List.forall_mem_cons.mpr ⟨.inr first, List.forall_mem_cons.mpr ⟨.inl rfl, ih⟩⟩

end SeparatedBy

theorem Separated.nested (separated : Separated row) : WellNested row := by
  induction separated with
  | one node => exact .plain (isBracket_of_isNode node)
  | more node _ ih => exact .cons (isBracket_of_isNode node) (.cons rfl ih)

theorem Listed.inside (listed : Listed opener closer trailing row) :
    ∃ inner, row = opener :: (inner ++ [closer]) ∧ WellNested inner := by
  obtain ⟨inner, same, rfl | separated | ⟨-, front, separated, rfl⟩⟩ := listed
  · exact ⟨[], same, .nil⟩
  · exact ⟨inner, same, separated.nested⟩
  · exact ⟨_, same, separated.nested.append (.plain rfl)⟩

theorem Listed.between (listed : Listed opener closer trailing row) (closes : Parser.Lookahead.closing? opener = some closer) :
    WellNested row := by
  obtain ⟨inner, rfl, nested⟩ := listed.inside
  exact .between closes nested

theorem Listed.angles (listed : Listed .lt .gt trailing row) : WellNested row := by
  obtain ⟨inner, rfl, nested⟩ := listed.inside
  exact .cons rfl (nested.append (.plain rfl))

end Kind

namespace Grammar

open LosslessJava.Parser LosslessJava.Shape

variable {bounds : Bounds} {s : State} {opener closer kind : Kind}

class ListKind (opener closer : outParam Kind) (kind : Kind) : Prop where
  holds : ∀ {row}, Kind.Listed opener closer true row → Kind.Apart row → kind.Holds row
  loose : kind.isLoose = true

instance : ListKind .leftParen .rightParen .argList :=
  ⟨fun listed apart => ⟨by decide, by decide, rfl, listed, listed.between rfl, fun _ => apart⟩, rfl⟩

instance : ListKind .leftParen .rightParen .paramList :=
  ⟨fun listed apart => ⟨by decide, by decide, rfl, listed, listed.between rfl, fun _ => apart⟩, rfl⟩

instance : ListKind .leftParen .rightParen .recordHeader :=
  ⟨fun listed apart => ⟨by decide, by decide, rfl, listed, listed.between rfl, fun _ => apart⟩, rfl⟩

instance : ListKind .leftParen .rightParen .patternList :=
  ⟨fun listed apart => ⟨by decide, by decide, rfl, listed, listed.between rfl, fun _ => apart⟩, rfl⟩

instance : ListKind .lt .gt .typeParamList :=
  ⟨fun listed apart => ⟨by decide, by decide, rfl, listed, listed.angles, fun _ => apart⟩, rfl⟩

instance : ListKind .lt .gt .typeArgList :=
  ⟨fun listed apart => ⟨by decide, by decide, rfl, listed, listed.angles, fun _ => apart⟩, rfl⟩

class Supplies (bounds : Bounds) (sort : outParam (Kind → Bool)) (element : Rule Bool) : Prop where
  draws : ∀ s, Draws bounds element s fun found row _ => found = true ∧ One sort row

class DrawsList (bounds : Bounds) (opener closer : outParam Kind) (rule : Rule Unit) : Prop where
  draws : ∀ s, Draws bounds rule s fun _ row _ => Kind.Listed opener closer true (outline row) ∧ Kind.Apart (outline row)

section Tokens

def Passes (bounds : Bounds) (kind : Kind) (s t : State) : Prop :=
  bounds.env.stream.kindAt s.position = kind ∧ t.position = s.position + 1

theorem draws_consume_passes (known : kind ≠ .unknown) (more : kind ≠ .eof) :
    Draws bounds (consume kind) s fun _ row t => row = [.token kind 1] ∧ Passes bounds kind s t := fun a t gives ready _ => by
  have run := Result.of_done gives.act
  unfold State.consume at run
  split at run
  · next here =>
    cases run
    have adds := State.Adds.one ready (here ▸ known)
    rw [here] at adds
    refine ⟨_, adds, rfl, ?_, State.position_pushToken (here ▸ more) _⟩
    rw [← here, State.current, TokenCursor.current, TokenCursor.nth_eq, Nat.add_zero]
    rfl
  · cases run

private theorem draws_accept_passes (known : kind ≠ .unknown) (more : kind ≠ .eof) :
    Draws bounds (accept kind) s fun found row t =>
      found = true ∧ row = [.token kind 1] ∧ Passes bounds kind s t ∨ found = false ∧ row = [] := by
  unfold accept
  refine .look fun t still => ?_
  split
  · refine .bind (draws_consume_passes known more) fun _ row u _ ⟨same, passes⟩ => .pure (.inl ⟨rfl, by simpa using same, ?_⟩)
    rwa [Passes, still.position] at passes
  · exact .pure (.inr ⟨rfl, rfl⟩)

theorem draws_require_passes (known : kind ≠ .unknown) (more : kind ≠ .eof) :
    Draws bounds (require kind) s fun _ row t => row = [.token kind 1] ∧ Passes bounds kind s t := by
  have expected : Draws bounds (expect kind) s fun _ row t => row = [.token kind 1] ∧ Passes bounds kind s t := by
    unfold expect
    refine .bind (draws_accept_passes known more) fun found front t _ took => ?_
    rcases took with ⟨rfl, took⟩ | ⟨rfl, -⟩
    · exact .pure (by simpa using took)
    · simp only [Bool.false_eq_true, if_false]
      exact .fails
  exact .discard expected

end Tokens

section Rounds

variable {what : String} {first : KindSet} {element : Rule Bool} {sort : Kind → Bool}

def Begun (bounds : Bounds) (sort : Kind → Bool) (row : List Kind) (place : Nat) : Prop :=
  row = [] ∨ ∃ front i, Kind.SeparatedBy sort front ∧ row = front ++ [.comma] ∧ place = i + 1 ∧
    bounds.env.stream.kindAt i = .comma

def Over (bounds : Bounds) (sort : Kind → Bool) (row : List Kind) (place : Nat) : Prop :=
  Begun bounds sort row place ∨ Kind.SeparatedBy sort row

private theorem Begun.then {row : List Kind} {place : Nat} (begun : Begun bounds sort row place) (sorted : sort kind = true) :
    Kind.SeparatedBy sort (row ++ [kind]) := by
  rcases begun with rfl | ⟨front, _, separated, rfl, -⟩
  · exact .one sorted
  · simpa using separated.snoc sorted

theorem Over.parts {row : List Kind} {place : Nat} (elements : Over bounds sort row place) :
    ∀ part ∈ row, part = .comma ∨ sort part = true := by
  rcases elements with (rfl | ⟨front, _, separated, rfl, -⟩) | separated
  · exact nofun
  · exact List.forall_mem_append.mpr ⟨separated.parts, List.forall_mem_singleton.mpr (.inl rfl)⟩
  · exact separated.parts

variable [supplies : Supplies bounds sort element]

private theorem draws_delimitedRound {front : List Shape} (begun : Begun bounds sort (outline front) s.position) :
    Draws bounds (delimitedRound closer .comma what first element) s fun goes row t =>
      if goes then Begun bounds sort (outline (front ++ row)) t.position
      else Over bounds sort (outline (front ++ row)) t.position := by
  unfold delimitedRound
  refine .look fun t still => ?_
  rw [← still.position] at begun
  split
  · exact .pure (by simpa using .inl begun)
  · refine .look fun u still' => ?_
    rw [← still'.position] at begun
    split
    · exact .fails
    · refine .bind (supplies.draws u) fun found one v _ given => ?_
      obtain ⟨rfl, kind, same, sorted⟩ := given
      have separated : Kind.SeparatedBy sort (outline (front ++ one)) := by
        rw [outline_append, same]
        exact begun.then sorted
      have again {w x : State} {back : List Shape} (comma : back = [.token .comma 1]) (passes : Passes bounds .comma w x) :
          Begun bounds sort (outline (front ++ (one ++ back))) x.position := by
        subst comma
        exact .inr ⟨_, _, separated, by simp, passes.2, passes.1⟩
      refine .bind (draws_accept_passes (by decide) (by decide)) fun found two w _ took => ?_
      rcases took with ⟨rfl, comma, passes⟩ | ⟨rfl, rfl⟩
      · exact .pure (by simpa using again comma passes)
      · refine .look fun x still'' => ?_
        split
        · refine .bind (draws_require_passes (by decide) (by decide)) fun _ three y _ ⟨comma, passes⟩ => .pure ?_
          simpa using again comma passes
        · exact .pure (by simpa using show Over bounds sort (outline (front ++ one)) x.position from .inr separated)

/-- The elements of a list between its brackets, and where the last token stands in front of the closing one. -/
theorem draws_delimited (opens : known opener = true ∧ opener ≠ .eof) (closes : known closer = true ∧ closer ≠ .eof) :
    Draws bounds (delimited opener closer .comma what first element) s fun _ row t =>
      ∃ inner place, row = .token opener 1 :: (inner ++ [.token closer 1]) ∧ Over bounds sort (outline inner) place ∧
        bounds.env.stream.kindAt s.position = opener ∧ s.position < place ∧ t.position = place + 1 ∧
        bounds.env.stream.kindAt place = closer := by
  unfold delimited
  refine .bind (draws_consume_passes (ne_unknown_of_known opens.1) opens.2) fun _ front t _ ⟨opened, here, moved⟩ => ?_
  have all : Draws bounds (loop (delimitedRound closer .comma what first element)) t fun _ row u =>
      Over bounds sort (outline row) u.position ∧ t.position ≤ u.position := by
    have rounds : Draws bounds (loop (delimitedRound closer .comma what first element)) t fun _ row u =>
        Over bounds sort (outline row) u.position := by
      unfold loop
      refine Draws.loopFrom (fun _ row u => Begun bounds sort (outline row) u.position) (.inl rfl) fun _ front u _ begun => ?_
      unfold stepTo
      refine .bind (draws_delimitedRound begun) fun goes row v _ given => .pure ?_
      cases goes <;> simpa [Round] using given
    exact rounds.weaken fun _ _ _ adds ended => ⟨ended, adds.later⟩
  refine .bind all fun _ inner u _ ⟨elements, later⟩ => ?_
  refine (draws_require_passes (ne_unknown_of_known closes.1) closes.2).weaken fun _ back v _ ⟨closed, there, moved'⟩ => ?_
  subst opened closed
  exact ⟨inner, u.position, rfl, elements, here, by omega, moved', there⟩

omit supplies in
private theorem Over.listed {row : List Kind} {place : Nat} (elements : Over bounds sort row place)
    (node : ∀ kind, sort kind = true → kind.isNode = true) :
    Kind.Listed opener closer true (opener :: (row ++ [closer])) := by
  rcases elements with (rfl | ⟨front, _, separated, rfl, -⟩) | separated
  · exact ⟨[], rfl, .inl rfl⟩
  · exact ⟨_, rfl, .inr (.inr ⟨rfl, front, separated.separated node, rfl⟩)⟩
  · exact ⟨_, rfl, .inr (.inl (separated.separated node))⟩

@[reducible] def isListBracket : Kind → Bool
  | .leftParen | .rightParen | .lt | .gt => true
  | _ => false

private theorem isListBracket_cases (bracket : isListBracket kind = true) :
    (known kind = true ∧ kind ≠ .eof) ∧ kind.isLambdaPart = false := by
  cases kind <;> first | exact ⟨⟨rfl, by decide⟩, rfl⟩ | cases bracket

end Rounds

instance {what : String} {first : KindSet} {element : Rule Bool} [Supplies bounds Kind.isElement element]
    [opens : Evident (isListBracket opener)] [closes : Evident (isListBracket closer)] :
    DrawsList bounds opener closer (delimited opener closer .comma what first element) where
  draws s := (draws_delimited (isListBracket_cases opens.holds).1 (isListBracket_cases closes.holds).1).weaken fun _ row _ _ given => by
    obtain ⟨inner, _, rfl, elements, -⟩ := given
    have apart : Kind.Apart (outline inner) := fun part member => by
      rcases elements.parts part member with rfl | element
      · rfl
      · exact Kind.isLambdaPart_of_isLoose (Kind.isLoose_of_isElement element)
    refine ⟨by simpa using elements.listed fun _ => Kind.isNode_of_isElement, ?_⟩
    simp only [outline_token, outline_append, outline_nil]
    exact List.forall_mem_cons.mpr ⟨(isListBracket_cases opens.holds).2, List.forall_mem_append.mpr ⟨apart,
      List.forall_mem_singleton.mpr (isListBracket_cases closes.holds).2⟩⟩

section Nodes

variable {rule : Rule Unit}

instance {noLambda : Bool} [list : DrawsList bounds opener closer rule] :
    DrawsList bounds opener closer (withNoLambda noLambda rule) where
  draws _ := draws_withNoLambda ((list.draws _).weaken fun _ _ _ _ listed => listed)

instance [DrawsList bounds opener closer rule] : DrawsList bounds opener closer (bracketed rule) := by
  unfold bracketed
  infer_instance

/-- A node for a list. -/
instance [listKind : ListKind opener closer kind] [list : DrawsList bounds opener closer rule] :
    Tame bounds (Parser.node kind rule) where
  draws s := (draws_node ((list.draws s.start).weaken fun _ _ _ _ ⟨listed, apart⟩ => listKind.holds listed apart)).weaken
    fun _ _ _ _ ⟨roots, named⟩ => ⟨orderly_of_roots roots (by rw [named]; exact listKind.loose), trivial⟩

/-- An element is there if something was found. -/
theorem Supplies.isSome {sort : Kind → Bool} {rule : Rule (Option Completed)}
    (finds : ∀ s, Draws bounds rule s (Found s sort)) (element : ∀ kind, sort kind = true → kind.isElement = true) :
    Supplies bounds Kind.isElement (do return (← rule).isSome) where
  draws s := .bind (finds s) fun _ _ _ _ found => .pure <| by
    obtain ⟨first, rfl, roots, sorted⟩ := found
    exact ⟨rfl, first.kind, by simp [roots.outline], element _ sorted⟩

end Nodes

end Grammar

end LosslessJava
