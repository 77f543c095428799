import LosslessJava.Proofs.Deeper.Types
import LosslessJava.Proofs.Rewinding

/-! What was tried as the receiver of a method reference, and was one. Where a name with a `<` behind it was read as a
type with `::` behind it, there is the name of a receiver, with its type arguments. -/

namespace LosslessJava.Grammar

open LosslessJava.Parser

variable {bounds : Bounds} {α : Type} {s : State} {name : Nat}

def Receives (stream : TokenStream) (name position : Nat) : Prop :=
  ∃ close, stream.kindAt name = .identifier ∧ Listing stream (name + 1) (close + 1) ∧
    (stream.kindAt (close + 1) = .dot ∨ stream.kindAt (close + 1) = .leftBracket ∨ position = close + 1)

private theorem Receives.receiver {stream : TokenStream} {position : Nat} (receives : Receives stream name position)
    (colons : stream.kindAt position = .colonColon) : ∃ close, stream.Receiver name close := by
  obtain ⟨close, named, ⟨_, order, same, opened, closed, angled⟩, behind⟩ := receives
  obtain rfl := Nat.succ.inj same
  refine ⟨close, named, opened, order, angled, closed, ?_⟩
  rcases behind with dot | bracket | rfl
  · exact .inl dot
  · exact .inr (.inl bracket)
  · exact .inr (.inr colons)

theorem current_eq {env : Env} {s : State} : s.current env = env.stream.kindAt s.position := TokenCursor.nth_eq _ 0

class Idle (bounds : Bounds) (rule : Rule α) : Prop where
  still : ∀ s, Smooth bounds rule s fun _ t => t.position = s.position

section Positions

variable {β : Type} {rule : Rule α} {first : Rule β} {next : β → Rule α} {post : Nat → Prop} {kind : Kind}

instance (priority := low) [Peeks bounds rule] : Idle bounds rule := ⟨fun _ => Smooth.peek.weaken fun _ _ still => still.position⟩

instance {mark : Mark} : Idle bounds (mark.complete kind) where
  still _ _ _ gives _ _ := by
    obtain ⟨u, completed, same⟩ := map_eq_ok.mp gives.act
    cases same
    exact (State.complete_same completed).position

instance {mark : Mark} : Idle bounds mark.release where
  still _ _ _ gives _ _ := (State.release_same (Result.of_done gives.act)).position

instance : Idle bounds start where
  still _ _ _ gives _ _ := by
    cases gives.act
    rfl

instance {first : Completed} : Idle bounds first.precede where
  still _ _ _ gives _ _ := by
    obtain ⟨u, preceded, same⟩ := map_eq_ok.mp gives.act
    cases same
    exact (State.precede_same preceded).position

theorem Smooth.idleThen [idle : Idle bounds first] (two : ∀ b t, t.position = s.position → Smooth bounds (next b) t fun _ u => post u.position) :
    Smooth bounds (first >>= next) s fun _ u => post u.position := (idle.still s).bind two

theorem Smooth.thenIdle [idle : ∀ b, Idle bounds (next b)] (one : Smooth bounds first s fun _ t => post t.position) :
    Smooth bounds (first >>= next) s fun _ u => post u.position :=
  one.bind fun b t holds => ((idle b).still t).weaken fun _ _ same => same ▸ holds

instance Idle.bind [one : Idle bounds first] [two : ∀ b, Idle bounds (next b)] : Idle bounds (first >>= next) where
  still s := (one.still s).bind fun b t same => ((two b).still t).weaken fun _ _ same' => same'.trans same

theorem Smooth.nodeOf {rule : Rule Kind} (inner : ∀ t, t.position = s.position → Smooth bounds rule t fun _ u => post u.position) :
    Smooth bounds (Parser.nodeOf rule) s fun _ u => post u.position := by
  unfold Parser.nodeOf
  exact .idleThen fun mark t same => .thenIdle (inner t same)

theorem Smooth.node {rule : Rule Unit} (inner : ∀ t, t.position = s.position → Smooth bounds rule t fun _ u => post u.position) :
    Smooth bounds (Parser.node kind rule) s fun _ u => post u.position :=
  .nodeOf fun t same => .thenIdle (inner t same)

theorem Smooth.nodeIf {rule : Rule (Option Kind)}
    (inner : ∀ t, t.position = s.position → Smooth bounds rule t fun _ u => post u.position) :
    Smooth bounds (Parser.nodeIf rule) s fun _ u => post u.position := by
  unfold Parser.nodeIf
  refine .idleThen fun mark t same => @Smooth.thenIdle _ _ _ _ _ _ _ (fun found => ?_) (inner t same)
  cases found <;> infer_instance

theorem Smooth.discard (inner : Smooth bounds rule s fun _ t => post t.position) :
    Smooth bounds (Functor.discard rule) s fun _ t => post t.position :=
  show Smooth bounds (rule >>= fun _ => Pure.pure ()) s _ from .thenIdle inner

theorem Smooth.unroll {a : α} {step : α → Rule (Option α)} {post : State → Prop}
    (round : Smooth bounds (step a) s fun next t => (next = none → post t) ∧
      ∀ c, next = some c → Smooth bounds (Parser.loopFrom c step) t fun _ u => post u) :
    Smooth bounds (Parser.loopFrom a step) s fun _ t => post t := fun b u gives ready clean => by
  rcases gives.loopFrom with ⟨last, rfl⟩ | ⟨c, t, ran, rest⟩
  · exact (round _ _ last ready clean).1 rfl
  · have early := ran.le_errorCount
    have later := rest.le_errorCount
    exact (round _ _ ran ready (by omega)).2 c rfl b u rest (ran.ready ready (by omega)) (by omega)

end Positions

section Types

private theorem smooth_annotations (away : s.current bounds.env ≠ .atSign) :
    Smooth bounds annotations s fun _ t => t.position = s.position := by
  have none : Smooth bounds seesAnnotation s fun found t => found = false ∧ t.position = s.position := by
    unfold seesAnnotation
    refine Smooth.look.bind fun found t ⟨still, seen⟩ => ?_
    subst seen
    rw [if_neg (by rwa [beq_iff_eq])]
    exact .pure ⟨rfl, still.position⟩
  have round : Smooth bounds (do
      if ← seesAnnotation then
        annotation
        return true
      else
        return false : Rule Bool) s fun goes t => goes = false ∧ t.position = s.position := by
    refine none.bind fun found t ⟨missing, still⟩ => ?_
    subst missing
    exact .pure ⟨rfl, still⟩
  unfold annotations loopAny stepTo
  refine .unroll (round.bind fun goes t ⟨stops, still⟩ => ?_)
  subst stops
  exact .pure ⟨fun _ => still, by simp⟩

private theorem smooth_arraySuffix {type : Completed} : Smooth bounds (arraySuffix type) s fun _ t =>
    t.position = s.position ∨ bounds.env.stream.kindAt s.position = .leftBracket := by
  have sees : Smooth bounds seesDims s fun found t => t.position = s.position ∧
      (found = true → bounds.env.stream.kindAt s.position = .leftBracket) := by
    unfold seesDims
    refine Smooth.look.weaken fun found t ⟨still, seen⟩ => ⟨still.position, ?_⟩
    rintro rfl
    simp only [Bool.true_eq, Bool.and_eq_true, beq_iff_eq] at seen
    rw [← current_eq]
    exact seen.1
  unfold arraySuffix
  refine .unroll (sees.bind fun found t ⟨still, opened⟩ => ?_)
  cases found with
  | true => exact .always fun _ _ => ⟨fun _ => .inr (opened rfl), fun _ _ => .always fun _ _ => .inr (opened rfl)⟩
  | false => exact .pure ⟨fun _ => .inl still, by simp⟩

end Types

section Receivers

variable [typeArg : Steers bounds .spans (call .typeArg)]

private theorem smooth_typeArgs : Smooth bounds typeArgs s fun _ t => Listing bounds.env.stream s.position t.position := by
  unfold typeArgs
  refine .discard (.node fun t same => ?_)
  rw [← same]
  refine .idleThen fun closed u same => ?_
  rw [← same]
  split
  · exact smooth_emptyListing
  · exact smooth_listing

private theorem smooth_classTypeSegment (opened : s.current bounds.env = .lt) : Smooth bounds classTypeSegment s fun goes t =>
    ∃ close, Listing bounds.env.stream s.position (close + 1) ∧
      (bounds.env.stream.kindAt (close + 1) = .dot ∨ goes = false ∧ t.position = close + 1) := by
  have arguments : Smooth bounds (whenSees .lt typeArgs) s fun _ t => Listing bounds.env.stream s.position t.position := by
    unfold whenSees
    refine Smooth.look.bind fun found t ⟨still, seen⟩ => ?_
    subst seen
    rw [if_pos (by rw [← State.current, opened]; rfl), ← still.position]
    exact smooth_typeArgs
  unfold classTypeSegment
  refine arguments.bind fun _ t listing => Smooth.peek.bind fun next u still => Smooth.peek.bind fun _ v still' =>
    Smooth.look.bind fun found w ⟨still'', seen⟩ => ?_
  obtain ⟨close, there⟩ : ∃ close, t.position = close + 1 := by
    obtain ⟨close, -, there, -⟩ := listing
    exact ⟨close, there⟩
  rw [there] at listing
  have here : v.position = close + 1 := by rw [still'.position, still.position, there]
  split
  · next found =>
    subst seen
    simp only [Bool.and_eq_true, beq_iff_eq] at found
    refine .always fun _ _ => ⟨close, listing, .inl ?_⟩
    rw [← here, ← current_eq]
    exact found.1
  · exact .pure ⟨close, listing, .inr ⟨rfl, still''.position.trans here⟩⟩

private theorem smooth_classTypeSegments (named : s.current bounds.env = .identifier)
    (opened : bounds.env.stream.kindAt (s.position + 1) = .lt) :
    Smooth bounds classTypeSegments s fun _ t => Receives bounds.env.stream s.position t.position := by
  rw [current_eq] at named
  unfold classTypeSegments
  refine (smooth_consume rfl (by decide)).bind fun _ t ⟨_, next⟩ => ?_
  refine .unroll (.bind (smooth_classTypeSegment (by rw [current_eq, next, opened])) fun goes u ⟨close, listing, behind⟩ => ?_)
  rw [next] at listing
  cases goes with
  | true =>
    have dot := behind.resolve_right (by simp)
    exact .pure ⟨by simp, fun _ _ => .always fun _ _ => ⟨close, named, listing, .inl dot⟩⟩
  | false =>
    refine .pure ⟨fun _ => ⟨close, named, listing, ?_⟩, by simp⟩
    rcases behind with dot | ⟨-, there⟩
    · exact .inl dot
    · exact .inr (.inr there)

private theorem smooth_elementType (named : s.current bounds.env = .identifier)
    (opened : bounds.env.stream.kindAt (s.position + 1) = .lt) :
    Smooth bounds elementType s fun _ t => Receives bounds.env.stream s.position t.position := by
  have here {t : State} (same : t.position = s.position) : t.current bounds.env = .identifier := by
    rw [current_eq, same, ← current_eq, named]
  unfold elementType
  refine .thenIdle (.nodeIf fun t still => ?_)
  have away : t.current bounds.env ≠ .atSign := by simp [here still]
  refine (smooth_annotations away).bind fun _ u still' => ?_
  have still := still'.trans still
  refine Smooth.look.bind fun primitive v ⟨still', seen⟩ => ?_
  have still := still'.position.trans still
  subst seen
  rw [if_neg (by rw [← State.current, current_eq, ← still'.position, ← current_eq, here still]; decide +kernel)]
  refine Smooth.look.bind fun found w ⟨still', seen⟩ => ?_
  have still'' := still'.position.trans still
  subst seen
  rw [if_pos (by rw [← State.current, here still]; rfl)]
  refine .thenIdle ?_
  rw [← still'']
  exact smooth_classTypeSegments (here still'') (by rw [still'', opened])

private theorem smooth_type (named : s.current bounds.env = .identifier)
    (opened : bounds.env.stream.kindAt (s.position + 1) = .lt) :
    Smooth bounds type s fun _ t => Receives bounds.env.stream s.position t.position := by
  unfold type
  refine .nested ((smooth_elementType (s := s.enter) named opened).bind fun found t receives => ?_)
  cases found with
  | none => exact .pure receives
  | some type =>
    refine .thenIdle (smooth_arraySuffix.weaken fun _ u goes => ?_)
    obtain ⟨close, named, listing, behind⟩ := receives
    refine ⟨close, named, listing, ?_⟩
    rcases behind with dot | bracket | there
    · exact .inl dot
    · exact .inr (.inl bracket)
    · rcases goes with still | bracket
      · exact .inr (.inr (still.trans there))
      · exact .inr (.inl (there ▸ bracket))

end Receivers

/-- What was tried as the receiver of a method reference and kept is one. -/
theorem receiver_of_kept {t : State} {type : Completed} (ready : s.Ready bounds.env) (named : s.current bounds.env = .identifier)
    (opened : bounds.env.stream.kindAt (s.position + 1) = .lt) (gives : bounds.Gives genericReceiver? s (some type) t) :
    ∃ close, bounds.env.stream.Receiver s.position close := by
  have read : Smooth bounds (call .type) s fun _ t => Receives bounds.env.stream s.position t.position := .call fun depth =>
    have arguments := (calls_span bounds.env depth).2
    smooth_type named opened
  have tried : Smooth bounds receiverTrial s fun found _ =>
      found.isSome → ∃ close, bounds.env.stream.Receiver s.position close := by
    unfold receiverTrial
    refine read.bind fun found t receives => ?_
    cases found with
    | none => exact .pure (by simp)
    | some type =>
      refine Smooth.look.bind fun colons u looked => .pure fun kept => receives.receiver ?_
      have seen := looked.2
      rw [← current_eq]
      by_contra other
      obtain rfl : colons = false := by simpa [seen, State.current] using other
      cases kept
  obtain ⟨found, u, ran, settled⟩ := gives.speculate
  unfold Program.settle at settled
  split at settled
  · next keeps => exact tried found u ran ready keeps.2 keeps.1
  · cases settled

end LosslessJava.Grammar
