import LosslessJava.Proofs.Contracts
import LosslessJava.Proofs.ModeRefinement
import LosslessJava.Proofs.Precede
import LosslessJava.Proofs.Runs
import LosslessJava.Grammar

/-! Runs in which no error is reported. What such a run records is a row of shapes that keep their
contracts, and the brackets of the tokens it went over are those of the row. -/

namespace LosslessJava

/-- The kinds of the tokens from one position up to another. -/
def TokenStream.kinds (stream : TokenStream) (first stop : Nat) : List Kind :=
  (List.range' first (stop - first)).map fun index => (stream.tokenAt index).kind

theorem TokenStream.kinds_append (stream : TokenStream) {first middle stop : Nat}
    (one : first ≤ middle) (two : middle ≤ stop) :
    stream.kinds first middle ++ stream.kinds middle stop = stream.kinds first stop := by
  have split : stop - first = (middle - first) + (stop - middle) := by omega
  have next : middle = first + (middle - first) := by omega
  rw [kinds, kinds, kinds, split, ← List.range'_append_1, ← next, List.map_append]

namespace Parser

namespace State

open Event

/-- A state from which parsing goes on without an error to overcome. -/
structure Ready (env : Env) (s : State) : Prop where
  normal : s.recovery = .normal
  inside : s.position < env.stream.size

/-- From one state to another, a row of shapes was recorded that keep their contracts. The brackets
among its tokens are those that stand between the two positions. -/
structure Adds (env : Env) (s : State) (row : List Shape) (t : State) : Prop extends Ready env t where
  events : ∃ more, t.events.toList = s.events.toList ++ more ∧ Emits more (Shape.stepsAll row)
  sound : Shape.SoundAll row
  later : s.position ≤ t.position
  moved : t.position = min (s.position + ((Shape.tokensAll row).map Prod.snd).sum) (env.stream.size - 1)
  brackets : (env.stream.kinds s.position t.position).filter Kind.isBracket =
    ((Shape.tokensAll row).map Prod.fst).filter Kind.isBracket

/-- From one state to another, nothing was recorded and the position is the same. -/
structure Still (s t : State) : Prop where
  events : t.events = s.events
  position : t.position = s.position
  recovery : t.recovery = s.recovery

/-- The last node of those that begin with what was recorded since a state, which a completed mark
stands for. -/
def Roots (s : State) (first : Completed) (row : List Shape) (t : State) : Prop :=
  ∃ children more head, row = [.node first.kind children] ∧
    t.events.toList = s.events.toList ++ more ∧ first.position = s.events.size + head ∧
    Chain more head first.kind children

variable {env : Env} {s t u : State} {row front back : List Shape} {first : Completed}

theorem Still.refl : Still s s := ⟨rfl, rfl, rfl⟩

theorem Still.trans (one : Still s t) (two : Still t u) : Still s u :=
  ⟨two.events.trans one.events, two.position.trans one.position, two.recovery.trans one.recovery⟩

theorem Still.cursor_eq (still : Still s t) : t.cursor env = s.cursor env := by
  simp [cursor, still.position]

theorem Still.current_eq (still : Still s t) : t.current env = s.current env := by
  simp [current, still.cursor_eq]

theorem Still.ready (still : Still s t) (ready : Ready env s) : Ready env t :=
  ⟨still.recovery.trans ready.normal, still.position ▸ ready.inside⟩

namespace Adds

theorem refl (ready : Ready env s) : Adds env s [] s where
  toReady := ready
  events := ⟨[], by simp, .nil⟩
  sound := trivial
  later := Nat.le_refl _
  moved := by
    have inside := ready.inside
    simp only [Shape.tokensAll, List.map_nil, List.sum_nil]
    omega
  brackets := by simp [TokenStream.kinds, Shape.tokensAll]

theorem trans (one : Adds env s front t) (two : Adds env t back u) : Adds env s (front ++ back) u where
  toReady := two.toReady
  events := by
    obtain ⟨more, recorded, emits⟩ := one.events
    obtain ⟨more', recorded', emits'⟩ := two.events
    refine ⟨more ++ more', by rw [recorded', recorded, List.append_assoc], ?_⟩
    rw [Shape.stepsAll_append]
    exact emits.append emits'
  sound := Shape.soundAll_append.mpr ⟨one.sound, two.sound⟩
  later := Nat.le_trans one.later two.later
  moved := by
    rw [two.moved, one.moved, Shape.tokensAll_append, List.map_append, List.sum_append]
    omega
  brackets := by
    rw [← TokenStream.kinds_append _ one.later two.later, List.filter_append, one.brackets, two.brackets,
      Shape.tokensAll_append, List.map_append, List.filter_append]

theorem still (adds : Adds env s row t) (still : Still t u) : Adds env s row u where
  toReady := still.ready adds.toReady
  events := still.events ▸ adds.events
  sound := adds.sound
  later := still.position ▸ adds.later
  moved := still.position ▸ adds.moved
  brackets := still.position ▸ adds.brackets

theorem push (ready : Ready env s) {kind : Kind} (known : kind ≠ .unknown) {count : Nat}
    (brackets : (env.stream.kinds s.position (s.pushToken env kind count).position).filter Kind.isBracket =
      [kind].filter Kind.isBracket) : Adds env s [.token kind count] (s.pushToken env kind count) where
  normal := by simp [pushToken, ready.normal]
  inside := by
    have size := env.stream.size_pos
    simp only [pushToken, TokenCursor.advance, TokenCursor.index, cursor]
    omega
  events := ⟨[.token kind count], by simp [pushToken], .token .nil⟩
  sound := ⟨known, trivial⟩
  later := by
    have inside := ready.inside
    simp only [pushToken, TokenCursor.advance, TokenCursor.index, cursor]
    omega
  moved := by simp [pushToken, TokenCursor.advance, TokenCursor.index, cursor, Shape.tokensAll, Shape.tokens]
  brackets := by simpa [Shape.tokensAll, Shape.tokens] using brackets

/-- Tokens none of which is a bracket may be taken as one. -/
theorem join (ready : Ready env s) {kind : Kind} (known : kind ≠ .unknown)
    (bracket : kind.isBracket = false) {count : Nat}
    (none : ∀ n < count, ((s.cursor env).nth n).isBracket = false) :
    Adds env s [.token kind count] (s.pushToken env kind count) := by
  refine push ready known ?_
  have last : (s.pushToken env kind count).position ≤ s.position + count := by
    simp only [pushToken, TokenCursor.advance, TokenCursor.index, cursor]
    omega
  rw [List.filter_cons, if_neg (by simp [bracket]), List.filter_nil, List.filter_eq_nil_iff]
  intro found member
  obtain ⟨index, inside, rfl⟩ := List.mem_map.mp member
  obtain ⟨first, stop⟩ := List.mem_range'_1.mp inside
  have plain := none (index - s.position) (by omega)
  simp only [TokenCursor.nth, TokenCursor.nthToken, TokenCursor.index, cursor] at plain
  have room : index ≤ env.stream.size - 1 := by
    have bound : (s.pushToken env kind count).position ≤ env.stream.size - 1 := by
      simp only [pushToken, TokenCursor.advance, TokenCursor.index, cursor]
      omega
    omega
  rw [show min (s.position + (index - s.position)) (env.stream.size - 1) = index by omega] at plain
  simp [plain]

theorem one (ready : Ready env s) (known : s.current env ≠ .unknown) :
    Adds env s [.token (s.current env) 1] (s.pushToken env (s.current env) 1) := by
  refine push ready known ?_
  have here : (s.cursor env).index 0 = s.position := by
    have inside := ready.inside
    simp only [TokenCursor.index, cursor]
    omega
  have current : s.current env = (env.stream.tokenAt s.position).kind := by
    rw [State.current, TokenCursor.current, TokenCursor.nth, TokenCursor.nthToken, here]
    rfl
  have next : (s.pushToken env (s.current env) 1).position = min (s.position + 1) (env.stream.size - 1) := rfl
  by_cases more : s.position + 1 < env.stream.size
  · rw [next, Nat.min_eq_left (by omega), TokenStream.kinds, Nat.add_sub_cancel_left, current]
    rfl
  · have ended : s.current env = .eof := current.trans (TokenStream.kind_tokenAt_of_le (by omega))
    have same : min (s.position + 1) (env.stream.size - 1) = s.position := by
      have inside := ready.inside
      omega
    rw [next, same, ended]
    simp [TokenStream.kinds, Kind.isBracket]

end Adds

theorem Roots.still (roots : s.Roots first row t) (still : Still t u) : s.Roots first row u := by
  rw [Roots, still.events]
  exact roots

theorem Roots.of_still (roots : t.Roots first row u) (still : Still s t) : s.Roots first row u := by
  rw [Roots, ← still.events]
  exact roots

theorem Roots.outline (roots : s.Roots first row t) : Shape.outline row = [first.kind] := by
  obtain ⟨children, -, -, rfl, -⟩ := roots
  rfl

end State

end Parser

end LosslessJava
