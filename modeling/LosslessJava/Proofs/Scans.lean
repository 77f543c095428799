import LosslessJava.Proofs.TypeParts

/-! What a look ahead tells of the tokens if it did not hit the limit. Where no annotation stands, a
scan that accepts has read a form of its own: a type, types joined by `&`, or the parameters of a
lambda. -/

namespace LosslessJava

namespace TokenStream

/-- No annotation stands in the stream. -/
def Unannotated (stream : TokenStream) : Prop := ∀ index, stream.kindAt index ≠ .atSign

theorem unannotated_of_all {stream : TokenStream} (all : stream.tokens.all (·.kind != .atSign) = true) :
    stream.Unannotated := fun index => by
  have member : stream.tokenAt index ∈ stream.tokens := Array.getElem_mem _
  have away := Array.all_eq_true_iff_forall_mem.mp all _ member
  exact bne_iff_ne.mp away

end TokenStream

namespace Parser.Lookahead

variable {α β : Type} {view : View}

/-- A look gives an answer without hitting the limit. -/
def Clear (view : View) (peek : Peek α) (a : α) : Prop := peek.decide view.cursor view.limit = some (a, false)

/-- A scan accepts without hitting the limit. -/
abbrev Accepts (view : View) (scan : Scan α) (a : α) : Prop := Clear view scan.run (some a)

/-- A look that hits the limit after another one did is no clear one. -/
theorem clear_bind {first : Peek β} {next : β → Peek α} [steady : ∀ b, Steady (next b)] {a : α} :
    Clear view (first >>= next) a ↔ ∃ b, Clear view first b ∧ Clear view (next b) a := by
  show (first view false).bind (fun (b, hit) => next b view hit) = some (a, false) ↔
    ∃ b, first view false = some (b, false) ∧ next b view false = some (a, false)
  rcases first view false with _ | ⟨b, _ | _⟩
  · constructor
    · intro impossible
      cases impossible
    · rintro ⟨_, impossible, -⟩
      cases impossible
  · exact ⟨fun given => ⟨b, rfl, given⟩, fun ⟨_, same, given⟩ => by cases same; exact given⟩
  · constructor
    · intro given
      cases (steady b).remembers given
    · rintro ⟨_, impossible, -⟩
      cases impossible

theorem clear_pure {a b : α} : Clear view (Pure.pure a) b ↔ a = b := by
  show some (a, false) = some (b, false) ↔ a = b
  simp

theorem clear_outOfSteps {a : α} : ¬ Clear view outOfSteps a := nofun

theorem clear_nth {n : Nat} {kind : Kind} :
    Clear view (nth n) kind ↔ n < view.limit ∧ view.cursor.nth n = kind := by
  show (if view.limit ≤ n then (do set true; return Kind.eof : Peek Kind) else Pure.pure (view.cursor.nth n)) view false =
    some (kind, false) ↔ _
  split
  · next beyond =>
    constructor
    · intro given
      cases given
    · omega
  · next within =>
    show some (view.cursor.nth n, false) = some (kind, false) ↔ _
    simp only [Option.some.injEq, Prod.mk.injEq, and_true]
    exact ⟨fun same => ⟨by omega, same⟩, And.right⟩

theorem clear_nthIs {n : Nat} {kind : Kind} {answer : Bool} :
    Clear view (nthIs n kind) answer ↔ n < view.limit ∧ (view.cursor.nth n == kind) = answer := by
  unfold nthIs
  rw [clear_bind]
  simp only [clear_nth, clear_pure]
  exact ⟨fun ⟨_, ⟨within, same⟩, given⟩ => ⟨within, same ▸ given⟩, fun ⟨within, given⟩ => ⟨_, ⟨within, rfl⟩, given⟩⟩

theorem clear_stepLimit {m : Nat} : Clear view stepLimit m ↔ view.cursor.stream.size + 1 = m := by
  show some (view.cursor.stream.size + 1, false) = some (m, false) ↔ _
  simp

theorem steady_found {next : β → Scan α} [∀ b, SteadyScan (next b)] (found : Option β) : Steady (match found with
    | some b => (next b).run
    | none => Pure.pure none) := by
  cases found <;> infer_instance

theorem accepts_bind {first : Scan β} {next : β → Scan α} [steady : ∀ b, SteadyScan (next b)] {a : α} :
    Accepts view (first >>= next) a ↔ ∃ b, Accepts view first b ∧ Accepts view (next b) a := by
  refine Iff.trans (@clear_bind _ _ _ _ _ steady_found _) ⟨fun ⟨found, ran, rest⟩ => ?_, fun ⟨b, ran, rest⟩ => ⟨some b, ran, rest⟩⟩
  cases found with
  | none => cases clear_pure.mp rest
  | some b => exact ⟨b, ran, rest⟩

theorem accepts_pure {a b : α} : Accepts view (Pure.pure a) b ↔ a = b :=
  clear_pure.trans (by simp)

theorem accepts_failure {a : α} : ¬ Accepts view failure a := fun given => nomatch clear_pure.mp given

theorem accepts_lift {peek : Peek α} {a : α} : Accepts view (liftM peek) a ↔ Clear view peek a := by
  refine Iff.trans (@clear_bind _ _ _ peek (fun b => Pure.pure (some b)) _ _) ?_
  simp [clear_pure]

theorem clear_both {first second : Peek Bool} [steady : Steady second] {answer : Bool} :
    Clear view (both first second) answer ↔
      Clear view first true ∧ Clear view second answer ∨ Clear view first false ∧ answer = false := by
  have goes (b : Bool) : Steady (if b = true then second else Pure.pure false) := inferInstance
  refine Iff.trans (@clear_bind _ _ _ _ _ goes _) ⟨fun ⟨b, ran, rest⟩ => ?_, fun given => ?_⟩
  · cases b with
    | true => exact .inl ⟨ran, rest⟩
    | false => exact .inr ⟨ran, (clear_pure.mp rest).symm⟩
  · rcases given with ⟨ran, rest⟩ | ⟨ran, rfl⟩
    · exact ⟨true, ran, rest⟩
    · exact ⟨false, ran, clear_pure.mpr rfl⟩

theorem accepts_test {test : Peek Bool} {yes no : Scan α} [SteadyScan yes] [SteadyScan no] {a : α} :
    Accepts view (do if ← test then yes else no) a ↔
      Clear view test true ∧ Accepts view yes a ∨ Clear view test false ∧ Accepts view no a := by
  rw [accepts_bind]
  simp [accepts_lift, or_comm]

theorem clear_test {test : Peek Bool} {yes no : Peek α} [Steady yes] [Steady no] {a : α} :
    Clear view (do if ← test then yes else no) a ↔
      Clear view test true ∧ Clear view yes a ∨ Clear view test false ∧ Clear view no a := by
  rw [clear_bind]
  simp [or_comm]

section Forms

variable {n m steps : Nat}

/-- The kinds of the tokens ahead are those of the stream. -/
theorem clear_pair {first second : Kind} {answer : Bool} :
    Clear view (both (nthIs n first) (nthIs (n + 1) second)) answer →
      ((view.cursor.nth n == first) && (view.cursor.nth (n + 1) == second)) = answer := by
  intro given
  rcases clear_both.mp given with ⟨one, two⟩ | ⟨one, rfl⟩
  · rw [(clear_nthIs.mp one).2, (clear_nthIs.mp two).2, Bool.true_and]
  · rw [(clear_nthIs.mp one).2, Bool.false_and]

private theorem dims_of_clear (clear : Clear view (dimsFrom steps n) m) :
    ∃ count, view.cursor.stream.Dims count (view.cursor.position + n) (view.cursor.position + m) := by
  induction steps generalizing n with
  | zero => exact absurd clear clear_outOfSteps
  | succ steps ih =>
    unfold dimsFrom at clear
    rcases clear_test.mp clear with ⟨found, rest⟩ | ⟨found, rest⟩
    · have both := clear_pair found
      simp only [TokenCursor.nth_eq, Bool.and_eq_true, beq_iff_eq] at both
      obtain ⟨count, rest⟩ := ih rest
      exact ⟨count + 1, .more both.1 both.2 rest⟩
    · obtain rfl := clear_pure.mp rest
      have both := clear_pair found
      simp only [TokenCursor.nth_eq, Bool.and_eq_false_imp, beq_iff_eq, beq_eq_false_iff_ne] at both
      exact ⟨0, .stop both⟩

theorem dims_of_accepts (accepts : Accepts view (liftM (dims n)) m) :
    ∃ count, view.cursor.stream.Dims count (view.cursor.position + n) (view.cursor.position + m) := by
  obtain ⟨steps, -, rest⟩ := clear_bind.mp (accepts_lift.mp accepts)
  exact dims_of_clear rest

variable (plain : view.cursor.stream.Unannotated)

include plain

theorem annotations_of_accepts (accepts : Accepts view (annotations n) m) : m = n := by
  obtain ⟨steps, -, accepts⟩ := accepts_bind.mp accepts
  cases steps with
  | zero => exact absurd accepts clear_outOfSteps
  | succ steps =>
    unfold annotationsFrom at accepts
    rcases accepts_test.mp accepts with ⟨found, -⟩ | ⟨-, accepts⟩
    · rcases clear_both.mp found with ⟨here, -⟩ | ⟨-, impossible⟩
      · have at_sign := (clear_nthIs.mp here).2
        rw [TokenCursor.nth_eq, beq_iff_eq] at at_sign
        exact absurd at_sign (plain _)
      · cases impossible
    · exact (accepts_pure.mp accepts).symm

section Types

variable {type : Nat → Scan Nat} [∀ n, SteadyScan (type n)]
  (reads : ∀ {n m}, Accepts view (type n) m →
    ∃ part : TypePart .type, view.cursor.stream.Spans part (view.cursor.position + n) (view.cursor.position + m))

include reads

omit plain reads in
theorem steady_argumentEnd (kind : Kind) : SteadyScan (match kind with
    | .comma => typeArgumentsFrom type steps (n + 1)
    | .gt => Pure.pure (n + 1)
    | _ => failure) := by
  split <;> infer_instance

def argumentEnd (type : Nat → Scan Nat) (steps n : Nat) : Scan Nat := do
  match ← nth n with
  | .comma => typeArgumentsFrom type steps (n + 1)
  | .gt => return n + 1
  | _ => failure

omit plain reads in
theorem argumentEnd_of_accepts (accepts : Accepts view (argumentEnd type steps n) m) :
    view.cursor.stream.kindAt (view.cursor.position + n) = .comma ∧ Accepts view (typeArgumentsFrom type steps (n + 1)) m ∨
      view.cursor.stream.kindAt (view.cursor.position + n) = .gt ∧ m = n + 1 := by
  have behind := @steady_argumentEnd n steps type _
  obtain ⟨kind, here, rest⟩ := accepts_bind.mp accepts
  have here := (clear_nth.mp (accepts_lift.mp here)).2
  rw [TokenCursor.nth_eq] at here
  split at rest
  · exact .inl ⟨here, rest⟩
  · exact .inr ⟨here, (accepts_pure.mp rest).symm⟩
  · exact absurd rest accepts_failure

private theorem arguments_of_accepts (accepts : Accepts view (typeArgumentsFrom type steps n) m) :
    ∃ j, m = j + 1 ∧ view.cursor.stream.kindAt (view.cursor.position + j) = .gt ∧
      ∃ part : TypePart .arguments, view.cursor.stream.Spans part (view.cursor.position + n) (view.cursor.position + j) := by
  induction steps generalizing n with
  | zero => exact absurd accepts clear_outOfSteps
  | succ steps ih =>
    have closes {k : Nat} {argument : TypePart .argument}
        (first : view.cursor.stream.Spans argument (view.cursor.position + n) (view.cursor.position + k))
        (behind : view.cursor.stream.kindAt (view.cursor.position + k) = .comma ∧
            Accepts view (typeArgumentsFrom type steps (k + 1)) m ∨
          view.cursor.stream.kindAt (view.cursor.position + k) = .gt ∧ m = k + 1) :
        ∃ j, m = j + 1 ∧ view.cursor.stream.kindAt (view.cursor.position + j) = .gt ∧
          ∃ part : TypePart .arguments,
            view.cursor.stream.Spans part (view.cursor.position + n) (view.cursor.position + j) := by
      rcases behind with ⟨comma, rest⟩ | ⟨closer, same⟩
      · obtain ⟨j, same, closer, _, others⟩ := ih rest
        exact ⟨j, same, closer, _, .more first comma others⟩
      · exact ⟨k, same, closer, _, .last first closer⟩
    have steady (n : Nat) := @steady_argumentEnd n steps type _
    unfold typeArgumentsFrom at accepts
    obtain ⟨b, annotated, argument⟩ := accepts_bind.mp accepts
    obtain rfl : b = n := annotations_of_accepts plain annotated
    rcases accepts_test.mp argument with ⟨found, wildcard⟩ | ⟨found, type⟩
    · have here := (clear_nthIs.mp found).2
      rw [TokenCursor.nth_eq, beq_iff_eq] at here
      obtain ⟨bound, next, wildcard⟩ := accepts_bind.mp wildcard
      have next := (clear_nth.mp (accepts_lift.mp next)).2
      rw [TokenCursor.nth_eq] at next
      split at wildcard
      · next bounds =>
        obtain ⟨k, type, rest⟩ := accepts_bind.mp wildcard
        obtain ⟨part, type⟩ := reads type
        rw [← next] at bounds
        have argument : view.cursor.stream.Spans (.bounded _ bounds part) (view.cursor.position + b)
            (view.cursor.position + k) := .bounded here rfl type
        exact closes argument (argumentEnd_of_accepts rest)
      · next free =>
        obtain ⟨k, same, rest⟩ := accepts_bind.mp wildcard
        obtain rfl := accepts_pure.mp same
        exact closes (.unbounded here (next ▸ not_or.mp free)) (argumentEnd_of_accepts rest)
    · obtain ⟨k, type, rest⟩ := accepts_bind.mp type
      obtain ⟨part, type⟩ := reads type
      exact closes (.only type) (argumentEnd_of_accepts rest)

private theorem segments_of_accepts (accepts : Accepts view (typeSegments type steps n) m) :
    ∃ part : TypePart .segments, view.cursor.stream.Spans part (view.cursor.position + n) (view.cursor.position + m) := by
  induction steps generalizing n with
  | zero => exact absurd accepts clear_outOfSteps
  | succ steps ih =>
    have goesOn {k : Nat} (rest : Accepts view (do
        if ← nthIs k .dot then
          let after ← annotations (k + 1)
          if ← nthIs after .identifier then typeSegments type steps (after + 1) else return k
        else
          return k) m) :
        ∃ part : TypePart .further, view.cursor.stream.Spans part (view.cursor.position + k) (view.cursor.position + m) := by
      rcases accepts_test.mp rest with ⟨found, rest⟩ | ⟨found, rest⟩
      · have dot := (clear_nthIs.mp found).2
        obtain ⟨b, annotated, rest⟩ := accepts_bind.mp rest
        obtain rfl := annotations_of_accepts plain annotated
        rcases accepts_test.mp rest with ⟨found, rest⟩ | ⟨found, rest⟩
        · have name := (clear_nthIs.mp found).2
          rw [TokenCursor.nth_eq, beq_iff_eq] at dot name
          obtain ⟨part, rest⟩ := ih rest
          exact ⟨_, .next dot name rest⟩
        · obtain rfl := accepts_pure.mp rest
          have away := (clear_nthIs.mp found).2
          rw [TokenCursor.nth_eq, beq_eq_false_iff_ne] at away
          exact ⟨_, .stop fun _ => ⟨away, plain _⟩⟩
      · obtain rfl := accepts_pure.mp rest
        have away := (clear_nthIs.mp found).2
        rw [TokenCursor.nth_eq, beq_eq_false_iff_ne] at away
        exact ⟨_, .stop fun dot => absurd dot away⟩
    unfold typeSegments at accepts
    rcases accepts_test.mp accepts with ⟨found, rest⟩ | ⟨found, rest⟩
    · have opener := (clear_nthIs.mp found).2
      rw [TokenCursor.nth_eq, beq_iff_eq] at opener
      obtain ⟨k, arguments, rest⟩ := accepts_bind.mp rest
      unfold typeArguments at arguments
      rcases accepts_test.mp arguments with ⟨found, same⟩ | ⟨found, some⟩
      · obtain rfl := accepts_pure.mp same
        have closer := (clear_nthIs.mp found).2
        rw [TokenCursor.nth_eq, beq_iff_eq] at closer
        obtain ⟨part, rest⟩ := goesOn rest
        exact ⟨_, .diamond opener closer rest⟩
      · obtain ⟨limit, -, some⟩ := accepts_bind.mp some
        obtain ⟨j, rfl, -, _, inside⟩ := arguments_of_accepts plain reads some
        have away := (clear_nthIs.mp found).2
        rw [TokenCursor.nth_eq, beq_eq_false_iff_ne] at away
        obtain ⟨part, rest⟩ := goesOn rest
        exact ⟨_, .generic opener away inside rest⟩
    · have away := (clear_nthIs.mp found).2
      rw [TokenCursor.nth_eq, beq_eq_false_iff_ne] at away
      obtain ⟨k, same, rest⟩ := accepts_bind.mp rest
      obtain rfl := accepts_pure.mp same
      obtain ⟨part, rest⟩ := goesOn rest
      exact ⟨_, .bare away rest⟩

end Types

private theorem typeWithin_of_accepts {levels : Nat} (accepts : Accepts view (typeWithin levels n) m) :
    ∃ part : TypePart .type, view.cursor.stream.Spans part (view.cursor.position + n) (view.cursor.position + m) := by
  induction levels generalizing n m with
  | zero => exact absurd accepts clear_outOfSteps
  | succ levels ih =>
    unfold typeWithin at accepts
    obtain ⟨b, annotated, element⟩ := accepts_bind.mp accepts
    obtain rfl : b = n := annotations_of_accepts plain annotated
    obtain ⟨kind, seen, element⟩ := accepts_bind.mp element
    have here := (clear_nth.mp (accepts_lift.mp seen)).2
    rw [TokenCursor.nth_eq] at here
    split at element
    · next primitive =>
      obtain ⟨count, dims⟩ := dims_of_accepts element
      exact ⟨.primitive kind primitive count, .primitive here dims⟩
    · split at element
      · next name =>
        obtain ⟨steps, -, element⟩ := accepts_bind.mp element
        obtain ⟨k, segments, dims⟩ := accepts_bind.mp element
        obtain ⟨part, rest⟩ := segments_of_accepts plain ih segments
        obtain ⟨count, dims⟩ := dims_of_accepts dims
        exact ⟨_, .named (here.trans name) rest dims⟩
      · exact absurd element accepts_failure

theorem type_of_accepts (accepts : Accepts view (type n) m) :
    ∃ part : TypePart .type, view.cursor.stream.Spans part (view.cursor.position + n) (view.cursor.position + m) := by
  obtain ⟨levels, -, accepts⟩ := accepts_bind.mp accepts
  exact typeWithin_of_accepts plain accepts

private theorem joined_of_accepts (accepts : Accepts view (intersectionFrom steps n) m) :
    view.cursor.stream.Joined (view.cursor.position + n) (view.cursor.position + m) := by
  induction steps generalizing n with
  | zero => exact absurd accepts clear_outOfSteps
  | succ steps ih =>
    unfold intersectionFrom at accepts
    rcases accepts_test.mp accepts with ⟨found, rest⟩ | ⟨found, rest⟩
    · have amp := (clear_nthIs.mp found).2
      rw [TokenCursor.nth_eq, beq_iff_eq] at amp
      obtain ⟨k, accepted, rest⟩ := accepts_bind.mp rest
      obtain ⟨part, type⟩ := type_of_accepts plain accepted
      exact .more amp type (ih rest)
    · obtain rfl := accepts_pure.mp rest
      have away := (clear_nthIs.mp found).2
      rw [TokenCursor.nth_eq, beq_eq_false_iff_ne] at away
      exact .stop away

/-- What a scan for the type of a cast accepts is a type, or several of them joined by `&`. -/
theorem castType_of_accepts (accepts : Accepts view (castType n) m) :
    ∃ (part : TypePart .type) (j : _), view.cursor.stream.Spans part (view.cursor.position + n) j ∧
      view.cursor.stream.Joined j (view.cursor.position + m) := by
  obtain ⟨steps, -, accepted⟩ := accepts_bind.mp accepts
  obtain ⟨k, first, others⟩ := accepts_bind.mp accepted
  obtain ⟨part, type⟩ := type_of_accepts plain first
  exact ⟨part, _, type, joined_of_accepts plain others⟩

end Forms

end Parser.Lookahead

end LosslessJava
