import LosslessJava.Proofs.ScannedTypes

/-! What a scan makes of the tokens of a type: where these stand, it accepts them, if the limit lies behind them. -/

namespace LosslessJava

open LosslessJava.Parser

namespace TokenStream

variable {stream : TokenStream} {form : TypeForm} {part : TypePart form} {count i j : Nat}

theorem lt_size_of_ne_eof {kind : Kind} (here : stream.kindAt i = kind) (more : kind ≠ .eof) : i < stream.size :=
  Nat.lt_of_not_le fun behind => more (here.symm.trans (kind_tokenAt_of_le (by omega)))

private theorem Dims.le_size (dims : stream.Dims count i j) : j ≤ max i stream.size ∧ count ≤ j - i := by
  induction dims with
  | stop => omega
  | more opener closer rest ih =>
    have one := lt_size_of_ne_eof opener (by decide)
    have two := lt_size_of_ne_eof closer (by decide)
    have later := rest.le
    omega

/-- A part of a type ends with the tokens of the stream, and does not nest more lists than it has tokens. -/
theorem Spans.le_size (spans : stream.Spans part i j) : j ≤ max i stream.size ∧ part.nesting ≤ j - i := by
  induction spans with
  | @primitive kind proper _ i j here dims =>
    have more : kind ≠ .eof := by rintro rfl; cases proper
    have one := lt_size_of_ne_eof here more
    have later := dims.le
    have inside := dims.le_size
    simp only [TypePart.nesting]
    omega
  | named here rest dims ih =>
    have one := lt_size_of_ne_eof here (by decide)
    have two := rest.le
    have three := dims.le
    have inside := dims.le_size
    simp only [TypePart.nesting]
    omega
  | bare _ _ ih => exact ih
  | diamond opener closer rest ih =>
    have one := lt_size_of_ne_eof closer (by decide)
    have later := rest.le
    simp only [TypePart.nesting]
    omega
  | generic opener _ inside rest ih ih' =>
    have one := lt_size_of_ne_eof opener (by decide)
    have two := inside.le
    have three := rest.le
    have closer := lt_size_of_ne_eof inside.closer (by decide)
    simp only [TypePart.nesting]
    omega
  | stop =>
    simp only [TypePart.nesting]
    omega
  | next dot name rest ih =>
    have one := lt_size_of_ne_eof name (by decide)
    have later := rest.le
    simp only [TypePart.nesting]
    omega
  | last _ _ ih => exact ih
  | more first comma rest ih ih' =>
    have one := lt_size_of_ne_eof comma (by decide)
    have two := first.le
    have three := rest.le
    simp only [TypePart.nesting]
    omega
  | unbounded here =>
    have one := lt_size_of_ne_eof here (by decide)
    simp only [TypePart.nesting]
    omega
  | @bounded bound proper _ i j here behind type ih =>
    have more : bound ≠ .eof := by rcases proper with rfl | rfl <;> decide
    have one := lt_size_of_ne_eof behind more
    have later := type.le
    simp only [TypePart.nesting]
    omega
  | only _ ih => exact ih

/-- A type begins with a name or a keyword for a primitive type. -/
theorem Spans.type_plain {type : TypePart .type} (spans : stream.Spans type i j) :
    stream.kindAt i ≠ .atSign ∧ stream.kindAt i ≠ .question := by
  cases spans with
  | @primitive kind proper _ _ _ here =>
    rw [here]
    constructor <;> (rintro rfl; cases proper)
  | named here => rw [here]; decide

private theorem Spans.argument_plain {argument : TypePart .argument} (spans : stream.Spans argument i j) :
    stream.kindAt i ≠ .atSign := by
  cases spans with
  | unbounded here | bounded here => rw [here]; decide
  | only type => exact type.type_plain.1

end TokenStream

namespace Parser.Lookahead

variable {view : View} {α β : Type} {n m steps : Nat}

abbrev Rejects (view : View) (scan : Scan α) : Prop := Clear view scan.run none

private theorem rejects_failure : Rejects view (failure : Scan α) := clear_pure.mpr rfl

theorem rejects_first {first : Scan β} {next : β → Scan α} [∀ b, SteadyScan (next b)] (fails : Rejects view first) :
    Rejects view (first >>= next) :=
  (@clear_bind _ _ _ _ _ steady_found _).mpr ⟨none, fails, clear_pure.mpr rfl⟩

/-- Behind what is accepted a scan goes on, whether it fails there or not. -/
theorem clear_next {first : Scan β} {next : β → Scan α} [∀ b, SteadyScan (next b)] {b : β} {found : Option α}
    (accepts : Accepts view first b) (rest : Clear view (next b).run found) : Clear view (first >>= next).run found :=
  (@clear_bind _ _ _ _ _ steady_found _).mpr ⟨some b, accepts, rest⟩

private theorem clear_yes {test : Peek Bool} {yes no : Scan α} [SteadyScan yes] [SteadyScan no] {found : Option α}
    (told : Clear view test true) (rest : Clear view yes.run found) :
    Clear view (do if ← test then yes else no : Scan α).run found := clear_next (accepts_lift.mpr told) rest

private theorem clear_no {test : Peek Bool} {yes no : Scan α} [SteadyScan yes] [SteadyScan no] {found : Option α}
    (told : Clear view test false) (rest : Clear view no.run found) :
    Clear view (do if ← test then yes else no : Scan α).run found := clear_next (accepts_lift.mpr told) rest

theorem clear_succeeds {scan : Scan Bool} {answer : Bool} (accepts : Accepts view scan answer) :
    Clear view (succeeds scan) answer := clear_bind.mpr ⟨_, accepts, clear_pure.mpr rfl⟩

theorem clear_fails {scan : Scan Bool} (rejects : Rejects view scan) : Clear view (succeeds scan) false :=
  clear_bind.mpr ⟨_, rejects, clear_pure.mpr rfl⟩

theorem sees {kind : Kind} (within : n < view.limit) (here : view.cursor.stream.kindAt (view.cursor.position + n) = kind) :
    Clear view (nth n) kind := clear_nth.mpr ⟨within, by rw [TokenCursor.nth_eq, here]⟩

theorem sees_yes {kind : Kind} (within : n < view.limit)
    (here : view.cursor.stream.kindAt (view.cursor.position + n) = kind) : Clear view (nthIs n kind) true :=
  clear_nthIs.mpr ⟨within, by rw [TokenCursor.nth_eq, here, beq_self_eq_true]⟩

theorem sees_no {kind : Kind} (within : n < view.limit)
    (away : view.cursor.stream.kindAt (view.cursor.position + n) ≠ kind) : Clear view (nthIs n kind) false :=
  clear_nthIs.mpr ⟨within, by rw [TokenCursor.nth_eq, beq_eq_false_iff_ne.mpr away]⟩

section Forms

private theorem accepts_annotations (within : n < view.limit) (away : view.cursor.stream.kindAt (view.cursor.position + n) ≠ .atSign) :
    Accepts view (annotations n) n := by
  refine accepts_bind.mpr ⟨_, accepts_lift.mpr (clear_stepLimit.mpr rfl), ?_⟩
  unfold annotationsFrom
  exact accepts_test.mpr (.inr ⟨clear_both.mpr (.inr ⟨sees_no within away, rfl⟩), accepts_pure.mpr rfl⟩)

theorem accepts_localModifiers (within : n < view.limit)
    (away : view.cursor.stream.kindAt (view.cursor.position + n) ≠ .atSign)
    (final : view.cursor.stream.kindAt (view.cursor.position + n) ≠ .finalKw) : Accepts view (localModifiers n) n := by
  refine accepts_bind.mpr ⟨_, accepts_lift.mpr (clear_stepLimit.mpr rfl), ?_⟩
  unfold modifiersFrom
  exact accepts_bind.mpr ⟨n, accepts_annotations within away,
    accepts_test.mpr (.inr ⟨sees_no within final, accepts_pure.mpr rfl⟩)⟩

variable {i j : Nat}

private theorem clear_dimsFrom {count : Nat} (pairs : view.cursor.stream.Dims count i j) (here : i = view.cursor.position + n)
    (there : j = view.cursor.position + m) (within : m + 1 < view.limit) (enough : count < steps) :
    Clear view (dimsFrom steps n) m := by
  induction pairs generalizing n steps with
  | @stop i away =>
    obtain rfl : n = m := by omega
    obtain ⟨steps, rfl⟩ := Nat.exists_eq_succ_of_ne_zero (Nat.ne_of_gt enough)
    unfold dimsFrom
    refine clear_test.mpr (.inr ⟨clear_both.mpr ?_, clear_pure.mpr rfl⟩)
    by_cases opener : view.cursor.stream.kindAt i = .leftBracket
    · exact .inl ⟨sees_yes (by omega) (here ▸ opener), sees_no within (by rw [← Nat.add_assoc, ← here]; exact away opener)⟩
    · exact .inr ⟨sees_no (by omega) (here ▸ opener), rfl⟩
  | @more count i j opener closer rest ih =>
    have later := rest.le
    obtain ⟨steps, rfl⟩ := Nat.exists_eq_succ_of_ne_zero (show steps ≠ 0 by omega)
    unfold dimsFrom
    have both : Clear view (Lookahead.both (nthIs n .leftBracket) (nthIs (n + 1) .rightBracket)) true :=
      clear_both.mpr (.inl ⟨sees_yes (by omega) (here ▸ opener),
        sees_yes (by omega) (by rw [← Nat.add_assoc, ← here]; exact closer)⟩)
    exact clear_test.mpr (.inl ⟨both, ih (by omega) there (by omega)⟩)

private theorem accepts_dims {count : Nat} (pairs : view.cursor.stream.Dims count i j) (here : i = view.cursor.position + n)
    (there : j = view.cursor.position + m) (within : m + 1 < view.limit) : Accepts view (liftM (dims n) : Scan Nat) m := by
  have inside := pairs.le_size
  have later := pairs.le
  refine accepts_lift.mpr (clear_bind.mpr ⟨_, clear_stepLimit.mpr rfl, clear_dimsFrom pairs here there within ?_⟩)
  omega

end Forms

section Types

variable {type : Nat → Scan Nat} {i j : Nat}

def furtherScan (type : Nat → Scan Nat) (steps n : Nat) : Scan Nat := do
  if ← nthIs n .dot then
    let after ← annotations (n + 1)
    if ← nthIs after .identifier then typeSegments type steps (after + 1) else return n
  else
    return n

def argumentScan (type : Nat → Scan Nat) (n : Nat) : Scan Nat := do
  if ← nthIs n .question then
    let bound ← nth (n + 1)
    if bound = .extendsKw ∨ bound = .superKw then type (n + 2) else pure (n + 1)
  else
    type n

/-- A scan accepts a part of a type, if it may go as deep as lists nest in it and makes as many steps as it has tokens. -/
def Foresees (view : View) : TypeForm → Nat → Nat → Nat → Prop
  | .type, levels, n, m => Accepts view (typeWithin (levels + 1) n) m
  | .segments, levels, n, m => ∀ steps, m - n < steps → Accepts view (typeSegments (typeWithin levels) steps n) m
  | .further, levels, n, m => ∀ steps, m - n ≤ steps → Accepts view (furtherScan (typeWithin levels) steps n) m
  | .arguments, levels, n, m => ∀ steps, m - n < steps → Accepts view (typeArgumentsFrom (typeWithin levels) steps n) (m + 1)
  | .argument, levels, n, m => Accepts view (argumentScan (typeWithin levels) n) m

def depthFor : {form : TypeForm} → TypePart form → Nat
  | .arguments, part | .argument, part => part.nesting + 1
  | _, part => part.nesting

variable [∀ n, SteadyScan (type n)] {k : Nat}

/-- A segment and what follows it: type arguments if `<` stands there, and further segments. -/
theorem typeSegments_accepts (scanned : Clear view (nthIs n .lt) true ∧ Accepts view (typeArguments type n) k ∨
      Clear view (nthIs n .lt) false ∧ k = n)
    (rest : Accepts view (furtherScan type steps k) m) : Accepts view (typeSegments type (steps + 1) n) m := by
  rcases scanned with ⟨angle, arguments⟩ | ⟨none, rfl⟩
  · exact accepts_test.mpr (.inl ⟨angle, accepts_bind.mpr ⟨k, arguments, rest⟩⟩)
  · exact accepts_test.mpr (.inr ⟨none, accepts_bind.mpr ⟨k, accepts_pure.mpr rfl, rest⟩⟩)

private theorem argumentEnd_last (within : n < view.limit)
    (closer : view.cursor.stream.kindAt (view.cursor.position + n) = .gt) :
    Accepts view (argumentEnd type steps n) (n + 1) := by
  have goes (kind : Kind) := @steady_argumentEnd n steps type _ kind
  exact accepts_bind.mpr ⟨_, accepts_lift.mpr (sees within closer), accepts_pure.mpr rfl⟩

private theorem argumentEnd_more (within : n < view.limit)
    (comma : view.cursor.stream.kindAt (view.cursor.position + n) = .comma)
    (rest : Accepts view (typeArgumentsFrom type steps (n + 1)) m) : Accepts view (argumentEnd type steps n) m := by
  have goes (kind : Kind) := @steady_argumentEnd n steps type _ kind
  exact accepts_bind.mpr ⟨_, accepts_lift.mpr (sees within comma), rest⟩

private theorem argumentEnd_rejects (within : n < view.limit)
    (comma : view.cursor.stream.kindAt (view.cursor.position + n) ≠ .comma)
    (closer : view.cursor.stream.kindAt (view.cursor.position + n) ≠ .gt) : Rejects view (argumentEnd type steps n) := by
  have goes (kind : Kind) := @steady_argumentEnd n steps type _ kind
  refine clear_next (accepts_lift.mpr (sees within rfl)) ?_
  split
  · next here => exact absurd here comma
  · next here => exact absurd here closer
  · exact rejects_failure

private theorem typeArguments_clear {found : Option Nat} (bare : Accepts view (annotations n) n)
    (argument : Accepts view (argumentScan type n) k) (rest : Clear view (argumentEnd type steps k).run found) :
    Clear view (typeArgumentsFrom type (steps + 1) n).run found := by
  have goes (n : Nat) := @steady_argumentEnd n steps type _
  refine clear_next bare ?_
  rcases accepts_test.mp argument with ⟨question, wildcard⟩ | ⟨none, only⟩
  · obtain ⟨bound, here, wildcard⟩ := accepts_bind.mp wildcard
    refine clear_yes question (clear_next here ?_)
    split at wildcard
    · next proper =>
      rw [if_pos proper]
      exact clear_next wildcard rest
    · next free =>
      rw [if_neg free]
      exact clear_next wildcard rest
  · exact clear_no none (clear_next only rest)

variable {form : TypeForm} {part : TypePart form} {levels : Nat}

theorem foresees (spans : view.cursor.stream.Spans part i j) (here : i = view.cursor.position + n)
    (there : j = view.cursor.position + m) (within : m + 1 < view.limit) (deep : depthFor part ≤ levels) :
    Foresees view form levels n m := by
  induction spans generalizing n m levels with
  | @primitive kind proper count i j first pairs =>
    have later := pairs.le
    have away : kind ≠ .atSign := by rintro rfl; cases proper
    subst here
    refine accepts_bind.mpr ⟨n, accepts_annotations (by omega) (first ▸ away), ?_⟩
    refine accepts_bind.mpr ⟨kind, accepts_lift.mpr (sees (by omega) first), ?_⟩
    rw [if_pos proper]
    exact accepts_dims pairs (Nat.add_assoc _ _ _) there within
  | @named segments count i j k first rest pairs ih =>
    have one := rest.le
    have two := pairs.le
    subst here
    refine accepts_bind.mpr ⟨n, accepts_annotations (by omega) (by rw [first]; decide), ?_⟩
    refine accepts_bind.mpr ⟨_, accepts_lift.mpr (sees (by omega) first), ?_⟩
    rw [if_neg (by decide), if_pos rfl]
    obtain ⟨l, rfl⟩ := Nat.exists_eq_add_of_le (show view.cursor.position ≤ j by omega)
    have inside := rest.le_size
    refine accepts_bind.mpr ⟨_, accepts_lift.mpr (clear_stepLimit.mpr rfl), ?_⟩
    refine accepts_bind.mpr ⟨l, ?_, accepts_dims pairs rfl there within⟩
    exact ih (Nat.add_assoc _ _ _) rfl (by omega) (by simpa [depthFor, TypePart.nesting] using deep) _ (by omega)
  | @bare further i j away rest ih =>
    intro steps enough
    obtain ⟨steps, rfl⟩ := Nat.exists_eq_succ_of_ne_zero (show steps ≠ 0 by omega)
    have later := rest.le
    exact typeSegments_accepts (.inr ⟨sees_no (by omega) (here ▸ away), rfl⟩) (ih here there within deep _ (by omega))
  | @diamond further i j opener closer rest ih =>
    intro steps enough
    obtain ⟨steps, rfl⟩ := Nat.exists_eq_succ_of_ne_zero (show steps ≠ 0 by omega)
    have later := rest.le
    subst here
    have arguments : Accepts view (typeArguments (typeWithin levels) n) (n + 2) :=
      accepts_test.mpr (.inl ⟨sees_yes (by omega) closer, accepts_pure.mpr rfl⟩)
    refine typeSegments_accepts (.inl ⟨sees_yes (by omega) opener, arguments⟩) (ih (Nat.add_assoc _ _ _) there within ?_ _ (by omega))
    simp only [depthFor, TypePart.nesting] at deep ⊢
    omega
  | @generic arguments further i j k opener some inside rest ih ih' =>
    intro steps enough
    obtain ⟨steps, rfl⟩ := Nat.exists_eq_succ_of_ne_zero (show steps ≠ 0 by omega)
    have one := inside.le
    have two := rest.le
    subst here
    obtain ⟨l, rfl⟩ := Nat.exists_eq_add_of_le (show view.cursor.position ≤ j by omega)
    have size := inside.le_size
    simp only [depthFor, TypePart.nesting] at deep
    have list : Accepts view (typeArguments (typeWithin levels) n) (l + 1) := by
      refine accepts_test.mpr (.inr ⟨sees_no (by omega) some, ?_⟩)
      refine accepts_bind.mpr ⟨_, accepts_lift.mpr (clear_stepLimit.mpr rfl), ?_⟩
      exact ih (Nat.add_assoc _ _ _) rfl (by omega) (by simp only [depthFor]; omega) _ (by omega)
    exact typeSegments_accepts (.inl ⟨sees_yes (by omega) opener, list⟩)
      (ih' (Nat.add_assoc _ _ _) there within (by simp only [depthFor]; omega) _ (by omega))
  | @stop i away =>
    intro steps _
    obtain rfl : n = m := by omega
    by_cases dot : view.cursor.stream.kindAt i = .dot
    · have behind := away dot
      rw [here, Nat.add_assoc] at behind
      refine accepts_test.mpr (.inl ⟨sees_yes (by omega) (here ▸ dot), ?_⟩)
      refine accepts_bind.mpr ⟨n + 1, accepts_annotations within behind.2, ?_⟩
      exact accepts_test.mpr (.inr ⟨sees_no within behind.1, accepts_pure.mpr rfl⟩)
    · exact accepts_test.mpr (.inr ⟨sees_no (by omega) (here ▸ dot), accepts_pure.mpr rfl⟩)
  | @next segments i j dot name rest ih =>
    intro steps enough
    have later := rest.le
    subst here
    refine accepts_test.mpr (.inl ⟨sees_yes (by omega) dot, ?_⟩)
    refine accepts_bind.mpr ⟨n + 1, accepts_annotations (by omega) ?_, accepts_test.mpr (.inl ⟨sees_yes (by omega) name, ?_⟩)⟩
    · rw [← Nat.add_assoc, name]
      decide
    · exact ih (Nat.add_assoc _ _ _) there within deep _ (by omega)
  | @last argument i j first closer ih =>
    intro steps enough
    obtain ⟨steps, rfl⟩ := Nat.exists_eq_succ_of_ne_zero (show steps ≠ 0 by omega)
    have later := first.le
    subst here there
    exact typeArguments_clear (accepts_annotations (by omega) first.argument_plain) (ih rfl rfl within deep)
      (argumentEnd_last (by omega) closer)
  | @more argument arguments i j k first comma rest ih ih' =>
    intro steps enough
    obtain ⟨steps, rfl⟩ := Nat.exists_eq_succ_of_ne_zero (show steps ≠ 0 by omega)
    have one := first.le
    have two := rest.le
    obtain ⟨l, rfl⟩ := Nat.exists_eq_add_of_le (show view.cursor.position ≤ j by omega)
    simp only [depthFor, TypePart.nesting] at deep
    subst here
    refine typeArguments_clear (accepts_annotations (by omega) first.argument_plain)
      (ih rfl rfl (by omega) (by simp only [depthFor]; omega)) (argumentEnd_more (by omega) comma ?_)
    exact ih' (Nat.add_assoc _ _ _) there within (by simp only [depthFor]; omega) _ (by omega)
  | @unbounded i first free =>
    obtain rfl : m = n + 1 := by omega
    subst here
    refine accepts_test.mpr (.inl ⟨sees_yes (by omega) first, ?_⟩)
    refine accepts_bind.mpr ⟨_, accepts_lift.mpr (sees (by omega) rfl), ?_⟩
    rw [if_neg (by rw [← Nat.add_assoc]; exact not_or.mpr free)]
    exact accepts_pure.mpr rfl
  | @bounded bound proper type i j first behind spans ih =>
    have later := spans.le
    subst here
    refine accepts_test.mpr (.inl ⟨sees_yes (by omega) first, ?_⟩)
    refine accepts_bind.mpr ⟨_, accepts_lift.mpr (sees (by omega) behind), ?_⟩
    rw [if_pos proper]
    obtain ⟨levels, rfl⟩ := Nat.exists_eq_succ_of_ne_zero (show levels ≠ 0 by simp only [depthFor] at deep; omega)
    exact ih (Nat.add_assoc _ _ _) there within (by simpa [depthFor, TypePart.nesting] using deep)
  | @only part i j type ih =>
    have moved := type.lt
    subst here
    obtain ⟨levels, rfl⟩ := Nat.exists_eq_succ_of_ne_zero (show levels ≠ 0 by simp only [depthFor] at deep; omega)
    refine accepts_test.mpr (.inr ⟨sees_no (by omega) type.type_plain.2, ?_⟩)
    exact ih rfl there within (by simpa [depthFor, TypePart.nesting] using deep)

theorem accepts_type {part : TypePart .type} (spans : view.cursor.stream.Spans part i j)
    (here : i = view.cursor.position + n) (there : j = view.cursor.position + m) (within : m + 1 < view.limit) :
    Accepts view (Lookahead.type n) m := by
  have inside := spans.le_size
  have moved := spans.lt
  refine accepts_bind.mpr ⟨_, accepts_lift.mpr (clear_stepLimit.mpr rfl), ?_⟩
  exact foresees spans here there within (by simp only [depthFor]; omega)

/-- Type arguments that nothing closes are not accepted as a part of a type. -/
theorem rejects_type {part : TypePart .type} (name : view.cursor.stream.kindAt (view.cursor.position + n) = .identifier)
    (angle : view.cursor.stream.kindAt (view.cursor.position + (n + 1)) = .lt)
    (argument : view.cursor.stream.Spans part (view.cursor.position + (n + 2)) (view.cursor.position + m))
    (comma : view.cursor.stream.kindAt (view.cursor.position + m) ≠ .comma)
    (closer : view.cursor.stream.kindAt (view.cursor.position + m) ≠ .gt) (within : m + 1 < view.limit) :
    Rejects view (Lookahead.type n) := by
  have inside := argument.le_size
  have moved := argument.lt
  have size := TokenStream.lt_size_of_ne_eof angle (by decide)
  have first : view.cursor.stream.kindAt (view.cursor.position + (n + 2)) ≠ .gt := by
    cases argument with
    | @primitive kind proper _ _ _ here =>
      rw [here]
      rintro rfl
      cases proper
    | named here => rw [here]; decide
  obtain ⟨levels, same⟩ := Nat.exists_eq_succ_of_ne_zero (show view.cursor.stream.size ≠ 0 by omega)
  have list : Rejects view (typeArguments (typeWithin view.cursor.stream.size) (n + 1)) := by
    refine clear_no (sees_no (by omega) first) (clear_next (accepts_lift.mpr (clear_stepLimit.mpr rfl)) ?_)
    refine typeArguments_clear (accepts_annotations (by omega) argument.type_plain.1) ?_ (argumentEnd_rejects (by omega) comma closer)
    refine accepts_test.mpr (.inr ⟨sees_no (by omega) argument.type_plain.2, ?_⟩)
    rw [same]
    exact foresees argument rfl rfl within (by simp only [depthFor]; omega)
  refine clear_next (accepts_lift.mpr (clear_stepLimit.mpr rfl)) ?_
  refine clear_next (accepts_annotations (by omega) (by rw [name]; decide)) ?_
  refine clear_next (accepts_lift.mpr (sees (by omega) name)) ?_
  rw [if_neg (by decide), if_pos rfl]
  refine clear_next (accepts_lift.mpr (clear_stepLimit.mpr rfl)) (rejects_first ?_)
  exact clear_yes (sees_yes (by omega) angle) (rejects_first list)

end Types

end Parser.Lookahead

end LosslessJava
