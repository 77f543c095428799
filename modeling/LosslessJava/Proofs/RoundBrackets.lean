import LosslessJava.Proofs.ScannedLambdas

/-! Round brackets in what a scan goes over. Of these a scan takes only whole pairs, for the arguments of annotations;
so the parameters of a lambda end where the bracket closes that they began with, with no comma in front of it. -/

namespace LosslessJava

theorem TokenStream.kinds_cons (stream : TokenStream) {first stop : Nat} (more : first < stop) :
    stream.kinds first stop = stream.kindAt first :: stream.kinds (first + 1) stop := by
  obtain ⟨rest, rfl⟩ := Nat.exists_eq_add_of_lt more
  rw [kinds, kinds, show first + rest + 1 - first = rest + 1 by omega, show first + rest + 1 - (first + 1) = rest by omega,
    List.range'_succ, List.map_cons]
  rfl

namespace Kind

def countParens (opened : Nat) : Kind → Option Nat
  | .leftParen => some (opened + 1)
  | .rightParen => if opened = 0 then none else some (opened - 1)
  | _ => some opened

def Level (kinds : List Kind) : Prop := kinds.foldlM countParens 0 = some 0

variable {kind : Kind} {kinds front back : List Kind} {opened after : Nat}

private theorem countParens_plain (opener : kind ≠ .leftParen) (closer : kind ≠ .rightParen) :
    countParens opened kind = some opened := by
  cases kind <;> first | rfl | contradiction

namespace Level

private theorem nil : Level [] := rfl

theorem one (opener : kind ≠ .leftParen) (closer : kind ≠ .rightParen) : Level [kind] := by
  simp [Level, countParens_plain opener closer]

theorem append (first : Level front) (second : Level back) : Level (front ++ back) := by
  rw [Level, List.foldlM_append, first, Option.bind_eq_bind, Option.bind_some, second]

end Level

/-- Where all brackets are well nested, the round ones are. -/
theorem Level.of_wellNested (nested : WellNested kinds) : Level kinds := by
  have counts {stack stack' : List Kind} (reads : kinds.foldlM nest stack = some stack') :
      kinds.foldlM countParens (stack.count .leftParen) = some (stack'.count .leftParen) := by
    clear nested
    induction kinds generalizing stack with
    | nil =>
      cases reads
      rfl
    | cons kind rest ih =>
      rw [List.foldlM_cons, Option.bind_eq_bind, Option.bind_eq_some_iff] at reads ⊢
      obtain ⟨inner, first, later⟩ := reads
      refine ⟨_, ?_, ih later⟩
      unfold nest at first
      split at first
      · next opens =>
        cases first
        by_cases paren : kind = .leftParen
        · subst paren
          simp [countParens]
        · have away : kind ≠ .rightParen := by rintro rfl; cases opens
          simp [countParens_plain paren away, paren]
      · next opens =>
        have paren : kind ≠ .leftParen := by rintro rfl; exact opens rfl
        split at first
        · rcases stack with _ | ⟨opener, below⟩
          · cases first
          · simp only [Option.ite_none_right_eq_some, Option.some.injEq] at first
            obtain ⟨closes, rfl⟩ := first
            by_cases closer : kind = .rightParen
            · subst closer
              obtain rfl : opener = .leftParen := by cases opener <;> first | rfl | cases closes
              simp [countParens]
            · have other : opener ≠ .leftParen := by
                rintro rfl
                cases closes
                exact closer rfl
              simp [countParens_plain paren closer, other]
        · next bracket =>
          cases first
          have closer : kind ≠ .rightParen := by rintro rfl; exact bracket rfl
          exact countParens_plain paren closer
  exact counts nested

/-- No round bracket is closed behind a level stretch of a level one. -/
theorem Level.not_closed (whole : Level (front ++ .rightParen :: back)) : ¬ Level front := by
  intro level
  rw [Level, List.foldlM_append, level] at whole
  cases whole

end Kind

namespace Parser.Lookahead

variable {view : View} {n m k steps : Nat}

structure Even (view : View) (n m : Nat) : Prop where
  le : n ≤ m
  level : Kind.Level (view.cursor.stream.kinds (view.cursor.position + n) (view.cursor.position + m))

namespace Even

theorem refl : Even view n n where
  le := Nat.le_refl n
  level := by simp [TokenStream.kinds, Kind.Level.nil]

theorem trans (one : Even view n m) (two : Even view m k) : Even view n k where
  le := Nat.le_trans one.le two.le
  level := by
    rw [← TokenStream.kinds_append _ (Nat.add_le_add_left one.le _) (Nat.add_le_add_left two.le _)]
    exact one.level.append two.level

private theorem one (opener : view.cursor.nth n ≠ .leftParen) (closer : view.cursor.nth n ≠ .rightParen) : Even view n (n + 1) where
  le := Nat.le_succ n
  level := by
    rw [TokenCursor.nth_eq] at opener closer
    have rest : Even view (n + 1) (n + 1) := refl
    rw [TokenStream.kinds_cons _ (by omega)]
    exact (Kind.Level.one opener closer).append rest.level

theorem step {kind : Kind} (here : view.cursor.nth n = kind) (away : kind ≠ .leftParen ∧ kind ≠ .rightParen)
    (rest : Even view (n + 1) m) : Even view n m :=
  (one (here ▸ away.1) (here ▸ away.2)).trans rest

end Even

private theorem nth_of_clear {kind : Kind} (found : Clear view (nthIs n kind) true) : view.cursor.nth n = kind :=
  beq_iff_eq.mp (clear_nthIs.mp found).2

private theorem closing_of_accepts {depth : Nat} (open' : 0 < depth)
    (accepts : Accepts view (closingFrom .leftParen .rightParen steps depth n) m) :
    n ≤ m ∧ (view.cursor.stream.kinds (view.cursor.position + n) (view.cursor.position + (m + 1))).foldlM
      Kind.countParens depth = some 0 := by
  induction steps generalizing depth n with
  | zero => exact absurd accepts clear_outOfSteps
  | succ steps ih =>
    have next (later : n + 1 ≤ m) : view.cursor.stream.kinds (view.cursor.position + n) (view.cursor.position + (m + 1)) =
        view.cursor.nth n :: view.cursor.stream.kinds (view.cursor.position + (n + 1)) (view.cursor.position + (m + 1)) := by
      rw [TokenStream.kinds_cons _ (by omega), TokenCursor.nth_eq]
      rfl
    unfold closingFrom at accepts
    obtain ⟨kind, seen, rest⟩ := accepts_bind.mp accepts
    have here := (clear_nth.mp (accepts_lift.mp seen)).2
    split at rest
    · exact absurd rest accepts_failure
    · split at rest
      · next opener =>
        obtain ⟨later, reads⟩ := ih (Nat.succ_pos _) rest
        refine ⟨by omega, ?_⟩
        rw [next later, here, opener]
        exact reads
      · split at rest
        · next closer =>
          split at rest
          · next last =>
            obtain rfl := accepts_pure.mp rest
            obtain rfl : depth = 1 := by omega
            refine ⟨Nat.le_refl _, ?_⟩
            rw [TokenStream.kinds_cons _ (by omega), ← TokenCursor.nth_eq, here, closer]
            simp [TokenStream.kinds, ← Nat.add_assoc, Kind.countParens]
          · next more =>
            obtain ⟨later, reads⟩ := ih (by omega) rest
            refine ⟨by omega, ?_⟩
            rw [next later, here, closer, List.foldlM_cons, Kind.countParens, if_neg (by omega)]
            exact reads
        · next opener closer =>
          obtain ⟨later, reads⟩ := ih open' rest
          refine ⟨by omega, ?_⟩
          rw [next later, here, List.foldlM_cons, Kind.countParens_plain opener closer]
          exact reads

private theorem even_of_balanced (opener : view.cursor.nth n = .leftParen) (accepts : Accepts view (balanced n) m) :
    Even view n (m + 1) := by
  obtain ⟨kind, seen, rest⟩ := (@accepts_bind _ _ _ _ _ (fun kind => by split <;> infer_instance) _).mp accepts
  obtain rfl := (clear_nth.mp (accepts_lift.mp seen)).2
  rw [opener] at rest
  obtain ⟨steps, -, rest⟩ := accepts_bind.mp rest
  cases steps with
  | zero => exact absurd rest clear_outOfSteps
  | succ steps =>
    unfold closingFrom at rest
    obtain ⟨kind, seen, rest⟩ := accepts_bind.mp rest
    obtain rfl := (clear_nth.mp (accepts_lift.mp seen)).2
    rw [opener, if_neg (by decide), if_pos rfl] at rest
    obtain ⟨later, reads⟩ := closing_of_accepts (Nat.succ_pos _) rest
    refine ⟨by omega, ?_⟩
    rw [Kind.Level, TokenStream.kinds_cons _ (by omega), ← TokenCursor.nth_eq, opener]
    exact reads

private theorem even_of_both {first second : Kind} (away : first ≠ .leftParen ∧ first ≠ .rightParen)
    (away' : second ≠ .leftParen ∧ second ≠ .rightParen)
    (found : Clear view (both (nthIs n first) (nthIs (n + 1) second)) true) : Even view n (n + 2) := by
  have both := clear_pair found
  simp only [Bool.and_eq_true, beq_iff_eq] at both
  exact .step both.1 away (.step both.2 away' .refl)

private theorem even_of_nameTail (clear : Clear view (nameTail steps n) m) : Even view n m := by
  induction steps generalizing n with
  | zero => exact absurd clear clear_outOfSteps
  | succ steps ih =>
    unfold nameTail at clear
    rcases clear_test.mp clear with ⟨found, rest⟩ | ⟨-, rest⟩
    · exact (even_of_both (by decide) (by decide) found).trans (ih rest)
    · obtain rfl := clear_pure.mp rest
      exact .refl

private theorem even_of_qualifiedName (accepts : Accepts view (qualifiedName n) m) : Even view n m := by
  unfold qualifiedName at accepts
  rcases accepts_test.mp accepts with ⟨found, rest⟩ | ⟨-, rest⟩
  · obtain ⟨steps, -, rest⟩ := accepts_bind.mp rest
    exact .step (nth_of_clear found) (by decide) (even_of_nameTail (accepts_lift.mp rest))
  · exact absurd rest accepts_failure

private theorem even_of_annotationsFrom (accepts : Accepts view (annotationsFrom steps n) m) : Even view n m := by
  induction steps generalizing n with
  | zero => exact absurd accepts clear_outOfSteps
  | succ steps ih =>
    unfold annotationsFrom at accepts
    rcases accepts_test.mp accepts with ⟨found, rest⟩ | ⟨-, rest⟩
    · have here : view.cursor.nth n = .atSign := by
        rcases clear_both.mp found with ⟨first, -⟩ | ⟨-, impossible⟩
        · exact nth_of_clear first
        · cases impossible
      obtain ⟨k, named, rest⟩ := accepts_bind.mp rest
      refine .step here (by decide) ((even_of_qualifiedName named).trans ?_)
      rcases accepts_test.mp rest with ⟨found, rest⟩ | ⟨-, rest⟩
      · obtain ⟨closer, skipped, rest⟩ := accepts_bind.mp rest
        exact (even_of_balanced (nth_of_clear found) skipped).trans (ih rest)
      · exact ih rest
    · obtain rfl := accepts_pure.mp rest
      exact .refl

private theorem even_of_annotations (accepts : Accepts view (annotations n) m) : Even view n m := by
  obtain ⟨steps, -, rest⟩ := accepts_bind.mp accepts
  exact even_of_annotationsFrom rest

private theorem even_of_localModifiers (accepts : Accepts view (localModifiers n) m) : Even view n m := by
  obtain ⟨steps, -, rest⟩ := accepts_bind.mp accepts
  clear accepts
  induction steps generalizing n with
  | zero => exact absurd rest clear_outOfSteps
  | succ steps ih =>
    unfold modifiersFrom at rest
    obtain ⟨k, annotated, rest⟩ := accepts_bind.mp rest
    refine (even_of_annotations annotated).trans ?_
    rcases accepts_test.mp rest with ⟨found, rest⟩ | ⟨-, rest⟩
    · exact .step (nth_of_clear found) (by decide) (ih rest)
    · obtain rfl := accepts_pure.mp rest
      exact .refl

private theorem even_of_dims (accepts : Accepts view (liftM (dims n)) m) :
    Even view n m ∧ (m = n ∨ ∃ last, m = last + 1 ∧ view.cursor.nth last = .rightBracket) := by
  obtain ⟨steps, -, rest⟩ := clear_bind.mp (accepts_lift.mp accepts)
  clear accepts
  induction steps generalizing n with
  | zero => exact absurd rest clear_outOfSteps
  | succ steps ih =>
    unfold dimsFrom at rest
    rcases clear_test.mp rest with ⟨found, rest⟩ | ⟨-, rest⟩
    · obtain ⟨even, last⟩ := ih rest
      refine ⟨(even_of_both (by decide) (by decide) found).trans even, .inr ?_⟩
      rcases last with rfl | last
      · have both := clear_pair found
        simp only [Bool.and_eq_true, beq_iff_eq] at both
        exact ⟨n + 1, rfl, both.2⟩
      · exact last
    · obtain rfl := clear_pure.mp rest
      exact ⟨.refl, .inl rfl⟩

section Types

variable {type : Nat → Scan Nat} [∀ n, SteadyScan (type n)] (even : ∀ {n m}, Accepts view (type n) m → Even view n m)

include even

private theorem even_of_arguments (accepts : Accepts view (typeArgumentsFrom type steps n) m) : Even view n m := by
  induction steps generalizing n with
  | zero => exact absurd accepts clear_outOfSteps
  | succ steps ih =>
    have behind {k : Nat} (rest : Accepts view (argumentEnd type steps k) m) : Even view k m := by
      rcases argumentEnd_of_accepts rest with ⟨comma, rest⟩ | ⟨closer, rfl⟩
      · rw [← TokenCursor.nth_eq] at comma
        exact .step comma (by decide) (ih rest)
      · rw [← TokenCursor.nth_eq] at closer
        exact .step closer (by decide) .refl
    have steady (n : Nat) := @steady_argumentEnd n steps type _
    unfold typeArgumentsFrom at accepts
    obtain ⟨b, annotated, argument⟩ := accepts_bind.mp accepts
    refine (even_of_annotations annotated).trans ?_
    rcases accepts_test.mp argument with ⟨found, wildcard⟩ | ⟨-, type⟩
    · refine .step (nth_of_clear found) (by decide) ?_
      obtain ⟨bound, next, wildcard⟩ := accepts_bind.mp wildcard
      have next := (clear_nth.mp (accepts_lift.mp next)).2
      split at wildcard
      · next bounds =>
        obtain ⟨k, type, rest⟩ := accepts_bind.mp wildcard
        have away : bound ≠ .leftParen ∧ bound ≠ .rightParen := by rcases bounds with rfl | rfl <;> decide
        exact .step next away ((even type).trans (behind rest))
      · obtain ⟨k, same, rest⟩ := accepts_bind.mp wildcard
        obtain rfl := accepts_pure.mp same
        exact behind rest
    · obtain ⟨k, type, rest⟩ := accepts_bind.mp type
      exact (even type).trans (behind rest)

private theorem even_of_segments (accepts : Accepts view (typeSegments type steps n) m) : Even view n m := by
  induction steps generalizing n with
  | zero => exact absurd accepts clear_outOfSteps
  | succ steps ih =>
    unfold typeSegments at accepts
    have goesOn {k : Nat} (rest : Accepts view (do
        if ← nthIs k .dot then
          let after ← annotations (k + 1)
          if ← nthIs after .identifier then typeSegments type steps (after + 1) else return k
        else
          return k) m) : Even view k m := by
      rcases accepts_test.mp rest with ⟨found, rest⟩ | ⟨-, rest⟩
      · obtain ⟨b, annotated, rest⟩ := accepts_bind.mp rest
        rcases accepts_test.mp rest with ⟨named, rest⟩ | ⟨-, rest⟩
        · exact .step (nth_of_clear found) (by decide)
            ((even_of_annotations annotated).trans (.step (nth_of_clear named) (by decide) (ih rest)))
        · obtain rfl := accepts_pure.mp rest
          exact .refl
      · obtain rfl := accepts_pure.mp rest
        exact .refl
    rcases accepts_test.mp accepts with ⟨found, rest⟩ | ⟨-, rest⟩
    · have opener := nth_of_clear found
      obtain ⟨k, arguments, rest⟩ := accepts_bind.mp rest
      refine .trans ?_ (goesOn rest)
      unfold typeArguments at arguments
      rcases accepts_test.mp arguments with ⟨found, same⟩ | ⟨-, some⟩
      · obtain rfl := accepts_pure.mp same
        exact .step opener (by decide) (.step (nth_of_clear found) (by decide) .refl)
      · obtain ⟨limit, -, some⟩ := accepts_bind.mp some
        exact .step opener (by decide) (even_of_arguments even some)
    · obtain ⟨k, same, rest⟩ := accepts_bind.mp rest
      obtain rfl := accepts_pure.mp same
      exact goesOn rest

end Types

private theorem away_of_primitive {kind : Kind} (primitive : kind.isPrimitiveType = true) :
    kind ≠ .leftParen ∧ kind ≠ .rightParen := by
  constructor <;> (rintro rfl; cases primitive)

private theorem even_of_typeWithin {levels : Nat} (accepts : Accepts view (typeWithin levels n) m) : Even view n m := by
  induction levels generalizing n m with
  | zero => exact absurd accepts clear_outOfSteps
  | succ levels ih =>
    unfold typeWithin at accepts
    obtain ⟨b, annotated, element⟩ := accepts_bind.mp accepts
    refine (even_of_annotations annotated).trans ?_
    obtain ⟨kind, seen, element⟩ := accepts_bind.mp element
    have here := (clear_nth.mp (accepts_lift.mp seen)).2
    split at element
    · next primitive => exact .step here (away_of_primitive primitive) (even_of_dims element).1
    · split at element
      · next name =>
        obtain ⟨steps, -, element⟩ := accepts_bind.mp element
        obtain ⟨k, segments, dims⟩ := accepts_bind.mp element
        exact .step (here.trans name) (by decide) ((even_of_segments ih segments).trans (even_of_dims dims).1)
      · exact absurd element accepts_failure

private theorem even_of_type (accepts : Accepts view (type n) m) : Even view n m := by
  obtain ⟨levels, -, rest⟩ := accepts_bind.mp accepts
  exact even_of_typeWithin rest

/-- Parameters that are scanned from `n` on end at `m` with a bracket that none of them opened, and not with a comma. -/
structure Closes (view : View) (n m : Nat) : Prop extends Even view n m where
  closer : view.cursor.nth m = .rightParen
  last : ∀ before, m = before + 1 → n ≤ before → view.cursor.nth before ≠ .comma

theorem Closes.behind (even : Even view n k) (closes : Closes view k m)
    (last : k = m → ∀ before, m = before + 1 → n ≤ before → view.cursor.nth before ≠ .comma) : Closes view n m where
  toEven := even.trans closes.toEven
  closer := closes.closer
  last before same inside := by
    by_cases here : k ≤ before
    · exact closes.last before same here
    · have le := closes.le
      exact last (by omega) before same inside

private theorem closes_of_bareParams (accepts : Accepts view (bareParams steps n) m) : Closes view n m ∧ n < m := by
  induction steps generalizing n with
  | zero => exact absurd accepts clear_outOfSteps
  | succ steps ih =>
    have behind := @steady_bareParams n steps
    unfold bareParams at accepts
    obtain ⟨name, seen, rest⟩ := accepts_bind.mp accepts
    obtain ⟨next, seen', rest⟩ := accepts_bind.mp rest
    have name := (clear_nth.mp (accepts_lift.mp seen)).2
    have next := (clear_nth.mp (accepts_lift.mp seen')).2
    split at rest
    · obtain ⟨closes, more⟩ := ih rest
      exact ⟨.behind (.step name (by decide) (.step next (by decide) .refl)) closes fun same => by omega, by omega⟩
    · obtain rfl := accepts_pure.mp rest
      refine ⟨⟨.step name (by decide) .refl, next, fun before same inside => ?_⟩, Nat.lt_succ_self _⟩
      obtain rfl : n = before := by omega
      rw [name]
      decide
    · exact absurd rest accepts_failure

private theorem closes_of_typedParams (accepts : Accepts view (typedParams steps n) m) : Closes view n m ∧ n < m := by
  induction steps generalizing n with
  | zero => exact absurd accepts clear_outOfSteps
  | succ steps ih =>
    have behind (n : Nat) := @steady_paramEnd n steps
    unfold typedParams at accepts
    obtain ⟨start, modified, rest⟩ := accepts_bind.mp accepts
    obtain ⟨stop, accepted, rest⟩ := accepts_bind.mp rest
    obtain ⟨place, annotated, rest⟩ := accepts_bind.mp rest
    obtain ⟨variadic, found, rest⟩ := accepts_bind.mp rest
    have type := (even_of_localModifiers modified).trans ((even_of_type accepted).trans (even_of_annotations annotated))
    rcases accepts_test.mp rest with ⟨found', rest⟩ | ⟨-, rest⟩
    · have named := nth_of_clear found'
      obtain ⟨close, dims, rest⟩ := accepts_bind.mp rest
      obtain ⟨pairs, last⟩ := even_of_dims dims
      have before : Even view n (if variadic = true then place + 1 else place) := by
        split
        · next dots =>
          subst dots
          exact type.trans (.step (nth_of_clear (accepts_lift.mp found)) (by decide) .refl)
        · exact type
      have param := before.trans (.step named (by decide) pairs)
      have moved := pairs.le
      have early := before.le
      rcases paramEnd_of_accepts rest with ⟨comma, rest⟩ | ⟨closer, rfl⟩
      · rw [← TokenCursor.nth_eq] at comma
        obtain ⟨closes, more⟩ := ih rest
        exact ⟨.behind (param.trans (.step comma (by decide) .refl)) closes fun same => by omega, by omega⟩
      · rw [← TokenCursor.nth_eq] at closer
        refine ⟨⟨param, closer, fun before same inside => ?_⟩, by omega⟩
        rcases last with same' | ⟨bracket, same', there⟩
        · rw [show before = if variadic = true then place + 1 else place by omega, named]
          decide
        · rw [show before = bracket by omega, there]
          decide
    · exact absurd rest accepts_failure

private theorem closes_of_lambdaParams (accepts : Accepts view (lambdaParams n) m) : Closes view n m := by
  unfold lambdaParams at accepts
  obtain ⟨kind, seen, rest⟩ := accepts_bind.mp accepts
  have here := (clear_nth.mp (accepts_lift.mp seen)).2
  have typed (rest : Accepts view (do typedParams (← stepLimit) n) m) : Closes view n m := by
    obtain ⟨steps, -, rest⟩ := accepts_bind.mp rest
    exact (closes_of_typedParams rest).1
  split at rest
  · next closer =>
    obtain rfl := accepts_pure.mp rest
    exact ⟨.refl, here.trans closer, fun before same inside => by omega⟩
  · split at rest
    · obtain ⟨next, -, rest⟩ := accepts_bind.mp rest
      split at rest
      · obtain ⟨steps, -, rest⟩ := accepts_bind.mp rest
        exact (closes_of_bareParams rest).1
      · exact typed rest
    · exact typed rest

/-- Where round brackets are closed, a scan for the parameters of a lambda ends with the bracket that closes theirs, and
no comma stands in front of it. -/
theorem not_comma_of_lambdaParams {first place : Nat} (here : first = view.cursor.position + 1) (later : first ≤ place)
    (accepts : Accepts view (lambdaParams 1) m) (level : Kind.Level (view.cursor.stream.kinds first place))
    (closer : view.cursor.stream.kindAt place = .rightParen) :
    ∀ before, place = before + 1 → first ≤ before → view.cursor.stream.kindAt before ≠ .comma := by
  have closes := closes_of_lambdaParams accepts
  subst here
  have split {i j : Nat} (one : view.cursor.position + 1 ≤ i) (two : i < j) (bracket : view.cursor.stream.kindAt i = .rightParen) :
      view.cursor.stream.kinds (view.cursor.position + 1) j =
        view.cursor.stream.kinds (view.cursor.position + 1) i ++ .rightParen :: view.cursor.stream.kinds (i + 1) j := by
    rw [← bracket, ← TokenStream.kinds_cons _ two, TokenStream.kinds_append _ one (Nat.le_of_lt two)]
  have stops := closes.closer
  rw [TokenCursor.nth_eq] at stops
  have le := closes.le
  obtain rfl : place = view.cursor.position + m := by
    rcases Nat.lt_trichotomy place (view.cursor.position + m) with less | same | more
    · have own := closes.level
      rw [split later less closer] at own
      exact absurd level own.not_closed
    · exact same
    · rw [split (Nat.add_le_add_left le _) more stops] at level
      exact absurd closes.level level.not_closed
  intro before same inside
  have away := closes.last (before - view.cursor.position) (by omega) (by omega)
  rw [TokenCursor.nth_eq] at away
  rwa [show view.cursor.position + (before - view.cursor.position) = before by omega] at away

end Parser.Lookahead

end LosslessJava
