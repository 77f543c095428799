import LosslessJava.Grammar

/-! Token streams that differ in layout only. The same tokens stand in the same order; they may lie
further apart or closer together, but for the two places where it matters whether tokens touch: in an
operator made of `>`, and in `non-sealed`. Nothing that the grammar asks a cursor tells them apart. -/

namespace LosslessJava

open LosslessJava.Parser (isWordAt)

namespace TokenStream

/-- Whether a token and the one behind it touch. -/
def touches (stream : TokenStream) (index : Nat) : Bool := (TokenCursor.mk stream index).isJoint 0

def kindAt (stream : TokenStream) (index : Nat) : Kind := (stream.tokenAt index).kind

def textAt (stream : TokenStream) (index : Nat) : String := (stream.tokenAt index).range.slice stream.text

/-- Whether a `>` stands there which an operator may be made of together with the token behind it. -/
def opensAngle (stream : TokenStream) (index : Nat) : Bool :=
  stream.kindAt index == .gt && (stream.kindAt (index + 1) == .gt || stream.kindAt (index + 1) == .eq)

/-- Whether the words of `non-sealed` stand there, touching or not. -/
def spellsNonSealed (stream : TokenStream) (index : Nat) : Bool :=
  let cursor : TokenCursor := ⟨stream, index⟩
  cursor.current == .identifier && cursor.nthText 0 == "non" && cursor.nth 1 == .minus
    && isWordAt cursor 2 .sealedKw

/-- Two streams that differ in layout only. -/
structure Alike (one two : TokenStream) : Prop where
  size : one.size = two.size
  kinds : ∀ index < one.size, one.kindAt index = two.kindAt index
  texts : ∀ index < one.size, one.textAt index = two.textAt index
  angles : ∀ index < one.size, one.opensAngle index = true → one.touches index = two.touches index
  hyphens : ∀ index < one.size, one.spellsNonSealed index = true →
    one.touches index = two.touches index ∧ one.touches (index + 1) = two.touches (index + 1)

variable {one two : TokenStream}

theorem tokenAt_min (stream : TokenStream) (index : Nat) :
    stream.tokenAt (min index (stream.size - 1)) = stream.tokenAt index := by
  simp only [tokenAt, Nat.min_assoc, Nat.min_self]

theorem min_lt_size (stream : TokenStream) (index : Nat) : min index (stream.size - 1) < stream.size := by
  have := stream.size_pos
  omega

namespace Alike

theorem kind (alike : one.Alike two) (index : Nat) : one.kindAt index = two.kindAt index := by
  have same := alike.kinds _ (one.min_lt_size index)
  unfold kindAt at same ⊢
  rw [← tokenAt_min one, same, alike.size, tokenAt_min]

theorem text (alike : one.Alike two) (index : Nat) : one.textAt index = two.textAt index := by
  have same := alike.texts _ (one.min_lt_size index)
  unfold textAt at same ⊢
  rw [← tokenAt_min one, same, alike.size, tokenAt_min]

theorem refl (stream : TokenStream) : stream.Alike stream :=
  ⟨rfl, fun _ _ => rfl, fun _ _ => rfl, fun _ _ _ => rfl, fun _ _ _ => ⟨rfl, rfl⟩⟩

end Alike

end TokenStream

namespace TokenCursor

/-- The same place in two streams that differ in layout only. -/
structure Alike (c d : TokenCursor) : Prop where
  streams : c.stream.Alike d.stream
  position : c.position = d.position

theorem nth_eq (cursor : TokenCursor) (n : Nat) : cursor.nth n = cursor.stream.kindAt (cursor.position + n) :=
  congrArg Token.kind (cursor.stream.tokenAt_min _)

theorem nthText_eq (cursor : TokenCursor) (n : Nat) :
    cursor.nthText n = cursor.stream.textAt (cursor.position + n) :=
  congrArg (fun token : Token => token.range.slice cursor.stream.text) (cursor.stream.tokenAt_min _)

theorem isJoint_eq (cursor : TokenCursor) (n : Nat) :
    cursor.isJoint n = cursor.stream.touches (cursor.position + n) := rfl

theorem touches_of_behind {stream : TokenStream} {index : Nat} (behind : stream.size ≤ index + 1) :
    stream.touches index = false := by
  have same : min index (stream.size - 1) = min (index + 1) (stream.size - 1) := by omega
  simp only [TokenStream.touches, isJoint, TokenCursor.index, Nat.add_zero, Nat.zero_add, same, bne_self_eq_false,
    Bool.false_and]

variable {c d : TokenCursor}

namespace Alike

theorem nth (alike : c.Alike d) (n : Nat) : c.nth n = d.nth n := by
  rw [nth_eq, nth_eq, alike.streams.kind, alike.position]

theorem current (alike : c.Alike d) : c.current = d.current := alike.nth 0

theorem nthText (alike : c.Alike d) (n : Nat) : c.nthText n = d.nthText n := by
  rw [nthText_eq, nthText_eq, alike.streams.text, alike.position]

theorem size (alike : c.Alike d) : c.stream.size = d.stream.size := alike.streams.size

theorem isWordAt (alike : c.Alike d) (n : Nat) (keyword : Kind) : isWordAt c n keyword = isWordAt d n keyword := by
  simp only [Parser.isWordAt, alike.nth, alike.nthText]

theorem spellsNonSealed (alike : c.Alike d) :
    c.stream.spellsNonSealed c.position = d.stream.spellsNonSealed d.position := by
  show (c.current == _ && _ && _ && _) = (d.current == _ && _ && _ && _)
  simp only [alike.current, alike.nth, alike.nthText, alike.isWordAt]

private theorem isJoint_of_angle (alike : c.Alike d) {n : Nat} (angle : c.nth n = .gt)
    (behind : c.nth (n + 1) = .gt ∨ c.nth (n + 1) = .eq) : c.isJoint n = d.isJoint n := by
  rw [isJoint_eq, isJoint_eq, ← alike.position]
  by_cases inside : c.position + n < c.stream.size
  · apply alike.streams.angles _ inside
    rw [nth_eq] at angle behind
    rw [← Nat.add_assoc] at behind
    simpa [TokenStream.opensAngle, angle] using behind
  · have size := alike.size
    rw [touches_of_behind (by omega), touches_of_behind (by omega)]

private theorem isJoint_of_nonSealed (alike : c.Alike d) (spelled : c.stream.spellsNonSealed c.position = true) :
    c.isJoint 0 = d.isJoint 0 ∧ c.isJoint 1 = d.isJoint 1 := by
  rw [isJoint_eq, isJoint_eq, isJoint_eq, isJoint_eq, ← alike.position]
  by_cases inside : c.position < c.stream.size
  · exact alike.streams.hyphens _ inside spelled
  · have size := alike.size
    rw [touches_of_behind (by omega), touches_of_behind (by omega), touches_of_behind (by omega),
      touches_of_behind (by omega)]
    exact ⟨rfl, rfl⟩

end Alike

end TokenCursor

theorem TokenStream.Alike.symm {one two : TokenStream} (alike : one.Alike two) : two.Alike one where
  size := alike.size.symm
  kinds index _ := (alike.kind index).symm
  texts index _ := (alike.text index).symm
  angles index inside opens := by
    refine (alike.angles index (alike.size ▸ inside) ?_).symm
    simpa only [opensAngle, alike.kind] using opens
  hyphens index inside spelled := by
    have same : one.spellsNonSealed index = two.spellsNonSealed index :=
      @TokenCursor.Alike.spellsNonSealed ⟨one, index⟩ ⟨two, index⟩ ⟨alike, rfl⟩
    obtain ⟨first, second⟩ := alike.hyphens index (alike.size ▸ inside) (same.trans spelled)
    exact ⟨first.symm, second.symm⟩

namespace TokenCursor

structure Touching (cursor : TokenCursor) (count : Nat) : Prop where
  positive : 0 < count
  joint : ∀ n, n + 1 < count → cursor.isJoint n = true

theorem touching_one (cursor : TokenCursor) : cursor.Touching 1 := ⟨Nat.one_pos, fun _ inside => by omega⟩

end TokenCursor

namespace Grammar

open LosslessJava.Parser

variable {c d : TokenCursor}

section Questions

def Operator.goesOn (cursor : TokenCursor) (n : Nat) (kind : Kind) : Bool :=
  cursor.nth (n + 1) == kind && cursor.isJoint n

theorem angle_eq (cursor : TokenCursor) : Operator.angle cursor =
    if Operator.goesOn cursor 0 .gt then
      if Operator.goesOn cursor 1 .gt then
        if Operator.goesOn cursor 2 .eq then ⟨.ushrEq, 4, .assignment⟩ else ⟨.ushr, 3, .shift⟩
      else if Operator.goesOn cursor 1 .eq then ⟨.shrEq, 3, .assignment⟩ else ⟨.shr, 2, .shift⟩
    else if Operator.goesOn cursor 0 .eq then ⟨.gtEq, 2, .relational⟩ else ⟨.gt, 1, .relational⟩ := rfl

theorem joint_of_goesOn {cursor : TokenCursor} {n : Nat} {kind : Kind}
    (goes : Operator.goesOn cursor n kind = true) : cursor.nth (n + 1) = kind ∧ cursor.isJoint n = true := by
  simpa [Operator.goesOn] using goes

private theorem goesOn_alike (alike : c.Alike d) {n : Nat} (before : c.nth n = .gt) {kind : Kind}
    (closing : kind = .gt ∨ kind = .eq) : Operator.goesOn c n kind = Operator.goesOn d n kind := by
  unfold Operator.goesOn
  rw [← alike.nth]
  by_cases same : c.nth (n + 1) = kind
  · rw [alike.isJoint_of_angle before (same ▸ closing)]
  · rw [beq_false_of_ne same, Bool.false_and, Bool.false_and]

private theorem angle_alike (alike : c.Alike d) (here : c.current = .gt) : Operator.angle c = Operator.angle d := by
  have gt {n : Nat} (before : c.nth n = .gt) := goesOn_alike alike before (.inl rfl)
  have eq {n : Nat} (before : c.nth n = .gt) := goesOn_alike alike before (.inr rfl)
  rw [angle_eq, angle_eq, ← gt here, ← eq here]
  by_cases first : Operator.goesOn c 0 .gt = true
  · have next := (joint_of_goesOn first).1
    rw [if_pos first, if_pos first, ← gt next, ← eq next]
    by_cases second : Operator.goesOn c 1 .gt = true
    · rw [if_pos second, if_pos second, ← eq (joint_of_goesOn second).1]
    · rw [if_neg second, if_neg second]
  · rw [if_neg first, if_neg first]

/-- The tokens that an operator is made of touch. -/
theorem touching_of_operator {op : Operator} (here : Operator.at? c = some op) : c.Touching op.rawCount := by
  unfold Operator.at? at here
  split at here
  · obtain rfl := Option.some.inj here
    have all (n : Nat) (kind : Kind) (goes : Operator.goesOn c n kind = true) : c.isJoint n = true :=
      (joint_of_goesOn goes).2
    rw [angle_eq]
    repeat' split
    all_goals
      refine ⟨Nat.succ_pos _, fun n inside => ?_⟩
      simp only at inside
      obtain rfl | rfl | rfl : n = 0 ∨ n = 1 ∨ n = 2 := by omega
      all_goals first | omega | exact all _ _ ‹_›
  · obtain ⟨power, -, rfl⟩ := Option.map_eq_some_iff.mp here
    exact c.touching_one

/-- Two streams that differ in layout only have the same operators. -/
theorem operator_alike (alike : c.Alike d) : Operator.at? c = Operator.at? d := by
  simp only [Operator.at?, ← alike.current]
  split
  · next here => rw [angle_alike alike here]
  · rfl

theorem isSealed_alike (alike : c.Alike d) : isSealed c = isSealed d := by
  simp only [isSealed, alike.nth, alike.nthText, alike.isWordAt]

private theorem isNonSealed_eq (cursor : TokenCursor) : isNonSealed cursor =
    (cursor.stream.spellsNonSealed cursor.position && cursor.isJoint 0 && cursor.isJoint 1) := rfl

theorem isNonSealed_alike (alike : c.Alike d) : isNonSealed c = isNonSealed d := by
  rw [isNonSealed_eq, isNonSealed_eq, ← alike.spellsNonSealed]
  cases here : c.stream.spellsNonSealed c.position with
  | false => rfl
  | true =>
    obtain ⟨first, second⟩ := alike.isJoint_of_nonSealed here
    rw [first, second]

theorem touching_of_nonSealed (here : isNonSealed c = true) : c.Touching 3 := by
  rw [isNonSealed_eq, Bool.and_eq_true, Bool.and_eq_true] at here
  refine ⟨Nat.succ_pos _, fun n inside => ?_⟩
  obtain rfl | rfl : n = 0 ∨ n = 1 := by omega
  · exact here.1.2
  · exact here.2

theorem isTypeDecl_alike (alike : c.Alike d) : isTypeDecl c = isTypeDecl d := by
  simp only [isTypeDecl, isRecordDecl, alike.current, alike.nth, alike.isWordAt]

theorem isModuleDecl_alike (alike : c.Alike d) : isModuleDecl c = isModuleDecl d := by
  simp only [isModuleDecl, alike.nth, alike.isWordAt]

theorem isYieldStmt_alike (alike : c.Alike d) : isYieldStmt c = isYieldStmt d := by
  simp only [isYieldStmt, alike.nth, alike.isWordAt]

private theorem nameTailEnd_alike (alike : c.Alike d) (n : Nat) : nameTailEnd c n = nameTailEnd d n := by
  fun_induction nameTailEnd c n with
  | case1 n pair ih => rw [nameTailEnd.eq_def d n, ← alike.nth, ← alike.nth, if_pos pair, ih]
  | case2 n none => rw [nameTailEnd.eq_def d n, ← alike.nth, ← alike.nth, if_neg none]

private theorem parensEnd_alike (alike : c.Alike d) (depth n : Nat) : parensEnd? c depth n = parensEnd? d depth n := by
  fun_induction parensEnd? c depth n with
  | case1 depth n ended => rw [parensEnd?.eq_def d, ← alike.nth, if_pos ended]
  | case2 depth n more opens ih => rw [parensEnd?.eq_def d depth n, ← alike.nth, if_neg more, if_pos opens, ih]
  | case3 depth n more other closes last =>
    rw [parensEnd?.eq_def d, ← alike.nth, if_neg more, if_neg other, if_pos closes, if_pos last]
  | case4 depth n more other closes inner ih =>
    rw [parensEnd?.eq_def d depth n, ← alike.nth, if_neg more, if_neg other, if_pos closes, if_neg inner, ih]
  | case5 depth n more other inside ih =>
    rw [parensEnd?.eq_def d depth n, ← alike.nth, if_neg more, if_neg other, if_neg inside, ih]

private theorem annotationsThen_eq (cursor : TokenCursor) (kind : Kind) (n : Nat) :
    annotationsThen cursor kind n =
      if cursor.nth n = .atSign then
        if cursor.nth (nameTailEnd cursor (n + 2)) = .leftParen then
          (parensEnd? cursor 0 (nameTailEnd cursor (n + 2))).elim false (annotationsThen cursor kind)
        else annotationsThen cursor kind (nameTailEnd cursor (n + 2))
      else cursor.nth n == kind := by
  rw [annotationsThen.eq_def]
  dsimp only
  cases parensEnd? cursor 0 (nameTailEnd cursor (n + 2)) <;> rfl

theorem annotationsThen_alike (alike : c.Alike d) (kind : Kind) (n : Nat) :
    annotationsThen c kind n = annotationsThen d kind n := by
  fun_induction annotationsThen c kind n with
  | case1 n here behind opens close closed ih =>
    rw [annotationsThen_eq d, ← alike.nth, if_pos here, ← nameTailEnd_alike alike, ← alike.nth, if_pos opens,
      ← parensEnd_alike alike, closed, ih, Option.elim_some]
  | case2 n here behind opens unclosed =>
    rw [annotationsThen_eq d, ← alike.nth, if_pos here, ← nameTailEnd_alike alike, ← alike.nth, if_pos opens,
      ← parensEnd_alike alike, unclosed, Option.elim_none]
  | case3 n here behind bare ih =>
    rw [annotationsThen_eq d, ← alike.nth, if_pos here, ← nameTailEnd_alike alike, ← alike.nth, if_neg bare, ih]
  | case4 n away => rw [annotationsThen_eq d, ← alike.nth, if_neg away]

end Questions

end Grammar

namespace Parser.Lookahead

set_option synthInstance.maxSize 2000

variable {α β : Type}

class Steady (peek : Peek α) : Prop where
  same : ∀ {c d : TokenCursor}, c.Alike d → ∀ limit, peek ⟨c, limit⟩ = peek ⟨d, limit⟩
  remembers : ∀ {view a hit}, peek view true = some (a, hit) → hit = true

class SteadyScan (scan : Scan α) : Prop where
  steady : Steady scan.run

section Ways

instance {a : α} : Steady (Pure.pure a) := ⟨fun _ _ => rfl, fun same => (Prod.mk.inj (Option.some.inj same)).2.symm⟩

instance : Steady (outOfSteps : Peek α) := ⟨fun _ _ => rfl, fun none => nomatch none⟩

theorem Steady.andThen {first : Peek β} {next : β → Peek α} (one : Steady first) (two : ∀ b, Steady (next b)) :
    Steady (first >>= next) where
  same {c d} alike limit := by
    funext hit
    have one := congrFun (one.same alike limit) hit
    show (first ⟨c, limit⟩ hit).bind (fun (b, after) => next b ⟨c, limit⟩ after) =
      (first ⟨d, limit⟩ hit).bind fun (b, after) => next b ⟨d, limit⟩ after
    rw [one]
    congr 1
    funext ⟨b, after⟩
    exact congrFun ((two b).same alike limit) after
  remembers ran := by
    obtain ⟨⟨b, hit⟩, first, rest⟩ := Option.bind_eq_some_iff.mp ran
    obtain rfl := one.remembers first
    exact (two b).remembers rest

instance {first : Peek β} {next : β → Peek α} [one : Steady first] [two : ∀ b, Steady (next b)] :
    Steady (first >>= next) := .andThen one two

instance {c : Prop} [Decidable c] {yes no : Peek α} [one : Steady yes] [other : Steady no] :
    Steady (if c then yes else no) := by
  split
  · exact one
  · exact other

instance {scan : Scan α} [steady : SteadyScan scan] : Steady scan.run := steady.steady

instance {a : α} : SteadyScan (Pure.pure a) := ⟨inferInstanceAs (Steady (Pure.pure (some a)))⟩

instance : SteadyScan (failure : Scan α) := ⟨inferInstanceAs (Steady (Pure.pure none))⟩

instance {peek : Peek α} [steady : Steady peek] : SteadyScan (liftM peek) :=
  ⟨inferInstanceAs (Steady (peek >>= fun a => Pure.pure (some a)))⟩

theorem SteadyScan.andThen {first : Scan β} {next : β → Scan α} (one : SteadyScan first)
    (two : ∀ b, SteadyScan (next b)) : SteadyScan (first >>= next) where
  steady := by
    rw [OptionT.run_bind]
    refine one.steady.andThen fun found => ?_
    cases found with
    | none => exact inferInstanceAs (Steady (Pure.pure none))
    | some b => exact (two b).steady

instance {first : Scan β} {next : β → Scan α} [one : SteadyScan first] [two : ∀ b, SteadyScan (next b)] :
    SteadyScan (first >>= next) := .andThen one two

instance {c : Prop} [Decidable c] {yes no : Scan α} [one : SteadyScan yes] [other : SteadyScan no] :
    SteadyScan (if c then yes else no) := by
  split
  · exact one
  · exact other

end Ways

theorem Steady.look {next : View → Peek α}
    (same : ∀ {c d : TokenCursor}, c.Alike d → ∀ limit, next ⟨c, limit⟩ = next ⟨d, limit⟩)
    (steady : ∀ view, Steady (next view)) : Steady (read >>= next) where
  same {c d} alike limit := by
    show next ⟨c, limit⟩ ⟨c, limit⟩ = next ⟨d, limit⟩ ⟨d, limit⟩
    rw [same alike]
    exact (steady _).same alike limit
  remembers {view _ _} ran := (steady view).remembers ran

section Looks

instance {n : Nat} : Steady (nth n) := by
  have beyond : Steady (do set true; return Kind.eof) :=
    ⟨fun _ _ => rfl, fun same => (Prod.mk.inj (Option.some.inj same)).2.symm⟩
  unfold nth
  exact .look (fun alike _ => by simp only [alike.nth]) fun _ => inferInstance

instance {n : Nat} {kind : Kind} : Steady (nthIs n kind) := by
  unfold nthIs
  infer_instance

instance {n : Nat} {keyword : Kind} : Steady (nthIsWord n keyword) := by
  have spelled : Steady (do return isWordAt (← read).cursor n keyword) :=
    .look (fun alike _ => by simp only [alike.isWordAt]) fun _ => inferInstance
  unfold nthIsWord
  infer_instance

instance : Steady stepLimit := .look (fun alike _ => by simp only [alike.size]) fun _ => inferInstance

instance {first second : Peek Bool} [Steady first] [Steady second] : Steady (both first second) := by
  unfold both
  infer_instance

instance {opener closer : Kind} {steps depth i : Nat} : SteadyScan (closingFrom opener closer steps depth i) := by
  induction steps generalizing depth i with
  | zero => exact inferInstanceAs (SteadyScan (liftM outOfSteps))
  | succ steps ih =>
    unfold closingFrom
    infer_instance

instance {n : Nat} : SteadyScan (balanced n) := by
  refine .andThen inferInstance fun opener => ?_
  split <;> infer_instance

instance {steps n : Nat} : Steady (nameTail steps n) := by
  induction steps generalizing n with
  | zero => exact inferInstanceAs (Steady outOfSteps)
  | succ steps ih =>
    unfold nameTail
    infer_instance

instance {n : Nat} : SteadyScan (qualifiedName n) := by
  unfold qualifiedName
  infer_instance

instance {steps n : Nat} : SteadyScan (annotationsFrom steps n) := by
  induction steps generalizing n with
  | zero => exact inferInstanceAs (SteadyScan (liftM outOfSteps))
  | succ steps ih =>
    unfold annotationsFrom
    infer_instance

instance {n : Nat} : SteadyScan (annotations n) := by
  unfold annotations
  infer_instance

instance {accepts : Nat → Peek Bool} [∀ n, Steady (accepts n)] {steps n : Nat} :
    SteadyScan (modifiersFrom accepts steps n) := by
  induction steps generalizing n with
  | zero => exact inferInstanceAs (SteadyScan (liftM outOfSteps))
  | succ steps ih =>
    unfold modifiersFrom
    infer_instance

instance {n : Nat} : SteadyScan (localModifiers n) := by
  unfold localModifiers
  infer_instance

instance {n : Nat} : SteadyScan (modifiers n) := by
  unfold modifiers
  infer_instance

instance {steps n : Nat} : Steady (dimsFrom steps n) := by
  induction steps generalizing n with
  | zero => exact inferInstanceAs (Steady outOfSteps)
  | succ steps ih =>
    unfold dimsFrom
    infer_instance

instance {n : Nat} : Steady (dims n) := by
  unfold dims
  infer_instance

section Types

variable {type : Nat → Scan Nat} [∀ n, SteadyScan (type n)]

instance {steps n : Nat} : SteadyScan (typeArgumentsFrom type steps n) := by
  induction steps generalizing n with
  | zero => exact inferInstanceAs (SteadyScan (liftM outOfSteps))
  | succ steps ih =>
    have rest (n : Nat) : SteadyScan (do
        match ← nth n with
        | .comma => typeArgumentsFrom type steps (n + 1)
        | .gt => return n + 1
        | _ => failure) := by
      refine .andThen inferInstance fun kind => ?_
      split <;> infer_instance
    unfold typeArgumentsFrom
    infer_instance

instance {n : Nat} : SteadyScan (typeArguments type n) := by
  unfold typeArguments
  infer_instance

instance {steps n : Nat} : SteadyScan (typeSegments type steps n) := by
  induction steps generalizing n with
  | zero => exact inferInstanceAs (SteadyScan (liftM outOfSteps))
  | succ steps ih =>
    unfold typeSegments
    infer_instance

end Types

instance {levels n : Nat} : SteadyScan (typeWithin levels n) := by
  induction levels generalizing n with
  | zero => exact inferInstanceAs (SteadyScan (liftM outOfSteps))
  | succ levels ih =>
    unfold typeWithin
    infer_instance

instance {n : Nat} : SteadyScan (type n) := by
  unfold type
  infer_instance

instance {steps n : Nat} : SteadyScan (intersectionFrom steps n) := by
  induction steps generalizing n with
  | zero => exact inferInstanceAs (SteadyScan (liftM outOfSteps))
  | succ steps ih =>
    unfold intersectionFrom
    infer_instance

instance {n : Nat} : SteadyScan (castType n) := by
  unfold castType
  infer_instance

instance {steps n : Nat} : SteadyScan (bareParams steps n) := by
  induction steps generalizing n with
  | zero => exact inferInstanceAs (SteadyScan (liftM outOfSteps))
  | succ steps ih =>
    unfold bareParams
    refine .andThen inferInstance fun name => .andThen inferInstance fun next => ?_
    split <;> infer_instance

instance {steps n : Nat} : SteadyScan (typedParams steps n) := by
  induction steps generalizing n with
  | zero => exact inferInstanceAs (SteadyScan (liftM outOfSteps))
  | succ steps ih =>
    have rest (n : Nat) : SteadyScan (do
        match ← nth n with
        | .comma => typedParams steps (n + 1)
        | .rightParen => return n
        | _ => failure) := by
      refine .andThen inferInstance fun kind => ?_
      split <;> infer_instance
    unfold typedParams
    infer_instance

instance {n : Nat} : SteadyScan (lambdaParams n) := by
  unfold lambdaParams
  infer_instance

instance {n : Nat} : Steady (startsCastOperand n) := by
  refine .andThen inferInstance fun kind => ?_
  split <;> infer_instance

instance : SteadyScan isLambda := by
  unfold isLambda
  infer_instance

instance : SteadyScan isCast := by
  unfold isCast
  infer_instance

instance {scan : Scan Bool} [steady : SteadyScan scan] : Steady (succeeds scan) :=
  .andThen steady.steady fun _ => inferInstance

instance {noLambda : Bool} : Steady (parenKind noLambda) := by
  unfold parenKind
  infer_instance

instance {limit n : Nat} : SteadyScan (patternKindFrom limit n) := by
  induction limit generalizing n with
  | zero => exact inferInstanceAs (SteadyScan (liftM outOfSteps))
  | succ limit ih =>
    have rest (stop : Nat) : SteadyScan (do
        match ← nth stop with
        | .identifier => return PatternKind.type
        | .leftParen => return PatternKind.record
        | _ => failure) := by
      refine .andThen inferInstance fun kind => ?_
      split <;> infer_instance
    unfold patternKindFrom
    infer_instance

instance : SteadyScan isLocalVarDecl := by
  unfold isLocalVarDecl
  infer_instance

instance : SteadyScan isLocalTypeDecl := by
  refine .andThen inferInstance fun n => .andThen inferInstance fun kind => ?_
  split <;> infer_instance

instance : SteadyScan isForeach := by
  unfold isForeach
  infer_instance

instance : SteadyScan isArrayTypeLiteral := by
  unfold isArrayTypeLiteral
  infer_instance

end Looks

/-- A decision does not tell such streams apart. -/
theorem decide_alike {peek : Peek α} [steady : Steady peek] {c d : TokenCursor} (alike : c.Alike d) (limit : Nat) :
    peek.decide c limit = peek.decide d limit := congrFun (steady.same alike limit) false

end Parser.Lookahead

end LosslessJava
