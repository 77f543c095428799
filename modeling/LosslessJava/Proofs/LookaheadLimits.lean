import LosslessJava.Proofs.Compositional

/-! How far it is looked ahead. A decision reads on until the form it looks for ends, and never further than one
token behind the end of input. So each comes to an end within the steps that it may take, and a limit that it does
not hit has no say in what it decides: under a larger one the answer is the same. -/

namespace LosslessJava

namespace TokenCursor

variable (cursor : TokenCursor)

def horizon : Nat := max 1 (cursor.stream.size - 1 - cursor.position)

private theorem lt_horizon_of_nth {n : Nat} (more : cursor.nth n ≠ .eof) : n < cursor.horizon := by
  refine Nat.lt_of_not_le fun behind => more ?_
  rw [nth_eq]
  exact TokenStream.kind_tokenAt_of_le (by simp only [horizon] at behind; omega)

theorem horizon_le_size : cursor.horizon ≤ cursor.stream.size := by
  have some := cursor.stream.size_pos
  simp only [horizon]
  omega

end TokenCursor

namespace Parser

namespace Lookahead

variable {α β : Type} {n m : Nat}

@[reducible] def goesOn : Kind → Bool
  | .eof => false
  | _ => true

theorem ne_eof {kind : Kind} [more : Evident (goesOn kind)] : kind ≠ .eof := fun ended => by
  have holds := more.holds
  rw [ended] at holds
  exact Bool.false_ne_true holds

private theorem ne_eof_of_modifier {kind : Kind} (modifier : Grammar.First.modifier.contains kind = true) : kind ≠ .eof := by
  rintro rfl
  exact absurd modifier (by decide +kernel)

def Answers (view : View) (peek : Peek α) (answer : α) (hits : Bool) : Prop :=
  ∀ hit, peek view hit = some (answer, hit || hits)

structure Limits where
  cursor : TokenCursor
  narrow : Nat
  wide : Nat
  le : narrow ≤ wide

namespace Limits

def stop (limits : Limits) : Nat := limits.cursor.horizon

/-- A look comes to an end under both limits, and both times with one answer, which passes a test, unless it hits
the narrow limit. The limit is hit only where it lies no further than a token behind the end of input. -/
def Agrees (limits : Limits) (peek : Peek α) (post : α → Prop) : Prop :=
  ∃ answer hits, Answers ⟨limits.cursor, limits.narrow⟩ peek answer hits ∧ post answer ∧
    (hits = true → limits.narrow ≤ limits.stop + 1) ∧
    (Answers ⟨limits.cursor, limits.wide⟩ peek answer hits ∨ hits = true ∧ limits.narrow < limits.wide)

def ScansAgree (limits : Limits) (scan : Scan α) (post : α → Prop) : Prop :=
  limits.Agrees scan.run fun found => ∀ a, found = some a → post a

variable {limits : Limits}

namespace Agrees

variable {post : α → Prop} {test : β → Prop} {peek : Peek α}

theorem pure {a : α} (holds : post a) : limits.Agrees (Pure.pure a) post :=
  have given (view : View) : Answers view (Pure.pure a) a false := fun hit => by rw [Bool.or_false]; rfl
  ⟨a, false, given _, holds, fun impossible => absurd impossible Bool.false_ne_true, .inl (given _)⟩

theorem weaken {other : α → Prop} (agrees : limits.Agrees peek post) (implies : ∀ a, post a → other a) :
    limits.Agrees peek other := by
  obtain ⟨a, hits, ran, holds, far, same⟩ := agrees
  exact ⟨a, hits, ran, implies a holds, far, same⟩

/-- What follows a look that hit the limit remembers that, whatever is seen from there on. -/
theorem bind {first : Peek β} {next : β → Peek α} (one : limits.Agrees first test)
    (rest : ∀ b, test b → limits.Agrees (next b) post) : limits.Agrees (first >>= next) post := by
  have join {view : View} {a : α} {b : β} {hits more : Bool} (ran : Answers view first b hits)
      (went : Answers view (next b) a more) : Answers view (first >>= next) a (hits || more) := fun hit => by
    show (first view hit).bind (fun (b, after) => next b view after) = _
    rw [ran hit, ← Bool.or_assoc]
    exact went _
  obtain ⟨b, hits, ran, tested, far, same⟩ := one
  obtain ⟨a, more, went, holds, further, also⟩ := rest b tested
  refine ⟨a, hits || more, join ran went, holds, fun hit => ?_, ?_⟩
  · rcases Bool.or_eq_true_iff.mp hit with hit | hit
    · exact far hit
    · exact further hit
  · rcases same with same | ⟨hit, narrow⟩
    · rcases also with also | ⟨hit, narrow⟩
      · exact .inl (join same also)
      · exact .inr ⟨by rw [hit, Bool.or_true], narrow⟩
    · exact .inr ⟨by rw [hit, Bool.true_or], narrow⟩

theorem nth (near : n ≤ limits.stop + 1) :
    limits.Agrees (Lookahead.nth n) fun kind => kind ≠ .eof → n < limits.stop := by
  have seen {view : View} (within : n < view.limit) : Answers view (Lookahead.nth n) (view.cursor.nth n) false :=
    fun hit => by
      show (if view.limit ≤ n then (do set true; return Kind.eof : Peek Kind) else Pure.pure (view.cursor.nth n)) view hit = _
      rw [if_neg (by omega), Bool.or_false]
      rfl
  have hits {view : View} (beyond : view.limit ≤ n) : Answers view (Lookahead.nth n) .eof true := fun hit => by
    show (if view.limit ≤ n then (do set true; return Kind.eof : Peek Kind) else Pure.pure (view.cursor.nth n)) view hit = _
    rw [if_pos beyond, Bool.or_true]
    rfl
  have le := limits.le
  by_cases beyond : limits.narrow ≤ n
  · refine ⟨.eof, true, hits beyond, fun same => absurd rfl same, fun _ => by omega, ?_⟩
    by_cases both : limits.wide ≤ n
    · exact .inl (hits both)
    · exact .inr ⟨rfl, by omega⟩
  · exact ⟨limits.cursor.nth n, false, seen (Nat.lt_of_not_le beyond), limits.cursor.lt_horizon_of_nth,
      fun impossible => absurd impossible Bool.false_ne_true, .inl (seen (Nat.lt_of_lt_of_le (Nat.lt_of_not_le beyond) le))⟩

theorem nthIs {kind : Kind} [Evident (goesOn kind)] (near : n ≤ limits.stop + 1) :
    limits.Agrees (Lookahead.nthIs n kind) fun found => found = true → n < limits.stop :=
  (nth near).bind fun _ inside => .pure fun same => inside (by rw [beq_iff_eq.mp same]; exact ne_eof)

/-- The second of two looks is made where the first one tells of a fact. -/
theorem both {first second : Peek Bool} {one two : Prop} (left : limits.Agrees first (· = true → one))
    (right : one → limits.Agrees second (· = true → two)) :
    limits.Agrees (Lookahead.both first second) (· = true → two) := by
  refine left.bind fun found holds => ?_
  cases found with
  | true => exact right (holds rfl)
  | false => exact .pure fun impossible => absurd impossible Bool.false_ne_true

theorem nthIsWord {keyword : Kind} (near : n ≤ limits.stop + 1) :
    limits.Agrees (Lookahead.nthIsWord n keyword) fun found => found = true → n < limits.stop := by
  refine (nthIs near).bind fun found inside => ?_
  cases found with
  | false => exact .pure fun impossible => absurd impossible Bool.false_ne_true
  | true =>
    have spelled (view : View) : Answers view (do return isWordAt (← read).cursor n keyword) (isWordAt view.cursor n keyword) false :=
      fun hit => by rw [Bool.or_false]; rfl
    exact ⟨_, false, spelled _, fun _ => inside rfl, fun impossible => absurd impossible Bool.false_ne_true, .inl (spelled _)⟩

theorem limit {next : Nat → Peek α} (rest : ∀ steps, limits.stop < steps → limits.Agrees (next steps) post) :
    limits.Agrees (stepLimit >>= next) post :=
  rest (limits.cursor.stream.size + 1) (Nat.lt_succ_of_le limits.cursor.horizon_le_size)

end Agrees

namespace ScansAgree

variable {post : α → Prop} {test : β → Prop} {scan : Scan α}

theorem pure {a : α} (holds : post a) : limits.ScansAgree (Pure.pure a) post :=
  have given : limits.Agrees (Pure.pure (some a)) fun found => ∀ a, found = some a → post a :=
    .pure fun _ same => Option.some.inj same ▸ holds
  given

theorem fails : limits.ScansAgree (failure : Scan α) post :=
  have given : limits.Agrees (Pure.pure none) fun found : Option α => ∀ a, found = some a → post a :=
    .pure fun _ same => absurd same (Option.some_ne_none _).symm
  given

theorem weaken {other : α → Prop} (agrees : limits.ScansAgree scan post) (implies : ∀ a, post a → other a) :
    limits.ScansAgree scan other :=
  Agrees.weaken agrees fun _ holds a same => implies a (holds a same)

private theorem found {next : β → Scan α} (rest : ∀ b, test b → limits.ScansAgree (next b) post) (found : Option β) :
    (∀ b, found = some b → test b) → limits.Agrees (match found with
      | some b => (next b).run
      | none => Pure.pure none) fun found => ∀ a, found = some a → post a := fun holds => by
  cases found with
  | none => exact .pure fun _ same => absurd same (Option.some_ne_none _).symm
  | some b => exact rest b (holds b rfl)

theorem bind {first : Scan β} {next : β → Scan α} (one : limits.ScansAgree first test)
    (rest : ∀ b, test b → limits.ScansAgree (next b) post) : limits.ScansAgree (first >>= next) post :=
  have whole := Agrees.bind one (found rest)
  whole

theorem lift {peek : Peek α} (agrees : limits.Agrees peek post) : limits.ScansAgree (liftM peek) post :=
  have lifted : limits.Agrees (do return some (← peek)) fun found => ∀ a, found = some a → post a :=
    agrees.bind fun _ holds => .pure fun _ same => Option.some.inj same ▸ holds
  lifted

theorem look {peek : Peek β} {next : β → Scan α} (one : limits.Agrees peek test)
    (rest : ∀ b, test b → limits.ScansAgree (next b) post) : limits.ScansAgree (liftM peek >>= next) post :=
  bind (lift one) rest

theorem limit {next : Nat → Scan α} (rest : ∀ steps, limits.stop < steps → limits.ScansAgree (next steps) post) :
    limits.ScansAgree (liftM stepLimit >>= next) post := Agrees.limit rest

theorem ask {question : Peek Bool} {fact : Prop} {yes no : Scan α} (asked : limits.Agrees question (· = true → fact))
    (one : fact → limits.ScansAgree yes post) (two : limits.ScansAgree no post) :
    limits.ScansAgree (do if ← question then yes else no) post :=
  look asked fun found holds => by
    cases found with
    | true => exact one (holds rfl)
    | false => exact two

theorem succeeds {scan : Scan Bool} {post : Bool → Prop} (agrees : limits.ScansAgree scan post) :
    limits.Agrees (Lookahead.succeeds scan) fun _ => True :=
  Agrees.bind agrees fun _ _ => .pure trivial

end ScansAgree

section Scans

variable {steps depth levels : Nat}

private theorem closingFrom {opener closer : Kind} (inside : n ≤ limits.stop) (enough : limits.stop < steps + n) :
    limits.ScansAgree (closingFrom opener closer steps depth n)
      fun m => n ≤ m ∧ m < limits.stop := by
  induction steps generalizing n depth with
  | zero => omega
  | succ steps ih =>
    refine .look (.nth (by omega)) fun kind further => ?_
    split
    · exact .fails
    · next going =>
      have within := further going
      have rest {depth : Nat} : limits.ScansAgree (Lookahead.closingFrom opener closer steps depth (n + 1)) fun m => n ≤ m ∧ m < limits.stop :=
        (ih within (by omega)).weaken fun m between => by omega
      split
      · exact rest
      · split
        · split
          · exact .pure ⟨Nat.le_refl n, within⟩
          · exact rest
        · exact rest

private theorem balanced (inside : n ≤ limits.stop) :
    limits.ScansAgree (balanced n) fun m => n ≤ m ∧ m < limits.stop := by
  refine .look (.nth (by omega)) fun opener _ => ?_
  split
  · exact .limit fun _ enough => closingFrom inside (by omega)
  · exact .fails

private theorem nameTail (inside : n ≤ limits.stop) (enough : limits.stop < steps + n) :
    limits.Agrees (nameTail steps n) fun m => n ≤ m ∧ m ≤ limits.stop := by
  induction steps generalizing n with
  | zero => omega
  | succ steps ih =>
    refine (Agrees.both (.nthIs (by omega)) fun dot => .nthIs (by omega)).bind fun found further => ?_
    cases found with
    | true =>
      have within := further rfl
      exact (ih within (by omega)).weaken fun m between => by omega
    | false => exact .pure ⟨Nat.le_refl n, inside⟩

theorem qualifiedName (inside : n ≤ limits.stop) :
    limits.ScansAgree (qualifiedName n) fun m => n < m ∧ m ≤ limits.stop :=
  .ask (.nthIs (by omega)) (fun within => .limit fun _ enough => .lift (nameTail within (by omega)))
    .fails

private theorem annotationsFrom (inside : n ≤ limits.stop) (enough : limits.stop < steps + n) :
    limits.ScansAgree (annotationsFrom steps n) fun m => n ≤ m ∧ m ≤ limits.stop := by
  induction steps generalizing n with
  | zero => omega
  | succ steps ih =>
    have named : limits.Agrees (both (nthIs n .atSign) (return (← nth (n + 1)) != .interfaceKw)) (· = true → n < limits.stop) :=
      .both (.nthIs (by omega)) fun within => (Agrees.nth (by omega)).bind fun _ _ => .pure fun _ => within
    refine .ask named (fun within => ?_) (.pure ⟨Nat.le_refl n, inside⟩)
    refine (qualifiedName within).bind fun m between => ?_
    refine .ask (.nthIs (by omega)) (fun opened => ?_) ?_
    · refine (balanced between.2).bind fun close around => ?_
      exact (ih around.2 (by omega)).weaken fun _ between => by omega
    · exact (ih between.2 (by omega)).weaken fun _ between => by omega

theorem annotations (inside : n ≤ limits.stop) :
    limits.ScansAgree (annotations n) fun m => n ≤ m ∧ m ≤ limits.stop :=
  .limit fun _ enough => annotationsFrom inside (by omega)

theorem modifiersFrom {accepts : Nat → Peek Bool}
    (asks : ∀ {n}, n ≤ limits.stop → limits.Agrees (accepts n) (· = true → n < limits.stop)) (inside : n ≤ limits.stop)
    (enough : limits.stop < steps + n) :
    limits.ScansAgree (modifiersFrom accepts steps n) fun m => n ≤ m ∧ m ≤ limits.stop := by
  induction steps generalizing n with
  | zero => omega
  | succ steps ih =>
    refine (annotations inside).bind fun m between => ?_
    refine .ask (asks between.2) (fun within => ?_) (.pure between)
    exact (ih within (by omega)).weaken fun _ between => by omega

theorem localModifiers (inside : n ≤ limits.stop) :
    limits.ScansAgree (localModifiers n) fun m => n ≤ m ∧ m ≤ limits.stop :=
  .limit fun _ enough => modifiersFrom (fun inside => .nthIs (by omega)) inside (by omega)

private theorem modifiers (inside : n ≤ limits.stop) :
    limits.ScansAgree (modifiers n) fun m => n ≤ m ∧ m ≤ limits.stop := by
  refine .limit fun _ enough => modifiersFrom (fun {m} inside => ?_) inside (by omega)
  refine (Agrees.nth (by omega)).bind fun kind further => ?_
  split
  · next modifier => exact .pure fun _ => further (ne_eof_of_modifier modifier)
  · exact .nthIsWord (by omega)

private theorem dimsFrom (inside : n ≤ limits.stop) (enough : limits.stop < steps + n) :
    limits.Agrees (dimsFrom steps n) fun m => n ≤ m ∧ m ≤ limits.stop := by
  induction steps generalizing n with
  | zero => omega
  | succ steps ih =>
    refine (Agrees.both (.nthIs (by omega)) fun opened => .nthIs (by omega)).bind fun found further => ?_
    cases found with
    | true =>
      have within := further rfl
      exact (ih within (by omega)).weaken fun m between => by omega
    | false => exact .pure ⟨Nat.le_refl n, inside⟩

theorem dims (inside : n ≤ limits.stop) : limits.Agrees (dims n) fun m => n ≤ m ∧ m ≤ limits.stop :=
  .limit fun _ enough => dimsFrom inside (by omega)

section Types

variable {type : Nat → Scan Nat} {low : Nat}

def TypesAgree (limits : Limits) (low : Nat) (type : Nat → Scan Nat) : Prop :=
  ∀ n, low < n → n ≤ limits.stop → limits.ScansAgree (type n) fun m => n < m ∧ m ≤ limits.stop

def argumentEnd (further : Scan Nat) (n : Nat) : Scan Nat := do
  match ← nth n with
  | .comma => further
  | .gt => return n + 1
  | _ => failure

private theorem argumentEnd_agrees {further : Scan Nat} (inside : n ≤ limits.stop)
    (rest : n < limits.stop → limits.ScansAgree further fun m => n < m ∧ m ≤ limits.stop) :
    limits.ScansAgree (argumentEnd further n) fun m => n < m ∧ m ≤ limits.stop := by
  refine .look (.nth (by omega)) fun kind within => ?_
  split
  · exact rest (within ne_eof)
  · exact .pure ⟨Nat.lt_succ_self n, within ne_eof⟩
  · exact .fails

variable (reads : limits.TypesAgree low type)

include reads

private theorem typeArgumentsFrom (above : low < n) (inside : n ≤ limits.stop) (enough : limits.stop < steps + n) :
    limits.ScansAgree (typeArgumentsFrom type steps n) fun m => n < m ∧ m ≤ limits.stop := by
  induction steps generalizing n with
  | zero => omega
  | succ steps ih =>
    refine (annotations inside).bind fun start between => ?_
    have ended (k : Nat) (around : start < k ∧ k ≤ limits.stop) :
        limits.ScansAgree (argumentEnd (Lookahead.typeArgumentsFrom type steps (k + 1)) k) fun m => n < m ∧ m ≤ limits.stop := by
      have rest (within : k < limits.stop) : limits.ScansAgree (Lookahead.typeArgumentsFrom type steps (k + 1)) fun m => k < m ∧ m ≤ limits.stop :=
        (ih (by omega) within (by omega)).weaken fun _ between => by omega
      exact (argumentEnd_agrees around.2 rest).weaken fun _ between => by omega
    refine .ask (.nthIs (by omega)) (fun within => ?_) ?_
    · refine .look (.nth (by omega)) fun bound further => ?_
      split
      · next bounds =>
        have next : start + 1 < limits.stop := further (by rcases bounds with same | same <;> rw [same] <;> exact ne_eof)
        exact ((reads _ (by omega) next).weaken fun _ between => ⟨by omega, between.2⟩).bind ended
      · have bare : limits.ScansAgree (Pure.pure (start + 1)) fun k => start < k ∧ k ≤ limits.stop :=
          .pure ⟨Nat.lt_succ_self _, within⟩
        exact bare.bind ended
    · exact (reads _ (by omega) between.2).bind ended

private theorem typeArguments (above : low ≤ n) (inside : n < limits.stop) :
    limits.ScansAgree (typeArguments type n) fun m => n < m ∧ m ≤ limits.stop :=
  .ask (.nthIs (by omega)) (fun within => .pure ⟨by omega, within⟩) <| .limit fun _ enough =>
    (typeArgumentsFrom reads (by omega) inside (by omega)).weaken fun _ between => by omega

private theorem typeSegments (above : low < n) (inside : n ≤ limits.stop) (enough : limits.stop < steps + n) :
    limits.ScansAgree (typeSegments type steps n) fun m => n ≤ m ∧ m ≤ limits.stop := by
  induction steps generalizing n with
  | zero => omega
  | succ steps ih =>
    have further (k : Nat) (between : n ≤ k ∧ k ≤ limits.stop) : limits.ScansAgree (do
        if ← nthIs k .dot then
          let after ← Lookahead.annotations (k + 1)
          if ← nthIs after .identifier then Lookahead.typeSegments type steps (after + 1) else return k
        else
          return k) fun m => n ≤ m ∧ m ≤ limits.stop := by
      refine .ask (.nthIs (by omega)) (fun within => ?_) (.pure between)
      refine (annotations within).bind fun after around => ?_
      refine .ask (.nthIs (by omega)) (fun within => ?_) (.pure between)
      exact (ih (by omega) within (by omega)).weaken fun _ between => by omega
    refine .ask (.nthIs (by omega)) (fun within => ?_) ?_
    · exact ((typeArguments reads (by omega) within).weaken fun _ between => by omega).bind further
    · have bare : limits.ScansAgree (Pure.pure n) fun k => n ≤ k ∧ k ≤ limits.stop := .pure ⟨Nat.le_refl n, inside⟩
      exact bare.bind further

end Types

private theorem dimsBehind {scan : Scan Nat} (scans : limits.ScansAgree scan fun m => n < m ∧ m ≤ limits.stop) :
    limits.ScansAgree (scan >>= fun m => liftM (Lookahead.dims m)) fun m => n < m ∧ m ≤ limits.stop :=
  scans.bind fun _ between => .lift ((dims between.2).weaken fun _ around => by omega)

/-- A type inside another one starts behind it, so there are levels enough for as many of them as there are tokens. -/
theorem typeWithin (inside : n ≤ limits.stop) (enough : limits.stop < levels + n) :
    limits.ScansAgree (typeWithin levels n) fun m => n < m ∧ m ≤ limits.stop := by
  induction levels generalizing n with
  | zero => omega
  | succ levels ih =>
    refine (annotations inside).bind fun start between => ?_
    refine .look (.nth (by omega)) fun kind further => ?_
    split
    · next primitive =>
      have within := further fun ended => by rw [ended] at primitive; cases primitive
      exact .lift ((dims within).weaken fun _ around => by omega)
    · split
      · next name =>
        have within := further (by rw [name]; exact ne_eof)
        have reads : limits.TypesAgree n (Lookahead.typeWithin levels) :=
          fun k above inside => ih inside (by omega)
        refine .limit fun _ enough => dimsBehind ?_
        exact (typeSegments reads (by omega) within (by omega)).weaken fun _ between => by omega
      · exact .fails

theorem type (inside : n ≤ limits.stop) : limits.ScansAgree (type n) fun m => n < m ∧ m ≤ limits.stop :=
  .limit fun _ enough => typeWithin inside (by omega)

private theorem intersectionFrom (inside : n ≤ limits.stop) (enough : limits.stop < steps + n) :
    limits.ScansAgree (intersectionFrom steps n) fun m => n ≤ m ∧ m ≤ limits.stop := by
  induction steps generalizing n with
  | zero => omega
  | succ steps ih =>
    refine .ask (.nthIs (by omega)) (fun within => ?_) (.pure ⟨Nat.le_refl n, inside⟩)
    refine (type within).bind fun m between => ?_
    exact (ih between.2 (by omega)).weaken fun _ between => by omega

private theorem castType (inside : n ≤ limits.stop) : limits.ScansAgree (castType n) fun m => n < m ∧ m ≤ limits.stop :=
  .limit fun _ enough => (type inside).bind fun m between =>
    (intersectionFrom between.2 (by omega)).weaken fun _ between => by omega

private theorem bareParams (inside : n ≤ limits.stop) (enough : limits.stop < steps + n) :
    limits.ScansAgree (bareParams steps n) (· < limits.stop) := by
  induction steps generalizing n with
  | zero => omega
  | succ steps ih =>
    refine .look (.nth (by omega)) fun name further => ?_
    refine .look (.nth (by omega)) fun next behind => ?_
    split
    · have within : n + 1 < limits.stop := behind ne_eof
      exact ih within (by omega)
    · exact .pure (behind ne_eof)
    · exact .fails

private theorem paramEnd {further : Nat → Scan Nat} (inside : n ≤ limits.stop)
    (rest : ∀ m, n < m → m ≤ limits.stop → limits.ScansAgree (further m) (· < limits.stop)) :
    limits.ScansAgree (do
      if ← nthIs n .identifier then
        let n ← Lookahead.dims (n + 1)
        match ← nth n with
        | .comma => further (n + 1)
        | .rightParen => return n
        | _ => failure
      else
        failure) (· < limits.stop) := by
  refine .ask (.nthIs (by omega)) (fun within => ?_) .fails
  refine .look (dims within) fun m between => ?_
  refine .look (.nth (by omega)) fun kind inside => ?_
  split
  · exact rest _ (by omega) (inside ne_eof)
  · exact .pure (inside ne_eof)
  · exact .fails

private theorem typedParams (inside : n ≤ limits.stop) (enough : limits.stop < steps + n) :
    limits.ScansAgree (typedParams steps n) (· < limits.stop) := by
  induction steps generalizing n with
  | zero => omega
  | succ steps ih =>
    refine (localModifiers inside).bind fun i first => ?_
    refine (type first.2).bind fun j second => ?_
    refine (annotations second.2).bind fun k third => ?_
    have rest (m : Nat) (above : k < m) (inside : m ≤ limits.stop) : limits.ScansAgree (Lookahead.typedParams steps m) (· < limits.stop) :=
      ih inside (by omega)
    refine .look (.nthIs (by omega)) fun found within => ?_
    cases found with
    | true => exact paramEnd (n := k + 1) (within rfl) fun m above => rest m (by omega)
    | false => exact paramEnd third.2 rest

private theorem lambdaParams (inside : n ≤ limits.stop) : limits.ScansAgree (lambdaParams n) (· < limits.stop) := by
  have typed : limits.ScansAgree (do Lookahead.typedParams (← stepLimit) n) (· < limits.stop) :=
    .limit fun _ enough => typedParams inside (by omega)
  refine .look (.nth (by omega)) fun kind further => ?_
  split
  · next close => exact .pure (further (by rw [close]; exact ne_eof))
  · split
    · next name =>
      have within := further (by rw [name]; exact ne_eof)
      refine .look (.nth (by omega)) fun _ _ => ?_
      split
      · exact .limit fun _ enough => bareParams inside (by omega)
      · exact typed
    · exact typed

private theorem startsCastOperand (inside : n ≤ limits.stop) :
    limits.Agrees (startsCastOperand n) fun _ => True := by
  refine (Agrees.nth (by omega)).bind fun kind further => ?_
  have behind : limits.Agrees (do return startsPrimary (← nth (n + 1))) fun _ => True :=
    (Agrees.nth (by omega)).bind fun _ _ => .pure trivial
  split
  · exact .pure trivial
  · exact .pure trivial
  · exact .pure trivial
  · exact .pure trivial
  · exact behind
  · exact behind
  · exact .pure trivial

private theorem isLambda (inside : 1 ≤ limits.stop) : limits.ScansAgree isLambda fun _ => True :=
  (lambdaParams inside).bind fun _ within => .lift <| (Agrees.nthIs (by omega)).weaken fun _ _ => trivial

theorem isCast (inside : 1 ≤ limits.stop) : limits.ScansAgree isCast fun _ => True := by
  refine (castType inside).bind fun close between => ?_
  refine .ask (.nthIs (by omega)) (fun within => ?_) (.pure trivial)
  refine (annotations inside).bind fun start around => ?_
  refine .look (.nth (by omega)) fun first _ => ?_
  split
  · exact .pure trivial
  · exact .lift (startsCastOperand within)

private theorem patternKindFrom (inside : n ≤ limits.stop) (enough : limits.stop < steps + n) :
    limits.ScansAgree (patternKindFrom steps n) fun _ => True := by
  induction steps generalizing n with
  | zero => omega
  | succ steps ih =>
    refine .ask (.nthIs (by omega)) (fun within => ih within (by omega)) ?_
    refine (localModifiers inside).bind fun i first => ?_
    refine (type first.2).bind fun stop second => ?_
    refine .look (.nth (by omega)) fun kind _ => ?_
    split
    · exact .pure trivial
    · exact .pure trivial
    · exact .fails

private theorem parenKind {noLambda : Bool} (inside : 1 ≤ limits.stop) :
    limits.Agrees (parenKind noLambda) fun _ => True := by
  have allowed : limits.Agrees (Pure.pure !noLambda) (· = true → True) := .pure fun _ => trivial
  have lambda := Agrees.both allowed fun _ => (isLambda inside).succeeds.weaken fun _ _ _ => trivial
  refine lambda.bind fun found _ => ?_
  cases found with
  | true => exact .pure trivial
  | false =>
    refine (isCast inside).succeeds.bind fun found _ => ?_
    cases found <;> exact .pure trivial

private theorem isLocalVarDecl : limits.ScansAgree isLocalVarDecl fun _ => True :=
  (localModifiers (Nat.zero_le _)).bind fun _ first => (type first.2).bind fun _ second =>
    .lift ((Agrees.nthIs (by omega)).weaken fun _ _ => trivial)

private theorem isForeach : limits.ScansAgree isForeach fun _ => True :=
  (localModifiers (Nat.zero_le _)).bind fun _ first => (type first.2).bind fun _ second =>
    .lift ((Agrees.both (.nthIs (by omega)) fun _ => .nthIs (by omega)).weaken fun _ _ => trivial)

private theorem isLocalTypeDecl : limits.ScansAgree isLocalTypeDecl fun _ => True := by
  refine (modifiers (Nat.zero_le _)).bind fun n between => ?_
  refine .look (.nth (by omega)) fun kind _ => ?_
  split
  · exact .pure trivial
  · exact .pure trivial
  · exact .pure trivial
  · exact .lift ((Agrees.nthIs (by omega)).weaken fun _ _ => trivial)
  · exact .lift ((Agrees.both (.nthIsWord (by omega)) fun _ => .nthIs (by omega)).weaken fun _ _ => trivial)

private theorem isArrayTypeLiteral : limits.ScansAgree isArrayTypeLiteral fun _ => True := by
  refine (qualifiedName (Nat.zero_le _)).bind fun n between => ?_
  refine .ask (.both (.nthIs (by omega)) fun _ => .nthIs (by omega)) (fun within => ?_) (.pure trivial)
  refine .look (dims between.2) fun stop around => ?_
  exact .look (.nth (by omega)) fun _ _ => .look (.nth (by omega)) fun _ _ => .pure trivial

end Scans

end Limits

/-- What is decided by looking ahead. -/
inductive Decision : Type → Type where
  | paren (noLambda : Bool) : Decision ParenKind
  | localVarDecl : Decision Bool
  | localTypeDecl : Decision Bool
  | foreach : Decision Bool
  | pattern : Decision (Option PatternKind)
  | arrayTypeLiteral : Decision Bool

namespace Decision

/-- How it is decided. -/
def peek : Decision α → Peek α
  | paren noLambda => parenKind noLambda
  | localVarDecl => succeeds isLocalVarDecl
  | localTypeDecl => succeeds isLocalTypeDecl
  | foreach => succeeds isForeach
  | pattern => do (patternKindFrom (← stepLimit) 0).run
  | arrayTypeLiteral => succeeds isArrayTypeLiteral

private theorem agrees (decision : Decision α) {limits : Limits} (inside : 1 ≤ limits.stop) :
    limits.Agrees decision.peek fun _ => True := by
  cases decision with
  | paren noLambda => exact Limits.parenKind inside
  | localVarDecl => exact Limits.isLocalVarDecl.succeeds
  | localTypeDecl => exact Limits.isLocalTypeDecl.succeeds
  | foreach => exact Limits.isForeach.succeeds
  | pattern =>
    refine Limits.Agrees.limit fun steps enough => ?_
    exact Limits.Agrees.weaken (Limits.patternKindFrom (Nat.zero_le _) enough) fun _ _ => trivial
  | arrayTypeLiteral => exact Limits.isArrayTypeLiteral.succeeds

/-- A decision comes to an end, and to the same one under a larger limit unless it hits its own. -/
theorem outcome (decision : Decision α) (cursor : TokenCursor) {limit larger : Nat} (le : limit ≤ larger) :
    ∃ answer hits, decision.peek.decide cursor limit = some (answer, hits) ∧
      (hits = true → limit ≤ cursor.horizon + 1) ∧
      (decision.peek.decide cursor larger = some (answer, hits) ∨ hits = true ∧ limit < larger) := by
  have agreed : Limits.Agrees ⟨cursor, limit, larger, le⟩ decision.peek fun _ => True :=
    decision.agrees (Nat.le_max_left _ _)
  have ended {view : View} {answer : α} {hits : Bool} (ran : Answers view decision.peek answer hits) :
      decision.peek.decide view.cursor view.limit = some (answer, hits) := (ran false).trans (by rw [Bool.false_or])
  obtain ⟨answer, hits, ran, -, near, same⟩ := agreed
  exact ⟨answer, hits, ended ran, near, same.imp_left ended⟩

theorem ends (decision : Decision α) (cursor : TokenCursor) (limit : Nat) :
    ∃ answer hits, decision.peek.decide cursor limit = some (answer, hits) := by
  obtain ⟨answer, hits, ran, -⟩ := decision.outcome cursor (Nat.le_refl limit)
  exact ⟨answer, hits, ran⟩

/-- A limit behind the end of input is not hit. -/
theorem clear_of_far (decision : Decision α) {cursor : TokenCursor} {limit : Nat} (far : cursor.horizon + 1 < limit) :
    ∃ answer, decision.peek.decide cursor limit = some (answer, false) := by
  obtain ⟨answer, hits, ran, near, -⟩ := decision.outcome cursor (Nat.le_refl limit)
  obtain rfl : hits = false := Bool.eq_false_iff.mpr fun hit => absurd (near hit) (Nat.not_le_of_lt far)
  exact ⟨answer, ran⟩

/-- A decision comes to an end. One that does not hit the limit is the same under a larger one, and does not hit
that. -/
theorem stable (decision : Decision α) (cursor : TokenCursor) {limit larger : Nat} (le : limit ≤ larger) :
    ∃ answer hits, decision.peek.decide cursor limit = some (answer, hits) ∧
      (hits = false → decision.peek.decide cursor larger = some (answer, false)) := by
  obtain ⟨answer, hits, ran, -, same⟩ := decision.outcome cursor le
  refine ⟨answer, hits, ran, fun clear => ?_⟩
  subst clear
  exact same.resolve_right fun ⟨hit, _⟩ => absurd hit Bool.false_ne_true

/-- The arrow that makes parameters of `(a)` lies within the first four tokens, so a limit of four shows as much as one
of a hundred. -/
theorem stable_arrow :
    let cursor := TokenCursor.start (.ofTokens "(a)->b" #[⟨.leftParen, ⟨0, 1⟩, [], []⟩, ⟨.identifier, ⟨1, 2⟩, [], []⟩,
      ⟨.rightParen, ⟨2, 3⟩, [], []⟩, ⟨.arrow, ⟨3, 5⟩, [], []⟩, ⟨.identifier, ⟨5, 6⟩, [], []⟩])
    4 ≤ 100 ∧ (parenKind false).decide cursor 4 = some (.lambda, false) ∧
      (parenKind false).decide cursor 100 = some (.lambda, false) := by
  intro cursor
  have near : (parenKind false).decide cursor 4 = some (.lambda, false) := by decide +kernel
  obtain ⟨answer, hits, ran, same⟩ := stable (.paren false) cursor (by decide : 4 ≤ 100)
  cases near.symm.trans ran
  exact ⟨by decide, near, same rfl⟩

end Decision

class Ends (peek : Peek α) : Prop where
  ends : ∀ (cursor : TokenCursor) (limit : Nat), ∃ answer hits, peek.decide cursor limit = some (answer, hits)

instance {noLambda : Bool} : Ends (parenKind noLambda) := ⟨(Decision.paren noLambda).ends⟩

instance : Ends (succeeds isLocalVarDecl) := ⟨Decision.localVarDecl.ends⟩

instance : Ends (succeeds isLocalTypeDecl) := ⟨Decision.localTypeDecl.ends⟩

instance : Ends (succeeds isForeach) := ⟨Decision.foreach.ends⟩

instance : Ends (do (patternKindFrom (← stepLimit) 0).run) := ⟨Decision.pattern.ends⟩

instance : Ends (succeeds isArrayTypeLiteral) := ⟨Decision.arrayTypeLiteral.ends⟩

end Lookahead

variable {N : Type → Type} {env : Env} {rules : (α : Type) → N α → Program N α} {α : Type}

/-- A decision that does not hit the limit is made without a word. -/
theorem exec_decideBy [Inhabited α] {what : String} {peek : Lookahead.Peek α} {s : State} {a : α}
    (clear : peek.decide (s.cursor env) env.options.lookaheadLimit = some (a, false)) :
    (decideBy what peek : Program N α).exec env rules s = some (.ok (a, s)) := by
  unfold decideBy
  rw [Program.exec_bind, Program.exec_act]
  refine (Program.exec_bind _ _ _).trans ?_
  rw [cursor, Program.exec_act]
  simp only [Action.run, Program.andThen_ok, clear]
  exact Program.exec_return _ _

end Parser

end LosslessJava
