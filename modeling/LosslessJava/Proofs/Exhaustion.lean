import LosslessJava.Proofs.Scans
import LosslessJava.Proofs.LookaheadLimits
import Mathlib

/-! Decisions that hit the limit. Beyond the limit a scan sees an end of input, and from there on it only goes
through tokens that stand at the end of some form; no form goes on with them, so the scan finds nothing. What is
decided is then what is decided where no special form stands, but for one look that is made without need. -/

namespace LosslessJava.Parser

namespace Lookahead

def View.shown (view : View) (n : Nat) : Kind := if view.limit ≤ n then .eof else view.cursor.nth n

variable {α β : Type} {view : View} {hit : Bool} {n : Nat}

private theorem nth_apply (view : View) (n : Nat) (hit : Bool) :
    nth n view hit = some (view.shown n, hit || decide (view.limit ≤ n)) := by
  show (if view.limit ≤ n then (do set true; return Kind.eof : Peek Kind) else Pure.pure (view.cursor.nth n)) view hit = _
  unfold View.shown
  split
  · next beyond => rw [decide_eq_true beyond, Bool.or_true]; rfl
  · next within => rw [decide_eq_false within, Bool.or_false]; rfl

private theorem nthIs_apply (view : View) (n : Nat) (kind : Kind) (hit : Bool) :
    nthIs n kind view hit = some (view.shown n == kind, hit || decide (view.limit ≤ n)) := by
  show (nth n view hit).bind (fun (seen, hit) => some (seen == kind, hit)) = _
  rw [nth_apply]
  rfl

private theorem shown_of_nthIs {kind : Kind} {hit' : Bool} (ran : nthIs n kind view hit = some (true, hit')) : view.shown n = kind := by
  rw [nthIs_apply] at ran
  exact beq_iff_eq.mp (Prod.mk.inj (Option.some.inj ran)).1

/-- A kind of token that begins or continues the forms that are looked for. After the others a form can only end:
behind a name the dot, behind a type also the bracket, that could have led on. -/
@[reducible] def leadsOn : Kind → Bool
  | .eof | .dot | .leftBracket => false
  | _ => true

def View.Blocked (view : View) (n : Nat) : Prop := leadsOn (view.shown n) = false

def View.Ended (view : View) (n : Nat) : Prop := view.shown n = .eof ∨ view.shown n = .dot

theorem View.Ended.blocked (ended : view.Ended n) : view.Blocked n := by
  rcases ended with same | same <;> rw [View.Blocked, same]

private theorem View.blocked_of_le (beyond : view.limit ≤ n) : view.Blocked n := by
  rw [View.Blocked, View.shown, if_pos beyond]

private theorem View.ended_of_le (beyond : view.limit ≤ n) : view.Ended n := .inl (if_pos beyond)

def View.Spent (view : View) (n : Nat) : Prop := view.Blocked n ∨ view.shown n = .identifier ∧ view.limit ≤ n + 1

/-- Places that a scan for modifiers does not leave once the limit is hit. It gets there beyond the limit or behind the
name of an annotation. -/
structure View.Barrier (view : View) (place : Nat → Prop) : Prop where
  ended : ∀ {n}, view.Ended n → place n
  other : ∀ {n}, place n → view.shown n ≠ .atSign ∧ view.shown n ≠ .finalKw

theorem View.Blocked.ne {kind : Kind} [leads : Evident (leadsOn kind)] (blocked : view.Blocked n) : view.shown n ≠ kind :=
  fun shown => Bool.noConfusion ((shown ▸ blocked : leadsOn kind = false).symm.trans leads.holds)

private theorem View.Spent.ne {kind : Kind} [leads : Evident (leadsOn kind)] (spent : view.Spent n) (other : kind ≠ .identifier) :
    view.shown n ≠ kind := by
  rcases spent with blocked | ⟨name, -⟩
  · exact blocked.ne
  · exact fun shown => other (shown.symm.trans name)

private theorem View.blocked_barrier : view.Barrier view.Blocked := ⟨Ended.blocked, fun blocked => ⟨blocked.ne, blocked.ne⟩⟩

private theorem View.spent_barrier : view.Barrier view.Spent :=
  ⟨fun ended => .inl ended.blocked, fun spent => ⟨spent.ne (by decide), spent.ne (by decide)⟩⟩

private theorem leadsOn_of_modifier {kind : Kind} (modifier : Grammar.First.modifier.contains kind = true) : leadsOn kind = true := by
  cases kind <;> first | rfl | exact absurd modifier (by decide +kernel)

private theorem leadsOn_of_isPrimitiveType {kind : Kind} (primitive : kind.isPrimitiveType = true) : leadsOn kind = true := by
  cases kind <;> first | rfl | cases primitive

def Spends (view : View) (hit : Bool) (peek : Peek α) (spent : α → Prop) : Prop :=
  ∀ a, peek view hit = some (a, true) → spent a

abbrev ScanSpends (view : View) (hit : Bool) (scan : Scan α) (spent : α → Prop) : Prop :=
  Spends view hit scan.run fun found => ∀ a, found = some a → spent a

namespace Spends

variable {spent : α → Prop} {test : β → Prop}

theorem pure {a : α} (holds : hit = true → spent a) : Spends view hit (Pure.pure a) spent := fun b ran => by
  cases ran
  exact holds rfl

theorem weaken {other : α → Prop} {peek : Peek α} (spends : Spends view hit peek spent) (implies : ∀ a, spent a → other a) :
    Spends view hit peek other := fun a ran => implies a (spends a ran)

theorem bind {first : Peek β} {next : β → Peek α} (one : Spends view hit first test)
    (rest : ∀ b hit', first view hit = some (b, hit') → (hit' = true → test b) → Spends view hit' (next b) spent) :
    Spends view hit (first >>= next) spent := fun a ran => by
  obtain ⟨⟨b, hit'⟩, early, late⟩ := Option.bind_eq_some_iff.mp ran
  exact rest b hit' early (fun same => one b (same ▸ early)) a late

theorem outOfSteps : Spends view hit Lookahead.outOfSteps spent := nofun

/-- Where the limit was hit before, a look beyond it sees an end of input. -/
theorem nth_far (far : hit = true → view.limit ≤ n) : Spends view hit (Lookahead.nth n) fun kind =>
    kind = .eof ∧ view.limit ≤ n := fun kind ran => by
  rw [nth_apply] at ran
  obtain ⟨rfl, hits⟩ := Prod.mk.inj (Option.some.inj ran)
  have beyond : view.limit ≤ n := (Bool.or_eq_true_iff.mp hits).elim far of_decide_eq_true
  exact ⟨if_pos beyond, beyond⟩

private theorem nth_clear : Spends view false (Lookahead.nth n) fun kind => kind = .eof ∧ view.limit ≤ n := nth_far Bool.noConfusion

theorem nth {place : Prop} (stuck : hit = true → place) (beyond : view.limit ≤ n → place) :
    Spends view hit (Lookahead.nth n) fun kind => view.shown n = kind ∧ place := fun kind ran => by
  rw [nth_apply] at ran
  obtain ⟨rfl, hits⟩ := Prod.mk.inj (Option.some.inj ran)
  exact ⟨rfl, (Bool.or_eq_true_iff.mp hits).elim stuck fun far => beyond (of_decide_eq_true far)⟩

/-- A token is seen only before the limit was hit, if another one stands where it was hit. -/
theorem nthIs_of {kind : Kind} [Evident (goesOn kind)] {fact : Prop} (other : hit = true → view.shown n ≠ kind ∧ fact)
    (beyond : view.limit ≤ n → fact) : Spends view hit (Lookahead.nthIs n kind) fun found => found = false ∧ fact :=
  fun found ran => by
    rw [nthIs_apply] at ran
    obtain ⟨rfl, hits⟩ := Prod.mk.inj (Option.some.inj ran)
    rcases Bool.or_eq_true_iff.mp hits with before | hits
    · exact ⟨beq_eq_false_iff_ne.mpr (other before).1, (other before).2⟩
    · have far : view.limit ≤ n := of_decide_eq_true hits
      refine ⟨beq_eq_false_iff_ne.mpr ?_, beyond far⟩
      rw [View.shown, if_pos far]
      exact fun same => ne_eof same.symm

private theorem nthIs_clear {kind : Kind} [Evident (goesOn kind)] :
    Spends view false (Lookahead.nthIs n kind) fun found => found = false ∧ view.limit ≤ n := nthIs_of Bool.noConfusion id

theorem nthIs {kind : Kind} [Evident (goesOn kind)] [leads : Evident (leadsOn kind)] (stuck : hit = true → view.Blocked n) :
    Spends view hit (Lookahead.nthIs n kind) fun found => found = false ∧ view.Blocked n :=
  nthIs_of (fun same => ⟨(stuck same).ne, stuck same⟩) View.blocked_of_le

theorem both {first second : Peek Bool} {fact : Prop} (one : Spends view hit first fun found => found = false ∧ fact)
    (two : ∀ hit', first view hit = some (true, hit') → hit' = false → Spends view hit' second fun found => found = false ∧ fact) :
    Spends view hit (Lookahead.both first second) fun found => found = false ∧ fact :=
  one.bind fun found hit' ran seen => by
    cases found with
    | false => exact .pure fun same => ⟨rfl, (seen same).2⟩
    | true => exact two hit' ran (Bool.eq_false_iff.mpr fun same => Bool.noConfusion (seen same).1)

theorem limit {next : Nat → Peek α} (rest : Spends view hit (next (view.cursor.stream.size + 1)) spent) :
    Spends view hit (stepLimit >>= next) spent := rest

end Spends

def onAccepted (next : β → Scan α) : Option β → Peek (Option α)
  | some b => (next b).run
  | none => Pure.pure none

namespace ScanSpends

variable {spent : α → Prop} {test : β → Prop}

theorem pure {a : α} (holds : hit = true → spent a) : ScanSpends view hit (Pure.pure a : Scan α) spent :=
  have given : Spends view hit (Pure.pure (some a)) fun found => ∀ a, found = some a → spent a :=
    .pure fun same _ found => Option.some.inj found ▸ holds same
  given

theorem fails : ScanSpends view hit (failure : Scan α) spent :=
  have given : Spends view hit (Pure.pure none) fun found : Option α => ∀ a, found = some a → spent a :=
    .pure fun _ _ found => absurd found (Option.some_ne_none _).symm
  given

theorem bind {first : Scan β} {next : β → Scan α} (one : ScanSpends view hit first test)
    (rest : ∀ b hit', first.run view hit = some (some b, hit') → (hit' = true → test b) → ScanSpends view hit' (next b) spent) :
    ScanSpends view hit (first >>= next) spent := by
  have whole : Spends view hit (first.run >>= onAccepted next) fun found => ∀ a, found = some a → spent a := by
    refine Spends.bind one fun found hit' ran seen => ?_
    cases found with
    | none => exact .pure fun _ _ found => absurd found (Option.some_ne_none _).symm
    | some b => exact rest b hit' ran fun same => seen same b rfl
  exact whole

theorem lift {peek : Peek α} (spends : Spends view hit peek spent) : ScanSpends view hit (liftM peek : Scan α) spent :=
  have lifted : Spends view hit (do return some (← peek)) fun found => ∀ a, found = some a → spent a :=
    spends.bind fun _ _ _ holds => .pure fun same _ found => Option.some.inj found ▸ holds same
  lifted

private theorem look_apply {peek : Peek β} {next : β → Scan α} :
    (liftM peek >>= next : Scan α).run view hit = (peek >>= fun b => (next b).run) view hit := by
  show ((peek view hit).bind fun (b, hit) => some (some b, hit)).bind (fun (found, hit) => onAccepted next found view hit) =
    (peek view hit).bind fun (b, hit) => (next b).run view hit
  rcases peek view hit with _ | ⟨b, hit⟩ <;> rfl

theorem look {peek : Peek β} {next : β → Scan α} (one : Spends view hit peek test)
    (rest : ∀ b hit', peek view hit = some (b, hit') → (hit' = true → test b) → ScanSpends view hit' (next b) spent) :
    ScanSpends view hit (liftM peek >>= next) spent := by
  have whole : Spends view hit (peek >>= fun b => (next b).run) fun found => ∀ a, found = some a → spent a :=
    Spends.bind one rest
  exact fun found ran => whole found (look_apply.symm.trans ran)

/-- A question that is answered in the affirmative only before the limit was hit. -/
theorem ask {question : Peek Bool} {fact : Prop} {yes no : Scan α}
    (asked : Spends view hit question fun found => found = false ∧ fact)
    (one : question view hit = some (true, false) → ScanSpends view false yes spent)
    (two : ∀ hit', (hit' = true → fact) → ScanSpends view hit' no spent) :
    ScanSpends view hit (do if ← question then yes else no) spent :=
  look asked fun found hit' ran seen => by
    cases found with
    | false => exact two hit' fun same => (seen same).2
    | true =>
      obtain rfl : hit' = false := Bool.eq_false_iff.mpr fun same => Bool.noConfusion (seen same).1
      exact one ran

theorem limit {next : Nat → Scan α} (rest : ScanSpends view hit (next (view.cursor.stream.size + 1)) spent) :
    ScanSpends view hit (liftM stepLimit >>= next) spent := rest

theorem succeeds {scan : Scan Bool} (spends : ScanSpends view hit scan (· = false)) :
    Spends view hit (Lookahead.succeeds scan) (· = false) :=
  Spends.bind spends fun found _ _ rejects => .pure fun same => by
    cases found with
    | none => rfl
    | some answer => exact rejects same answer rfl

end ScanSpends

section Scans

variable {m steps depth levels : Nat}

private theorem closingFrom_spends {opener closer : Kind} :
    ScanSpends view false (closingFrom opener closer steps depth n) fun _ => False := by
  induction steps generalizing depth n with
  | zero => exact .outOfSteps
  | succ steps ih =>
    refine .look .nth_clear fun kind hit _ seen => ?_
    split
    · exact .fails
    · next going =>
      obtain rfl : hit = false := Bool.eq_false_iff.mpr fun same => going (seen same).1
      split
      · exact ih
      · split
        · split
          · exact .pure Bool.noConfusion
          · exact ih
        · exact ih

private theorem balanced_spends : ScanSpends view false (balanced n) fun _ => False := by
  refine .look .nth_clear fun opener hit _ seen => ?_
  split
  · next closer closes =>
    obtain rfl : hit = false := Bool.eq_false_iff.mpr fun same => by
      rw [(seen same).1] at closes
      cases closes
    exact .limit closingFrom_spends
  · exact .fails

private theorem nameTail_spends : Spends view false (nameTail steps n) view.Ended := by
  induction steps generalizing n with
  | zero => exact .outOfSteps
  | succ steps ih =>
    have named : Spends view false (both (nthIs n .dot) (nthIs (n + 1) .identifier)) fun found => found = false ∧ view.Ended n := by
      refine .both (Spends.nthIs_clear.weaken fun _ seen => ⟨seen.1, View.ended_of_le seen.2⟩) fun hit ran clear => ?_
      subst clear
      refine Spends.nthIs_clear.weaken fun _ seen => ⟨seen.1, .inr ?_⟩
      exact shown_of_nthIs ran
    refine named.bind fun found hit _ seen => ?_
    cases found with
    | false => exact .pure fun same => (seen same).2
    | true =>
      obtain rfl : hit = false := Bool.eq_false_iff.mpr fun same => Bool.noConfusion (seen same).1
      exact ih

private theorem qualifiedName_spends (stuck : hit = true → view.Blocked n) : ScanSpends view hit (qualifiedName n) view.Ended :=
  .ask (.nthIs stuck) (fun _ => .limit (.lift nameTail_spends)) fun _ _ => .fails

/-- An `@` that is the last token within the limit is taken for an annotation, whose name is then missing. -/
theorem annotationsFrom_spends {place : Nat → Prop} (barrier : view.Barrier place) (stuck : hit = true → place n) :
    ScanSpends view hit (annotationsFrom steps n) place := by
  induction steps generalizing n hit with
  | zero => exact .outOfSteps
  | succ steps ih =>
    have far {n : Nat} (beyond : view.limit ≤ n) : place n := barrier.ended (View.ended_of_le beyond)
    have sign : Spends view hit (both (nthIs n .atSign) (return (← nth (n + 1)) != .interfaceKw)) fun found =>
        if found then view.Blocked (n + 1) else place n := by
      refine (Spends.nthIs_of (fun same => ⟨(barrier.other (stuck same)).1, stuck same⟩) far).bind fun found hit _ seen => ?_
      cases found with
      | false => exact .pure fun same => (seen same).2
      | true =>
        refine (Spends.nth_far fun same => Bool.noConfusion (seen same).1).bind fun kind hit _ seen => .pure fun same => ?_
        obtain ⟨rfl, beyond⟩ := seen same
        exact View.blocked_of_le beyond
    refine .look sign fun found hit _ seen => ?_
    cases found with
    | false => exact .pure seen
    | true =>
      refine .bind (qualifiedName_spends seen) fun m hit _ ended => ?_
      have closed : Spends view hit (nthIs m .leftParen) fun found => found = false ∧ place m :=
        .nthIs_of (fun same => ⟨(ended same).blocked.ne, barrier.ended (ended same)⟩) far
      refine .ask closed (fun _ => ?_) fun hit placed => ih placed
      exact .bind balanced_spends fun close hit _ never => ih fun same => (never same).elim

private theorem annotations_spends {place : Nat → Prop} (barrier : view.Barrier place) (stuck : hit = true → place n) :
    ScanSpends view hit (annotations n) place :=
  .limit (annotationsFrom_spends barrier stuck)

private theorem modifiersFrom_spends {place : Nat → Prop} (barrier : view.Barrier place) {accepts : Nat → Peek Bool}
    (asks : ∀ n hit, (hit = true → place n) → Spends view hit (accepts n) fun found => found = false ∧ place n)
    (stuck : hit = true → place n) : ScanSpends view hit (modifiersFrom accepts steps n) place := by
  induction steps generalizing n hit with
  | zero => exact .outOfSteps
  | succ steps ih =>
    refine .bind (annotations_spends barrier stuck) fun m hit _ placed => ?_
    exact .ask (asks m hit placed) (fun _ => ih Bool.noConfusion) fun hit placed => .pure placed

private theorem localModifiers_spends {place : Nat → Prop} (barrier : view.Barrier place) (stuck : hit = true → place n) :
    ScanSpends view hit (localModifiers n) place :=
  .limit <| modifiersFrom_spends barrier (fun _ _ stuck => .nthIs_of
    (fun same => ⟨(barrier.other (stuck same)).2, stuck same⟩) fun beyond => barrier.ended (View.ended_of_le beyond)) stuck

private theorem nthIsWord_spends {keyword : Kind} (stuck : hit = true → view.Blocked n) :
    Spends view hit (nthIsWord n keyword) fun found => found = false ∧ view.Blocked n := by
  refine (Spends.nthIs stuck).bind fun found hit _ seen => ?_
  cases found with
  | false => exact .pure fun same => ⟨rfl, (seen same).2⟩
  | true =>
    obtain rfl : hit = false := Bool.eq_false_iff.mpr fun same => Bool.noConfusion (seen same).1
    exact fun found ran => Bool.noConfusion (Prod.mk.inj (Option.some.inj ran)).2

private theorem modifiers_spends (stuck : hit = true → view.Blocked n) : ScanSpends view hit (modifiers n) view.Blocked := by
  refine .limit (modifiersFrom_spends View.blocked_barrier (fun n hit stuck => ?_) stuck)
  refine (Spends.nth stuck View.blocked_of_le).bind fun kind hit _ seen => ?_
  split
  · next modifier =>
    refine .pure fun same => ?_
    obtain ⟨rfl, ends⟩ := seen same
    exact Bool.noConfusion ((leadsOn_of_modifier modifier).symm.trans ends)
  · exact nthIsWord_spends fun same => (seen same).2

private theorem dimsFrom_spends {place : Nat → Prop} (far : ∀ {n}, view.limit ≤ n → place n)
    (other : ∀ {n}, place n → view.shown n ≠ .leftBracket) (stuck : hit = true → place n) :
    Spends view hit (dimsFrom steps n) fun m => place m ∨ view.shown m = .leftBracket := by
  induction steps generalizing n hit with
  | zero => exact .outOfSteps
  | succ steps ih =>
    have pair : Spends view hit (both (nthIs n .leftBracket) (nthIs (n + 1) .rightBracket)) fun found =>
        found = false ∧ (place n ∨ view.shown n = .leftBracket) := by
      refine .both (.nthIs_of (fun same => ⟨other (stuck same), .inl (stuck same)⟩) fun beyond => .inl (far beyond)) ?_
      rintro _ ran rfl
      exact Spends.nthIs_clear.weaken fun _ seen => ⟨seen.1, .inr (shown_of_nthIs ran)⟩
    refine pair.bind fun found hit _ seen => ?_
    cases found with
    | false => exact .pure fun same => (seen same).2
    | true => exact ih fun same => Bool.noConfusion (seen same).1

private theorem dims_spends (stuck : hit = true → view.Ended n) : Spends view hit (dims n) view.Blocked := by
  refine Spends.limit <| Spends.weaken (dimsFrom_spends View.ended_of_le (fun ended => ?_) stuck) fun m shown => ?_
  · rcases ended with same | same <;> rw [same] <;> decide
  · rcases shown with ended | same
    · exact ended.blocked
    · rw [View.Blocked, same]

section Types

variable {type : Nat → Scan Nat}
  (types : ∀ {n hit}, (hit = true → view.Blocked n) → ScanSpends view hit (type n) view.Blocked)

include types

private theorem typeArgumentsFrom_spends (stuck : hit = true → view.Blocked n) :
    ScanSpends view hit (typeArgumentsFrom type steps n) fun _ => False := by
  induction steps generalizing n hit with
  | zero => exact .outOfSteps
  | succ steps ih =>
    have ended (m : Nat) (hit : Bool) (blocked : hit = true → view.Blocked m) :
        ScanSpends view hit (Limits.argumentEnd (typeArgumentsFrom type steps (m + 1)) m) fun _ => False := by
      refine .look (.nth blocked View.blocked_of_le) fun kind hit _ seen => ?_
      split
      · exact ih fun same => ((seen same).2.ne (seen same).1).elim
      · exact .pure fun same => (seen same).2.ne (seen same).1
      · exact .fails
    refine .bind (annotations_spends View.blocked_barrier stuck) fun m hit _ blocked => ?_
    refine .ask (.nthIs blocked) (fun _ => ?_) fun hit blocked => .bind (types blocked) fun m hit _ => ended m hit
    refine .look .nth_clear fun bound hit _ seen => ?_
    split
    · next bounds =>
      refine .bind (types fun same => ?_) fun m hit _ => ended m hit
      rw [(seen same).1] at bounds
      rcases bounds with impossible | impossible <;> cases impossible
    · have bare : ScanSpends view hit (Pure.pure (m + 1)) view.Blocked := .pure fun same => View.blocked_of_le (seen same).2
      exact .bind bare fun m hit _ => ended m hit

private theorem typeArguments_spends : ScanSpends view false (typeArguments type n) fun _ => False :=
  .ask .nthIs_clear (fun _ => .pure Bool.noConfusion) fun _ beyond =>
    .limit (typeArgumentsFrom_spends types fun same => View.blocked_of_le (beyond same))

private theorem typeSegments_spends (stuck : hit = true → view.shown n = .eof) :
    ScanSpends view hit (typeSegments type steps n) view.Ended := by
  induction steps generalizing n hit with
  | zero => exact .outOfSteps
  | succ steps ih =>
    have further (m : Nat) (hit : Bool) (ended : hit = true → view.shown m = .eof) : ScanSpends view hit (do
        if ← nthIs m .dot then
          let after ← annotations (m + 1)
          if ← nthIs after .identifier then typeSegments type steps (after + 1) else return m
        else
          return m) view.Ended := by
      have dotted : Spends view hit (nthIs m .dot) fun found => found = false ∧ view.Ended m :=
        .nthIs_of (fun same => ⟨by rw [ended same]; decide, .inl (ended same)⟩) View.ended_of_le
      refine .ask dotted (fun ran => ?_) fun hit ended => .pure ended
      refine .bind (annotations_spends View.blocked_barrier fun impossible => Bool.noConfusion impossible) fun after hit _ blocked => ?_
      exact .ask (.nthIs blocked) (fun _ => ih Bool.noConfusion) fun hit _ => .pure fun _ => .inr (shown_of_nthIs ran)
    have opened : Spends view hit (nthIs n .lt) fun found => found = false ∧ view.shown n = .eof :=
      .nthIs_of (fun same => ⟨by rw [stuck same]; decide, stuck same⟩) fun beyond => if_pos beyond
    refine .ask opened (fun _ => ?_) fun hit ended => ?_
    · exact .bind (typeArguments_spends types) fun m hit _ never => further m hit fun same => (never same).elim
    · have bare : ScanSpends view hit (Pure.pure n) fun m => view.shown m = .eof := .pure ended
      exact .bind bare fun m hit _ => further m hit

end Types

private theorem typeWithin_spends (stuck : hit = true → view.Spent n) : ScanSpends view hit (typeWithin levels n) view.Blocked := by
  induction levels generalizing n hit with
  | zero => exact .outOfSteps
  | succ levels ih =>
    refine .bind (annotations_spends View.spent_barrier stuck) fun m hit _ spent => ?_
    refine .look (.nth spent fun beyond => .inl (View.blocked_of_le beyond)) fun kind hit _ seen => ?_
    split
    · next primitive =>
      refine .lift (dims_spends fun same => ?_)
      obtain ⟨rfl, blocked | ⟨name, -⟩⟩ := seen same
      · exact Bool.noConfusion ((leadsOn_of_isPrimitiveType primitive).symm.trans blocked)
      · rw [name] at primitive
        cases primitive
    · split
      · next name =>
        subst name
        have last (same : hit = true) : view.shown (m + 1) = .eof := by
          obtain ⟨shown, blocked | ⟨-, beyond⟩⟩ := seen same
          · exact (blocked.ne shown).elim
          · exact if_pos beyond
        exact .limit <| .bind (typeSegments_spends (fun stuck => ih fun same => .inl (stuck same)) last)
          fun k hit _ ended => .lift (dims_spends ended)
      · exact .fails

private theorem type_spends (stuck : hit = true → view.Spent n) : ScanSpends view hit (type n) view.Blocked :=
  .limit (typeWithin_spends stuck)

private theorem intersectionFrom_spends (stuck : hit = true → view.Blocked n) :
    ScanSpends view hit (intersectionFrom steps n) view.Blocked := by
  induction steps generalizing n hit with
  | zero => exact .outOfSteps
  | succ steps ih =>
    exact .ask (.nthIs stuck) (fun _ => .bind (type_spends Bool.noConfusion) fun _ _ _ => ih) fun hit blocked => .pure blocked

private theorem castType_spends : ScanSpends view false (castType n) view.Blocked :=
  .limit <| .bind (type_spends Bool.noConfusion) fun _ _ _ => intersectionFrom_spends

private theorem bareParams_spends : ScanSpends view false (bareParams steps n) fun _ => False := by
  induction steps generalizing n with
  | zero => exact .outOfSteps
  | succ steps ih =>
    refine .look .nth_clear fun name hit _ seen => ?_
    cases hit with
    | true =>
      rw [(seen rfl).1]
      exact .look (fun next _ => trivial : Spends view true _ fun _ => True) fun next hit _ _ => .fails
    | false =>
      refine .look .nth_clear fun next hit _ seen => ?_
      split
      · obtain rfl : hit = false := Bool.eq_false_iff.mpr fun same => absurd (seen same).1 (by decide)
        exact ih
      · exact .pure fun same => absurd (seen same).1 (by decide)
      · exact .fails

def paramEnd (rest : Nat → Scan Nat) (n : Nat) : Scan Nat := do
  if ← nthIs n .identifier then
    let n ← dims (n + 1)
    match ← nth n with
    | .comma => rest (n + 1)
    | .rightParen => return n
    | _ => failure
  else
    failure

private theorem typedParams_spends (stuck : hit = true → view.Spent n) : ScanSpends view hit (typedParams steps n) fun _ => False := by
  induction steps generalizing n hit with
  | zero => exact .outOfSteps
  | succ steps ih =>
    have ended (m : Nat) (hit : Bool) (blocked : hit = true → view.Blocked m) :
        ScanSpends view hit (paramEnd (typedParams steps) m) fun _ => False := by
      refine .ask (.nthIs blocked) (fun _ => ?_) fun _ _ => .fails
      refine .look (dims_spends Bool.noConfusion) fun k hit _ blocked => ?_
      refine .look (.nth blocked View.blocked_of_le) fun kind hit _ seen => ?_
      split
      · exact ih fun same => ((seen same).2.ne (seen same).1).elim
      · exact .pure fun same => (seen same).2.ne (seen same).1
      · exact .fails
    refine .bind (localModifiers_spends View.spent_barrier stuck) fun i hit _ spent => ?_
    refine .bind (type_spends spent) fun j hit _ blocked => ?_
    refine .bind (annotations_spends View.blocked_barrier blocked) fun k hit _ blocked => ?_
    refine .look (.nthIs blocked) fun found hit _ seen => ?_
    cases found with
    | true => exact ended (k + 1) hit fun same => Bool.noConfusion (seen same).1
    | false => exact ended k hit fun same => (seen same).2

private theorem lambdaParams_spends : ScanSpends view false (lambdaParams n) fun _ => False := by
  refine .look (.nth Bool.noConfusion fun beyond => beyond) fun kind hit ran seen => ?_
  have typed {hit : Bool} (stuck : hit = true → view.Spent n) :
      ScanSpends view hit (do typedParams (← stepLimit) n) fun _ => False := .limit (typedParams_spends stuck)
  have shown : view.shown n = kind := (Prod.mk.inj (Option.some.inj ((nth_apply view n false).symm.trans ran))).1
  have ended (same : hit = true) : kind = .eof := shown.symm.trans (if_pos (seen same).2)
  split
  · next close => exact .pure fun same => absurd (close.symm.trans (ended same)) (by decide)
  · split
    · next name =>
      obtain rfl : hit = false := Bool.eq_false_iff.mpr fun same => absurd (name.symm.trans (ended same)) (by decide)
      refine .look .nth_clear fun next hit _ seen => ?_
      split
      · next listed =>
        obtain rfl : hit = false := Bool.eq_false_iff.mpr fun same => by
          rw [(seen same).1] at listed
          rcases listed with impossible | impossible <;> cases impossible
        exact .limit bareParams_spends
      · exact typed fun same => .inr ⟨shown.trans name, (seen same).2⟩
    · exact typed fun same => .inl (View.blocked_of_le (seen same).2)

private theorem isLambda_spends : ScanSpends view false isLambda (· = false) :=
  .bind lambdaParams_spends fun m hit _ never => by
    obtain rfl : hit = false := Bool.eq_false_iff.mpr never
    exact .lift (Spends.nthIs_clear.weaken fun _ seen => seen.1)

private theorem startsCastOperand_spends : Spends view false (startsCastOperand n) (· = false) := by
  refine Spends.nth_clear.bind fun kind hit _ seen => ?_
  have behind : Spends view false (do return startsPrimary (← nth (n + 1))) (· = false) :=
    Spends.nth_clear.bind fun kind hit _ seen => .pure fun same => by rw [(seen same).1]; rfl
  cases hit with
  | true =>
    rw [(seen rfl).1]
    exact .pure fun _ => rfl
  | false =>
    split
    · exact .pure Bool.noConfusion
    · exact .pure Bool.noConfusion
    · exact .pure Bool.noConfusion
    · exact .pure Bool.noConfusion
    · exact behind
    · exact behind
    · exact .pure Bool.noConfusion

private theorem isLocalVarDecl_spends : ScanSpends view false isLocalVarDecl (· = false) :=
  .bind (localModifiers_spends View.spent_barrier Bool.noConfusion) fun _ _ _ spent =>
    .bind (type_spends spent) fun _ _ _ blocked => .lift ((Spends.nthIs blocked).weaken fun _ seen => seen.1)

private theorem isForeach_spends : ScanSpends view false isForeach (· = false) := by
  refine .bind (localModifiers_spends View.spent_barrier Bool.noConfusion) fun _ _ _ spent => ?_
  refine .bind (type_spends spent) fun stop hit _ blocked => .lift ?_
  have pair : Spends view hit (both (nthIs stop .identifier) (nthIs (stop + 1) .colon)) fun found => found = false ∧ True := by
    refine .both ((Spends.nthIs blocked).weaken fun _ seen => ⟨seen.1, trivial⟩) ?_
    rintro _ - rfl
    exact Spends.nthIs_clear.weaken fun _ seen => ⟨seen.1, trivial⟩
  exact pair.weaken fun _ => And.left

private theorem isLocalTypeDecl_spends : ScanSpends view false isLocalTypeDecl (· = false) := by
  refine .bind (modifiers_spends Bool.noConfusion) fun n hit _ blocked => ?_
  refine .look (.nth blocked View.blocked_of_le) fun kind hit _ seen => ?_
  have clear (leads : leadsOn kind = true) : hit = false := Bool.eq_false_iff.mpr fun same =>
    Bool.noConfusion (((seen same).1 ▸ (seen same).2 : leadsOn kind = false).symm.trans leads)
  split
  · exact .pure fun same => Bool.noConfusion (same.symm.trans (clear rfl))
  · exact .pure fun same => Bool.noConfusion (same.symm.trans (clear rfl))
  · exact .pure fun same => Bool.noConfusion (same.symm.trans (clear rfl))
  · obtain rfl := clear rfl
    exact .lift (Spends.nthIs_clear.weaken fun _ seen => seen.1)
  · have pair : Spends view hit (both (nthIsWord n .recordKw) (nthIs (n + 1) .identifier)) fun found => found = false ∧ True := by
      refine .both ((nthIsWord_spends fun same => (seen same).2).weaken fun _ seen => ⟨seen.1, trivial⟩) ?_
      rintro _ - rfl
      exact Spends.nthIs_clear.weaken fun _ seen => ⟨seen.1, trivial⟩
    exact .lift (pair.weaken fun _ => And.left)

private theorem patternKindFrom_spends : ScanSpends view false (patternKindFrom steps n) fun _ => False := by
  induction steps generalizing n with
  | zero => exact .outOfSteps
  | succ steps ih =>
    refine .ask .nthIs_clear (fun _ => ih) fun hit beyond => ?_
    refine .bind (localModifiers_spends View.spent_barrier fun same => .inl (View.blocked_of_le (beyond same)))
      fun _ _ _ spent => ?_
    refine .bind (type_spends spent) fun stop hit _ blocked => ?_
    refine .look (.nth blocked View.blocked_of_le) fun kind hit _ seen => ?_
    split
    · exact .pure fun same => (seen same).2.ne (seen same).1
    · exact .pure fun same => (seen same).2.ne (seen same).1
    · exact .fails

/-- The second of two tokens is asked for although the first one, a `::`, has settled the matter. -/
theorem isArrayTypeLiteral_spends : ScanSpends view false isArrayTypeLiteral fun found =>
    found = true → ∃ n, n + 1 = view.limit ∧ view.cursor.nth n = .colonColon := by
  refine .bind (qualifiedName_spends Bool.noConfusion) fun n hit _ ended => ?_
  have pair : Spends view hit (both (nthIs n .leftBracket) (nthIs (n + 1) .rightBracket)) fun found => found = false ∧ True := by
    refine .both (.nthIs_of (fun same => ⟨?_, trivial⟩) fun _ => trivial) ?_
    · rcases ended same with shown | shown <;> rw [shown] <;> decide
    · rintro _ - rfl
      exact Spends.nthIs_clear.weaken fun _ seen => ⟨seen.1, trivial⟩
  refine .ask pair (fun _ => ?_) fun hit _ => .pure fun _ => Bool.noConfusion
  have brackets : Spends view false (dims n) fun stop => view.limit ≤ stop ∨ view.shown stop = .leftBracket :=
    .limit <| dimsFrom_spends id (fun beyond => by rw [View.shown, if_pos beyond]; decide) Bool.noConfusion
  refine .look brackets fun stop hit _ behind => ?_
  refine .look (.nth behind .inl) fun first hit ran seen => ?_
  have next : Spends view hit (nth (stop + 1)) fun second => view.shown (stop + 1) = second ∧
      (hit = true ∨ view.limit ≤ stop + 1) := .nth .inl .inr
  refine .look next fun second _ _ also => .pure fun same found => ?_
  cases hit with
  | true =>
    obtain ⟨rfl, beyond | opener⟩ := seen rfl
    · rw [View.shown, if_pos beyond] at found
      cases found
    · rw [opener] at found
      cases found
  | false =>
    obtain ⟨rfl, impossible | beyond⟩ := also same
    · cases impossible
    · rw [nth_apply] at ran
      obtain ⟨rfl, clear⟩ := Prod.mk.inj (Option.some.inj ran)
      have within : stop < view.limit := Nat.lt_of_not_le (of_decide_eq_false (Bool.or_eq_false_iff.mp clear).2)
      have after : view.shown (stop + 1) = .eof := if_pos beyond
      rw [after, View.shown, if_neg (Nat.not_le_of_lt within)] at found
      exact ⟨stop, by omega, by simpa using found⟩

section Casts

variable {k : Nat}

private theorem clear_unique {peek : Peek α} {a b : α} (one : Clear view peek a) (two : Clear view peek b) : a = b :=
  (Prod.mk.inj (Option.some.inj (one.symm.trans two))).1

theorem Accepts.followed {first : Scan β} {next : β → Scan α} {b : β} {found : Option α} (one : Accepts view first b)
    (rest : Clear view (next b).run found) : Clear view (first >>= next).run found := by
  show (first.run view false).bind (fun (found, hit) => onAccepted next found view hit) = some (found, false)
  rw [show first.run view false = some (some b, false) from one]
  exact rest

private theorem fails_bind {first : Scan β} {next : β → Scan α} (one : Clear view first.run none) :
    Clear view (first >>= next).run none := by
  show (first.run view false).bind (fun (found, hit) => onAccepted next found view hit) = some (none, false)
  rw [show first.run view false = some (none, false) from one]
  rfl

theorem Accepts.looked {peek : Peek β} {next : β → Scan α} {b : β} {found : Option α} (one : Clear view peek b)
    (rest : Clear view (next b).run found) : Clear view (liftM peek >>= next).run found :=
  Accepts.followed (accepts_lift.mpr one) rest

private theorem clear_other {kind : Kind} (within : n < view.limit) (other : view.cursor.nth n ≠ kind) :
    Clear view (nthIs n kind) false := clear_nthIs.mpr ⟨within, beq_eq_false_iff_ne.mpr other⟩

private theorem within_of_annotations (accepts : Accepts view (annotations n) m) : n < view.limit := by
  obtain ⟨_, limited, accepts⟩ := accepts_bind.mp accepts
  obtain rfl := clear_stepLimit.mp (accepts_lift.mp limited)
  unfold annotationsFrom at accepts
  rcases accepts_test.mp accepts with ⟨found, -⟩ | ⟨found, -⟩
  all_goals
    rcases clear_both.mp found with ⟨sign, -⟩ | ⟨sign, -⟩
    all_goals exact (clear_nthIs.mp sign).1

private theorem annotations_none (within : n < view.limit) (other : view.cursor.nth n ≠ .atSign) : Accepts view (annotations n) n :=
  accepts_bind.mpr ⟨_, accepts_lift.mpr (clear_stepLimit.mpr rfl), accepts_test.mpr
    (.inr ⟨clear_both.mpr (.inr ⟨clear_other within other, rfl⟩), accepts_pure.mpr rfl⟩)⟩

/-- Where a type stands, an element of it stands behind the annotations. -/
theorem type_begins (accepts : Accepts view (type n) m) :
    ∃ start, Accepts view (annotations n) start ∧ start < view.limit ∧
      ((view.cursor.nth start).isPrimitiveType = true ∨ view.cursor.nth start = .identifier ∧ start + 1 < view.limit) ∧
      Accepts view (type start) m := by
  obtain ⟨levels, limited, within⟩ := accepts_bind.mp accepts
  obtain rfl := clear_stepLimit.mp (accepts_lift.mp limited)
  obtain ⟨start, annotated, element⟩ := accepts_bind.mp within
  obtain ⟨kind, seen, rest⟩ := accepts_bind.mp element
  obtain ⟨inside, rfl⟩ := clear_nth.mp (accepts_lift.mp seen)
  have again (other : view.cursor.nth start ≠ .atSign) : Accepts view (type start) m :=
    accepts_bind.mpr ⟨_, limited, accepts_bind.mpr ⟨start, annotations_none inside other, element⟩⟩
  refine ⟨start, annotated, inside, ?_⟩
  split at rest
  · next primitive =>
    refine ⟨.inl primitive, again fun sign => ?_⟩
    rw [sign] at primitive
    cases primitive
  · split at rest
    · next name =>
      refine ⟨.inr ⟨name, ?_⟩, again fun sign => absurd (name.symm.trans sign) (by decide)⟩
      obtain ⟨_, limited, rest⟩ := accepts_bind.mp rest
      obtain rfl := clear_stepLimit.mp (accepts_lift.mp limited)
      obtain ⟨_, segments, -⟩ := accepts_bind.mp rest
      unfold typeSegments at segments
      rcases accepts_test.mp segments with ⟨found, -⟩ | ⟨found, -⟩
      all_goals exact (clear_nthIs.mp found).1
    · exact absurd rest accepts_failure

private theorem castType_begins (accepts : Accepts view (castType n) m) :
    ∃ stop, Accepts view (type n) stop ∧ stop < view.limit ∧ (view.cursor.nth stop = .amp ∨ stop = m) := by
  obtain ⟨steps, limited, accepts⟩ := accepts_bind.mp accepts
  obtain rfl := clear_stepLimit.mp (accepts_lift.mp limited)
  obtain ⟨stop, type, others⟩ := accepts_bind.mp accepts
  refine ⟨stop, type, ?_⟩
  unfold intersectionFrom at others
  rcases accepts_test.mp others with ⟨found, -⟩ | ⟨found, rest⟩
  · exact ⟨(clear_nthIs.mp found).1, .inl (beq_iff_eq.mp (clear_nthIs.mp found).2)⟩
  · exact ⟨(clear_nthIs.mp found).1, .inr (accepts_pure.mp rest)⟩

private theorem type_of_name (name : view.cursor.nth n = .identifier) (inside : n + 1 < view.limit)
    (bare : view.cursor.nth (n + 1) = .comma ∨ view.cursor.nth (n + 1) = .rightParen) : Accepts view (type n) (n + 1) := by
  have other (kind : Kind) (differs : kind ≠ .comma ∧ kind ≠ .rightParen) : Clear view (nthIs (n + 1) kind) false := by
    refine clear_other inside fun same => ?_
    rcases bare with shown | shown
    · exact differs.1 (same.symm.trans shown)
    · exact differs.2 (same.symm.trans shown)
  have limited {scan : Nat → Scan Nat} (rest : Accepts view (scan (view.cursor.stream.size + 1)) (n + 1)) :
      Accepts view (do scan (← stepLimit)) (n + 1) := Accepts.looked (clear_stepLimit.mpr rfl) rest
  refine limited (Accepts.followed (annotations_none (by omega) (by rw [name]; decide)) ?_)
  refine Accepts.looked (clear_nth.mpr ⟨by omega, name⟩) (limited ?_)
  have segments : Accepts view (typeSegments (typeWithin view.cursor.stream.size) (view.cursor.stream.size + 1) (n + 1)) (n + 1) := by
    refine Accepts.looked (other .lt (by decide)) ?_
    exact Accepts.followed (accepts_pure.mpr rfl) (Accepts.looked (other .dot (by decide)) (accepts_pure.mpr rfl))
  refine Accepts.followed segments (accepts_lift.mpr (clear_bind.mpr ⟨_, clear_stepLimit.mpr rfl, ?_⟩))
  exact clear_test.mpr (.inr ⟨clear_both.mpr (.inr ⟨other .leftBracket (by decide), rfl⟩), clear_pure.mpr rfl⟩)

private theorem typedParams_fails {start stop : Nat} (annotated : Accepts view (annotations n) start) (inside : start < view.limit)
    (begins : view.cursor.nth start ≠ .finalKw) (type : Accepts view (Lookahead.type start) stop) (within : stop < view.limit)
    (behind : view.cursor.nth stop = .amp ∨ view.cursor.nth stop = .rightParen) :
    Clear view (typedParams (steps + 1) n).run none := by
  have other (kind : Kind) (differs : kind ≠ .amp ∧ kind ≠ .rightParen) : view.cursor.nth stop ≠ kind := fun same => by
    rcases behind with shown | shown
    · exact differs.1 (same.symm.trans shown)
    · exact differs.2 (same.symm.trans shown)
  have modifiers : Accepts view (localModifiers n) start := by
    refine Accepts.looked (clear_stepLimit.mpr rfl) (Accepts.followed annotated ?_)
    exact Accepts.looked (clear_other inside begins) (accepts_pure.mpr rfl)
  refine Accepts.followed modifiers (Accepts.followed type ?_)
  refine Accepts.followed (annotations_none within (other .atSign (by decide))) ?_
  refine Accepts.looked (clear_other within (other .ellipsis (by decide))) ?_
  exact Accepts.looked (clear_other within (other .identifier (by decide))) (clear_pure.mpr rfl)

private theorem within_of_startsCastOperand {answer : Bool} (clear : Clear view (startsCastOperand n) answer) : n < view.limit := by
  unfold startsCastOperand at clear
  rw [@clear_bind _ _ _ _ _ (fun kind => by split <;> infer_instance)] at clear
  obtain ⟨_, seen, -⟩ := clear
  exact (clear_nth.mp seen).1

/-- Where a cast stands, a scan for a lambda comes to its end within the limit. -/
theorem isLambda_clear (cast : Accepts view isCast true) : ∃ found, Clear view isLambda.run found := by
  obtain ⟨close, accepts, rest⟩ := accepts_bind.mp cast
  obtain ⟨stop, type, within, ends⟩ := castType_begins accepts
  obtain ⟨start, annotated, inside, begins, again⟩ := type_begins type
  rcases accepts_test.mp rest with ⟨closed, rest⟩ | ⟨-, impossible⟩
  swap
  · cases accepts_pure.mp impossible
  have closer : view.cursor.nth close = .rightParen := beq_iff_eq.mp (clear_nthIs.mp closed).2
  have behind : view.cursor.nth stop = .amp ∨ view.cursor.nth stop = .rightParen := by
    rcases ends with amp | rfl
    · exact .inl amp
    · exact .inr closer
  have plain : view.cursor.nth start ≠ .finalKw := fun shown => by
    rcases begins with primitive | ⟨name, -⟩
    · rw [shown] at primitive
      cases primitive
    · cases name.symm.trans shown
  have first : 1 < view.limit := within_of_annotations annotated
  have here (other : view.cursor.nth 1 ≠ .atSign) : start = 1 :=
    Option.some.inj (clear_unique annotated (annotations_none first other))
  have typed : Clear view (do typedParams (← stepLimit) 1 : Scan Nat).run none :=
    Accepts.looked (clear_stepLimit.mpr rfl) (typedParams_fails annotated inside plain again within behind)
  by_cases none : view.cursor.nth 1 = .rightParen
  · obtain rfl := here (by rw [none]; decide)
    rcases begins with primitive | ⟨name, -⟩
    · rw [none] at primitive
      cases primitive
    · cases none.symm.trans name
  by_cases name : view.cursor.nth 1 = .identifier
  swap
  · refine ⟨_, fails_bind (Accepts.looked (clear_nth.mpr ⟨first, rfl⟩) ?_)⟩
    rw [if_neg none, if_neg name]
    exact typed
  obtain rfl := here (by rw [name]; decide)
  have second : 2 < view.limit := by
    rcases begins with primitive | ⟨-, second⟩
    · rw [name] at primitive
      cases primitive
    · exact second
  by_cases bare : view.cursor.nth 2 = .comma ∨ view.cursor.nth 2 = .rightParen
  swap
  · refine ⟨_, fails_bind (Accepts.looked (clear_nth.mpr ⟨first, rfl⟩) ?_)⟩
    rw [if_neg none, if_pos name]
    refine Accepts.looked (clear_nth.mpr ⟨second, rfl⟩) ?_
    rw [if_neg bare]
    exact typed
  -- a single name is a type as well as the parameters of a lambda, and both scans go on to the token behind the bracket
  obtain rfl : stop = 2 := Option.some.inj (clear_unique type (type_of_name name second bare))
  obtain rfl : 2 = close := ends.resolve_left fun amp => by
    rcases bare with shown | shown <;> cases shown.symm.trans amp
  have third : 3 < view.limit := by
    obtain ⟨m, annotated, rest⟩ := accepts_bind.mp rest
    obtain rfl : m = 1 := Option.some.inj (clear_unique annotated (annotations_none first (by rw [name]; decide)))
    obtain ⟨kind, seen, rest⟩ := accepts_bind.mp rest
    obtain rfl : .identifier = kind := name.symm.trans (clear_nth.mp (accepts_lift.mp seen)).2
    exact within_of_startsCastOperand (accepts_lift.mp rest)
  have params : Accepts view (lambdaParams 1) 2 := by
    refine Accepts.looked (clear_nth.mpr ⟨first, name⟩) (Accepts.looked (clear_nth.mpr ⟨second, closer⟩) ?_)
    refine Accepts.looked (clear_stepLimit.mpr rfl) ?_
    exact Accepts.looked (clear_nth.mpr ⟨first, name⟩) (Accepts.looked (clear_nth.mpr ⟨second, closer⟩) (accepts_pure.mpr rfl))
  exact ⟨_, Accepts.followed params (accepts_lift.mpr (clear_nthIs.mpr ⟨third, rfl⟩))⟩

private theorem isCast_spends : ScanSpends view false isCast (· = false) := by
  refine .bind castType_spends fun close hit ran blocked => ?_
  refine .ask (.nthIs blocked) (fun closed => ?_) fun _ _ => .pure fun _ => rfl
  obtain rfl : hit = false := Bool.eq_false_iff.mpr fun same => (blocked same).ne (shown_of_nthIs closed)
  obtain ⟨stop, type, -⟩ := castType_begins ran
  obtain ⟨start, annotated, inside, -⟩ := type_begins type
  -- these looks were made before, by the scan for the type
  have before : ScanSpends view false (annotations 1) fun _ => False := fun found ran _ same =>
    Bool.noConfusion (Prod.mk.inj (Option.some.inj (ran.symm.trans annotated))).2
  refine .bind before fun start' hit ran never => ?_
  obtain rfl : hit = false := Bool.eq_false_iff.mpr never
  obtain rfl : start' = start := Option.some.inj (clear_unique ran annotated)
  refine .look .nth_clear fun first hit _ seen => ?_
  obtain rfl : hit = false := Bool.eq_false_iff.mpr fun same => Nat.not_le_of_lt inside (seen same).2
  split
  · exact .pure Bool.noConfusion
  · exact .lift startsCastOperand_spends

/-- A cast is only found where no scan hit the limit, that for a lambda included. -/
theorem parenKind_spends {noLambda : Bool} : Spends view false (parenKind noLambda) (· = .parenthesized) := by
  have lambda : Spends view false (both (Pure.pure !noLambda) (succeeds isLambda)) fun found =>
      found = false ∧ ∀ other, ¬ Clear view isLambda.run other := by
    refine .both (.pure Bool.noConfusion) ?_
    rintro _ - rfl found ran
    refine ⟨ScanSpends.succeeds isLambda_spends found ran, fun other clear => ?_⟩
    obtain ⟨⟨answer, hits⟩, early, late⟩ := Option.bind_eq_some_iff.mp ran
    obtain ⟨-, rfl⟩ := Prod.mk.inj (Option.some.inj late)
    exact Bool.noConfusion (Prod.mk.inj (Option.some.inj (early.symm.trans clear))).2
  refine lambda.bind fun found hit _ seen => ?_
  cases found with
  | true => exact .pure fun same => Bool.noConfusion (seen same).1
  | false =>
    have same : Limits.ScansAgree ⟨view.cursor, view.limit, view.limit, Nat.le_refl _⟩ isCast fun _ => True :=
      Limits.isCast (Nat.le_max_left _ _)
    obtain ⟨answer, hits, ran, -⟩ := same
    have cast : ScanSpends view hit isCast (· = false) := fun answer' late accepted accepts => by
      obtain ⟨rfl, hits'⟩ := Prod.mk.inj (Option.some.inj ((ran hit).symm.trans late))
      cases hits with
      | true => exact isCast_spends answer (ran false) accepted accepts
      | false =>
        cases accepted with
        | false => rfl
        | true =>
          obtain rfl : hit = true := (Bool.or_false hit).symm.trans hits'
          obtain ⟨other, clear⟩ := isLambda_clear (accepts ▸ ran false)
          exact absurd clear ((seen rfl).2 other)
    refine (ScanSpends.succeeds cast).bind fun found hit _ seen => ?_
    cases found with
    | true => exact .pure fun same => Bool.noConfusion (seen same)
    | false => exact .pure fun _ => rfl

end Casts

end Scans

namespace Decision

/-- What is decided where nothing but an expression can stand. -/
def plain : Decision α → α
  | paren _ => .parenthesized
  | localVarDecl => false
  | localTypeDecl => false
  | foreach => false
  | pattern => none
  | arrayTypeLiteral => false

/-- A `::` behind a name and brackets, which makes them an array type, is the last token within the limit, and the next
one is asked for nevertheless. -/
def Overlooks (cursor : TokenCursor) (limit : Nat) : Decision α → Prop
  | arrayTypeLiteral => ∃ n, n + 1 = limit ∧ cursor.nth n = .colonColon
  | _ => False

private theorem spends (decision : Decision α) (cursor : TokenCursor) (limit : Nat) :
    Spends ⟨cursor, limit⟩ false decision.peek fun answer => answer = decision.plain ∨ decision.Overlooks cursor limit := by
  cases decision with
  | paren noLambda => exact parenKind_spends.weaken fun _ => .inl
  | localVarDecl => exact (ScanSpends.succeeds isLocalVarDecl_spends).weaken fun _ => .inl
  | localTypeDecl => exact (ScanSpends.succeeds isLocalTypeDecl_spends).weaken fun _ => .inl
  | foreach => exact (ScanSpends.succeeds isForeach_spends).weaken fun _ => .inl
  | pattern =>
    refine Spends.limit (Spends.weaken patternKindFrom_spends fun found never => .inl ?_)
    exact Option.eq_none_iff_forall_ne_some.mpr never
  | arrayTypeLiteral =>
    refine Spends.bind isArrayTypeLiteral_spends fun found _ _ late => .pure fun same => ?_
    rcases found with _ | _ | _
    · exact .inl rfl
    · exact .inl rfl
    · exact .inr (late same true rfl rfl)

end Decision

end Lookahead

open Lookahead

variable {N : Type → Type} {env : Env} {rules : (α : Type) → N α → Program N α} {α : Type}

private theorem exec_decideBy_exhausted [Inhabited α] {what : String} {peek : Peek α} {s : State} {a : α}
    (exhausted : peek.decide (s.cursor env) env.options.lookaheadLimit = some (a, true)) :
    (decideBy what peek : Program N α).exec env rules s =
      some ((s.report env (.undecided what env.options.lookaheadLimit)).map fun t => (a, t)) := by
  unfold decideBy
  rw [Program.exec_bind, Program.exec_act]
  refine (Program.exec_bind _ _ _).trans ?_
  rw [cursor, Program.exec_act]
  simp only [Action.run, Program.andThen_ok, exhausted]
  refine (Program.exec_bind _ _ _).trans ?_
  rw [report, Program.exec_act, Action.run]
  rcases s.report env (.undecided what env.options.lookaheadLimit) with halt | t
  · rfl
  · exact Program.exec_return _ _

namespace Lookahead.Decision

/-- A decision that hits the limit is the plain reading, and so is one beside which the limit is reported; but for the
look behind a `::` that makes no difference any more. -/
theorem plain_of_exhausted [Inhabited α] (decision : Decision α) :
    (∀ cursor limit answer, decision.peek.decide cursor limit = some (answer, true) →
      answer = decision.plain ∨ decision.Overlooks cursor limit) ∧
    ∀ what (s t : State) a, (decideBy what decision.peek : Program N α).exec env rules s = some (.ok (a, t)) →
      s.errorCount < t.errorCount →
      a = decision.plain ∨ decision.Overlooks (s.cursor env) env.options.lookaheadLimit := by
  have falls (cursor : TokenCursor) (limit : Nat) := decision.spends cursor limit
  refine ⟨falls, fun what s t a run told => ?_⟩
  obtain ⟨answer, hits, decided⟩ := decision.ends (s.cursor env) env.options.lookaheadLimit
  cases hits with
  | false =>
    cases (exec_decideBy decided).symm.trans run
    exact absurd told (Nat.lt_irrefl _)
  | true =>
    have given := (exec_decideBy_exhausted decided).symm.trans run
    rcases reported : s.report env (.undecided what env.options.lookaheadLimit) with halt | after
    · rw [reported] at given
      cases given
    · rw [reported] at given
      cases given
      exact falls _ _ a decided

/-- The arrow that would make parameters of `(a)` lies beyond a limit of three tokens, so brackets are seen, and the
limit is reported. -/
theorem plain_of_exhausted_arrow :
    let stream := TokenStream.ofTokens "(a)->b" #[⟨.leftParen, ⟨0, 1⟩, [], []⟩, ⟨.identifier, ⟨1, 2⟩, [], []⟩,
      ⟨.rightParen, ⟨2, 3⟩, [], []⟩, ⟨.arrow, ⟨3, 5⟩, [], []⟩, ⟨.identifier, ⟨5, 6⟩, [], []⟩]
    let rule : Program N ParenKind := decideBy "lambda or not" (paren false).peek
    (paren false).peek.decide (.start stream) 3 = some (.parenthesized, true) ∧ (ParenKind.parenthesized = .parenthesized ∨ False) ∧
      ∃ s t a, rule.exec ⟨stream, ⟨.lenient, 256, 3⟩⟩ rules s = some (.ok (a, t)) ∧ s.errorCount < t.errorCount ∧
        (a = .parenthesized ∨ False) := by
  intro stream rule
  let env : Env := ⟨stream, ⟨.lenient, 256, 3⟩⟩
  let told := State.tell env (State.count {}) (.undecided "lambda or not" 3)
  have decided : (paren false).peek.decide (TokenCursor.start stream) 3 = some (.parenthesized, true) := by decide +kernel
  have run : rule.exec env rules {} = some (.ok (.parenthesized, told)) := exec_decideBy_exhausted decided
  have grown : 0 < told.errorCount := Nat.one_pos
  have falls := @plain_of_exhausted N env rules ParenKind _ (paren false)
  exact ⟨decided, falls.1 _ _ _ decided, {}, told, _, run, grown, falls.2 _ _ _ _ run grown⟩

/-- The `::` behind `a[]` is the last of four tokens. It settles that an array type stands there, and yet it is
reported that the limit was hit. -/
theorem array_type_beside_report :
    let cursor := TokenCursor.start (.ofTokens "a[]::new" #[⟨.identifier, ⟨0, 1⟩, [], []⟩, ⟨.leftBracket, ⟨1, 2⟩, [], []⟩,
      ⟨.rightBracket, ⟨2, 3⟩, [], []⟩, ⟨.colonColon, ⟨3, 5⟩, [], []⟩, ⟨.newKw, ⟨5, 8⟩, [], []⟩])
    Decision.arrayTypeLiteral.peek.decide cursor 4 = some (true, true) ∧ Decision.arrayTypeLiteral.plain = false := by
  intro cursor
  exact ⟨by decide +kernel, rfl⟩

end Lookahead.Decision

end LosslessJava.Parser
