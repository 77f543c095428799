import LosslessJava.Proofs.LayoutVariants
import LosslessJava.Proofs.Exec

/-! Properties of rules that are passed on by every way to put rules together. What such a property is
about is left open, so the grammar is gone through once for all of them: whatever holds of the steps
and of the rules that are called by name holds of the rules that are made of them. -/

namespace LosslessJava

/-- A fact that is found by evaluation. -/
class Evident (fact : Bool) : Prop where
  holds : fact = true

instance : Evident true := ⟨rfl⟩

@[reducible] def Issue.goesOn : Issue → Bool
  | .nestingTooDeep _ | .recoveryRanOut => false
  | _ => true

namespace Parser

/-- A step that tells of no issue that ends the parse. To give it up is left to what watches over the
depth of rules and over recovery. -/
def Action.goesOn : {α : Type} → Action α → Bool
  | _, .report issue | _, .reportAndSkip issue => issue.goesOn
  | _, _ => true

/-- A step that neither reads the cursor nor the restriction on lambdas, gives no tokens another kind, and tells of
no issue that ends the parse. -/
def Action.isPlain : {α : Type} → Action α → Bool
  | _, .cursor | _, .noLambda | _, .join _ _ | _, .consumeAs _ => false
  | _, action => action.goesOn

/-- From the cursor on, so many tokens make up one of a kind. -/
inductive Makes (cursor : TokenCursor) : Kind → Nat → Prop where
  | operator {op : Grammar.Operator} (found : Grammar.Operator.at? cursor = some op) : Makes cursor op.kind op.rawCount
  | nonSealed (found : Grammar.isNonSealed cursor = true) : Makes cursor .nonSealedKw 3

theorem Makes.touching {cursor other : TokenCursor} {kind : Kind} {count : Nat} (makes : Makes cursor kind count)
    (alike : cursor.Alike other) : other.Touching count := by
  cases makes with
  | operator found => exact Grammar.touching_of_operator (Grammar.operator_alike alike ▸ found)
  | nonSealed found => exact Grammar.touching_of_nonSealed (Grammar.isNonSealed_alike alike ▸ found)

/-- What may be known of where a rule is run. -/
inductive Known where
  | nothing
  /-- The place itself. -/
  | place (cursor : TokenCursor)
  /-- That a contextual keyword stands there. -/
  | word (keyword : Kind)

namespace Known

def cursor? : Known → Option TokenCursor
  | .place cursor => some cursor
  | _ => none

def ofWord : Option Kind → Known
  | some keyword => .word keyword
  | none => .nothing

def Of : Known → TokenCursor → Prop
  | .nothing, _ => True
  | .place known, cursor => known = cursor
  | .word keyword, cursor => isWordAt cursor 0 keyword = true

end Known

/-- Where a rule is left in lenient mode, a word stands that its answer tells. -/
def Program.Tells {N : Type → Type} {β : Type} (here : Known) (rule : Program N β) (word : β → Option Kind) : Prop :=
  ∀ {env : Env} {rules : (α : Type) → N α → Program N α} {s t : State} {b : β}, env.options.mode = .lenient →
    here.Of (s.cursor env) → rule.exec env rules s = some (.ok (b, t)) → (Known.ofWord (word b)).Of (t.cursor env)

/-- A property of programs, with what passes it on. A program is told to be so many ways high, and
something may be known of the place where it is run. What is read from the cursor may matter only in so far
as layout does not, and tokens are given another kind only where it is known that they are spelled so. -/
structure Compositional (N : Type → Type) where
  Holds : Known → Nat → {α : Type} → Program N α → Prop
  pure {here height} {α : Type} {a : α} : Holds here height (.pure a)
  act {here height} {α : Type} {action : Action α} (plain : action.isPlain = true) :
    Holds here height (.act action)
  join {height cursor kind count} (makes : Makes cursor kind count) :
    Holds (.place cursor) height (.act (.join kind count))
  consumeAs {height keyword} : Holds (.word keyword) height (.act (.consumeAs keyword))
  stands {height cursor keyword} {α : Type} {rule : Program N α} (word : isWordAt cursor 0 keyword = true)
    (holds : Holds (.word keyword) height rule) : Holds (.place cursor) height rule
  bind {here height} {α β : Type} {first : Program N β} {next : β → Program N α} (word : β → Option Kind)
    (tells : first.Tells here word) (one : Holds here height first)
    (two : ∀ b, Holds (.ofWord (word b)) height (next b)) : Holds here (height + 1) (.bind first next)
  look {here height} {α : Type} {next : TokenCursor → Program N α}
    (same : ∀ {c d : TokenCursor}, c.Alike d → next c = next d) (two : ∀ c, Holds (.place c) height (next c)) :
    Holds here (height + 1) (.bind (.act .cursor) next)
  precede {here height} {α : Type} {first : Completed} {next : Mark → Program N α}
    (two : ∀ mark, Holds here height (next mark)) : Holds here (height + 1) (.bind (.act (.precede first)) next)
  loopFrom {here height} {α : Type} {a : α} {step : α → Program N (Option α)}
    (round : ∀ a, Holds .nothing height (step a)) : Holds here (height + 1) (.loopFrom a step)
  nested {here height} {α : Type} {otherwise : α} {rule : Program N α} (inner : Holds .nothing height rule) :
    Holds here (height + 1) (.nested otherwise rule)
  withNoLambda {here height} {α : Type} {noLambda : Bool} {rule : Program N α} (inner : Holds .nothing height rule) :
    Holds here (height + 1) (.withNoLambda noLambda rule)
  speculate {here height} {rule : Program N (Option Completed)} (inner : Holds .nothing height rule) :
    Holds here (height + 1) (.speculate rule)

variable {N : Type → Type} {property : Compositional N} {here : Known} {height : Nat} {α β : Type}

/-- The property holds of a rule. -/
class Has (property : Compositional N) (here : Known) (height : Nat) (rule : Program N α) : Prop where
  holds : property.Holds here height rule

section Tells

open Program

private theorem tells_start {word : Option Kind} : (start : Program N Mark).Tells (.ofWord word) fun _ => word := by
  intro env rules s t mark _ known ran
  rw [start, exec_act] at ran
  cases ran
  exact known

theorem tells_report {word : Option Kind} {issue : Issue} :
    (report issue : Program N Unit).Tells (.ofWord word) fun _ => word := by
  intro env rules s t a lenient known ran
  rw [report, exec_act] at ran
  have told : s.report env issue = .ok s.count ∨ s.report env issue = .ok (s.count.tell env issue) := by
    unfold State.report
    simp only [lenient, reduceCtorEq, if_false]
    split
    · exact .inl rfl
    · exact .inr rfl
  rcases told with told | told <;> (simp only [Action.run, told] at ran; cases ran; exact known)

theorem tells_seesWord {keyword : Kind} :
    (seesWord keyword : Program N Bool).Tells here fun found => if found then some keyword else none := by
  intro env rules s t found _ _ ran
  simp only [seesWord, nthIsWord, cursor, allow, exec_bind, exec_act, exec_return, Action.run, andThen_ok] at ran
  cases ran
  dsimp only
  split
  · next stands => exact stands
  · trivial

end Tells

namespace Has

instance {a : α} : Has property here height (Pure.pure a) := ⟨property.pure⟩

theorem andThen {first : Program N β} {next : β → Program N α} [one : Has property here height first]
    (two : ∀ b, Has property .nothing height (next b)) : Has property here (height + 1) (first >>= next) :=
  ⟨property.bind (fun _ => none) (fun _ _ _ => trivial) one.holds fun b => (two b).holds⟩

/-- Where the first rule's answer tells of a word, the next one is run in front of it. -/
theorem told {first : Program N β} {next : β → Program N α} (word : β → Option Kind) (tells : first.Tells here word)
    [one : Has property here height first] (two : ∀ b, Has property (.ofWord (word b)) height (next b)) :
    Has property here (height + 1) (first >>= next) :=
  ⟨property.bind word tells one.holds fun b => (two b).holds⟩

theorem asked {question : Program N Bool} {next : Bool → Program N α} {keyword : Kind}
    (tells : question.Tells here fun found => if found then some keyword else none)
    [Has property here height question] (yes : Has property (.word keyword) height (next true))
    (no : Has property .nothing height (next false)) : Has property here (height + 1) (question >>= next) :=
  told _ tells fun found => by cases found <;> assumption

theorem stands {rule : Program N α} {cursor : TokenCursor} {keyword : Kind} (word : isWordAt cursor 0 keyword = true)
    (has : Has property (.word keyword) height rule) : Has property (.place cursor) height rule :=
  ⟨property.stands word has.holds⟩

instance {first : Program N β} {next : β → Program N α} [Has property here height first]
    [two : ∀ b, Has property .nothing height (next b)] : Has property here (height + 1) (first >>= next) :=
  andThen two

instance {c : Prop} [Decidable c] {yes no : Program N α} [one : Has property here height yes]
    [other : Has property here height no] : Has property here height (if c then yes else no) := by
  split
  · exact one
  · exact other

theorem look {next : TokenCursor → Program N α} (same : ∀ {c d : TokenCursor}, c.Alike d → next c = next d)
    (two : ∀ c, Has property (.place c) height (next c)) : Has property here (height + 1) (cursor >>= next) :=
  ⟨property.look same fun c => (two c).holds⟩

instance {a : α} {step : α → Program N (Option α)} [round : ∀ a, Has property .nothing height (step a)] :
    Has property here (height + 1) (loopFrom a step) := ⟨property.loopFrom fun a => (round a).holds⟩

theorem deeper {otherwise : α} {rule : Program N α} (inner : Has property .nothing height rule) :
    Has property here (height + 1) (nested otherwise rule) := ⟨property.nested inner.holds⟩

instance {otherwise : α} {rule : Program N α} [inner : Has property .nothing height rule] :
    Has property here (height + 1) (nested otherwise rule) := deeper inner

instance {noLambda : Bool} {rule : Program N α} [inner : Has property .nothing height rule] :
    Has property here (height + 1) (withNoLambda noLambda rule) := ⟨property.withNoLambda inner.holds⟩

theorem tried {rule : Program N (Option Completed)} (inner : Has property .nothing height rule) :
    Has property here (height + 1) (speculate rule) := ⟨property.speculate inner.holds⟩

section Steps

instance : Has property here height (.act .lookaheadLimit) := ⟨property.act rfl⟩

instance {kinds : KindSet} : Has property here height (allow kinds) := ⟨property.act rfl⟩

instance {kind : Kind} : Has property here height (consume kind) := ⟨property.act rfl⟩

instance : Has property here height consumeAny := ⟨property.act rfl⟩

instance {keyword : Kind} : Has property (.word keyword) height (consumeAs keyword) := ⟨property.consumeAs⟩

instance {issue : Issue} [given : Evident issue.goesOn] : Has property here height (report issue) :=
  ⟨property.act given.holds⟩

instance {issue : Issue} [given : Evident issue.goesOn] : Has property here height (reportAndSkip issue) :=
  ⟨property.act given.holds⟩

instance {recovery : KindSet} : Has property here height (recover recovery) := ⟨property.act rfl⟩

instance : Has property here height start := ⟨property.act rfl⟩

instance {mark : Mark} {kind : Kind} : Has property here height (mark.complete kind) := ⟨property.act rfl⟩

instance {mark : Mark} : Has property here height mark.release := ⟨property.act rfl⟩

theorem join {cursor : TokenCursor} {kind : Kind} {count : Nat} (makes : Makes cursor kind count) :
    Has property (.place cursor) height (Parser.join kind count) := ⟨property.join makes⟩

end Steps

section Questions

instance : Has property here (height + 1) position :=
  look (fun alike => by simp only [alike.position]) fun _ => inferInstance

instance {n : Nat} : Has property here (height + 1) (nth n) :=
  look (fun alike => by simp only [alike.nth]) fun _ => inferInstance

instance : Has property here (height + 1) current := inferInstanceAs (Has property here _ (nth 0))

instance {n : Nat} {kind : Kind} : Has property here (height + 2) (nthIs n kind) := by
  unfold nthIs
  infer_instance

instance {n : Nat} {keyword : Kind} : Has property here (height + 1) (nthIsWord n keyword) :=
  look (fun alike => by simp only [alike.isWordAt]) fun _ => inferInstance

instance {kind : Kind} : Has property here (height + 3) (sees kind) := by
  unfold sees
  infer_instance

instance {kinds : KindSet} : Has property here (height + 3) (seesAny kinds) := by
  unfold seesAny
  infer_instance

instance {keyword : Kind} : Has property here (height + 2) (seesWord keyword) := by
  unfold seesWord
  infer_instance

instance {keyword : Kind} {yes no : Program N α} [Has property (.word keyword) (height + 2) yes]
    [Has property .nothing (height + 2) no] :
    Has property here (height + 3) (seesWord keyword >>= fun found => if found = true then yes else no) :=
  asked tells_seesWord (by rw [if_pos rfl]; infer_instance) (by rw [if_neg nofun]; infer_instance)

instance {one other : Program N Bool} [Has property here height one] [Has property .nothing height other] :
    Has property here (height + 1) (one <&&> other) := by
  refine andThen fun found => ?_
  split <;> infer_instance

instance {one other : Program N Bool} [Has property here height one] [Has property .nothing height other] :
    Has property here (height + 1) (one <||> other) := by
  refine andThen fun found => ?_
  split <;> infer_instance

instance [Inhabited α] : Has property here (height + 1) (endless : Program N α) := by
  unfold endless
  infer_instance

instance [Inhabited α] {what : String} {peek : Lookahead.Peek α} [Lookahead.Steady peek] :
    Has property here (height + 3) (decideBy what peek) := by
  refine andThen fun limit => look (fun alike => by simp only [Lookahead.decide_alike alike]) fun c => ?_
  split <;> infer_instance

theorem parenKindHere [asked : Has property here (height + 3) (.act .noLambda)] :
    Has property here (height + 4) parenKindHere := by
  unfold Parser.parenKindHere
  exact @andThen _ _ _ _ _ _ _ _ asked fun _ => inferInstance

instance : Has property here (height + 3) seesLocalVarDecl := inferInstanceAs (Has property here _ (decideBy _ _))

instance : Has property here (height + 3) seesLocalTypeDecl := inferInstanceAs (Has property here _ (decideBy _ _))

instance : Has property here (height + 3) seesForeach := inferInstanceAs (Has property here _ (decideBy _ _))

instance : Has property here (height + 3) patternKindHere := inferInstanceAs (Has property here _ (decideBy _ _))

instance : Has property here (height + 3) seesArrayTypeLiteral := inferInstanceAs (Has property here _ (decideBy _ _))

end Questions

section Combinators

instance {rule : Program N α} [Has property here height rule] : Has property here (height + 1) (discard rule) :=
  inferInstanceAs (Has property here _ (rule >>= fun _ => Pure.pure ()))

instance {kind : Kind} : Has property here (height + 4) (accept kind) := by
  unfold accept
  infer_instance

instance {kind : Kind} {rule : Program N Unit} [Has property .nothing (height + 3) rule] :
    Has property here (height + 4) (whenSees kind rule) := by
  unfold whenSees
  infer_instance

instance {what : String} : Has property here (height + 2) (expectedHere what) := by
  unfold expectedHere
  infer_instance

instance {what : String} {recovery : KindSet} : Has property here (height + 3) (expectedThenRecover what recovery) := by
  unfold expectedThenRecover
  infer_instance

instance {kind : Kind} : Has property here (height + 5) (expect kind) := by
  unfold expect
  infer_instance

instance {kind : Kind} : Has property here (height + 6) (require kind) := by
  unfold require
  infer_instance

instance {a : α} {step : Program N Bool} [Has property here height step] :
    Has property here (height + 1) (stepTo a step) := by
  unfold stepTo
  infer_instance

instance {step : Program N Bool} [Has property .nothing height step] : Has property here (height + 2) (loop step) := by
  unfold loop
  infer_instance

instance {step : Program N Bool} [Has property .nothing height step] : Has property here (height + 2) (loopAny step) := by
  unfold loopAny
  infer_instance

instance {rule : Program N α} [Has property .nothing height rule] : Has property here (height + 1) (bracketed rule) := by
  unfold bracketed
  infer_instance

instance {rule : Program N Kind} [Has property .nothing height rule] : Has property here (height + 2) (nodeOf rule) := by
  unfold nodeOf
  infer_instance

instance {kind : Kind} {rule : Program N Unit} [Has property .nothing height rule] :
    Has property here (height + 3) (node kind rule) := by
  unfold node
  infer_instance

/-- To start a node does not move. -/
instance {keyword kind : Kind} {rule : Program N Unit} [Has property (.word keyword) height rule] :
    Has property (.word keyword) (height + 3) (node kind rule) := by
  unfold node nodeOf
  exact told (fun _ => some keyword) (@tells_start _ (some keyword)) fun _ => (inferInstance : Has property (.word keyword) (height + 2) _)

instance {rule : Program N (Kind × α)} [Has property .nothing (height + 2) rule] :
    Has property here (height + 4) (nodeWith rule) := by
  unfold nodeWith
  refine andThen fun mark => andThen fun answer => ?_
  obtain ⟨kind, a⟩ := answer
  infer_instance

instance {rule : Program N (Option Kind)} [Has property .nothing (height + 1) rule] :
    Has property here (height + 3) (nodeIf rule) := by
  unfold nodeIf
  refine andThen fun mark => andThen fun kind => ?_
  split <;> infer_instance

/-- To start a node around a finished one does not move. -/
instance {first : Completed} {rule : Program N Kind} [inner : Has property here height rule] :
    Has property here (height + 2) (around first rule) :=
  ⟨property.precede fun _ => (andThen fun _ => inferInstance : Has property here (height + 1) (rule >>= _)).holds⟩

end Combinators

end Has

end Parser

end LosslessJava
