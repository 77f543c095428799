import LosslessJava.Proofs.Expected

/-! What the rules of types, patterns and expressions leave in doubt. Most rules take what they find, which is seen from
what they are put together from. The others look behind the token at hand, or leave it to the rule that follows. -/

namespace LosslessJava.Grammar

open LosslessJava.Parser

set_option synthInstance.maxSize 2000

def Nonterminal.doubts : {α : Type} → Nonterminal α → KindSet
  | _, .type => (KindSet.singleton .identifier).union (.singleton .atSign)
  | _, .expression _ | _, .unary | _, .simpleName | _, .elementValue => .singleton .identifier
  | _, .lambdaParamList => .singleton .leftParen
  | _, .arrayInitializer | _, .block | _, .classBody _ => .singleton .leftBrace
  | _, _ => .empty

class Heeds (bounds : Bounds) : Prop where
  clears : ∀ {α : Type} (name : Nonterminal α), Clears bounds name.doubts (call name)

variable {bounds : Bounds} {α β : Type} {kinds : KindSet} {kind : Kind}

section Places

theorem gives_current {s t : State} {found : Kind} (gives : bounds.Gives current s found t) :
    found = s.current bounds.env ∧ t = s := by
  obtain ⟨cursor, u, read, told⟩ := gives.bind
  cases read.act
  obtain ⟨rfl, rfl⟩ := told.pure
  exact ⟨rfl, rfl⟩

private theorem gives_nth {n : Nat} {s t : State} {found : Kind} (gives : bounds.Gives (nth n) s found t) :
    found = (s.cursor bounds.env).nth n ∧ t = s := by
  obtain ⟨cursor, u, read, told⟩ := gives.bind
  cases read.act
  obtain ⟨rfl, rfl⟩ := told.pure
  exact ⟨rfl, rfl⟩

private theorem gives_position {s t : State} {here : Nat} (gives : bounds.Gives position s here t) : here = s.position ∧ t = s := by
  obtain ⟨cursor, u, read, told⟩ := gives.bind
  cases read.act
  obtain ⟨rfl, rfl⟩ := told.pure
  exact ⟨rfl, rfl⟩

def Strides (bounds : Bounds) (rule : Rule α) : Prop :=
  ∀ ⦃s a t⦄, bounds.Gives rule s a t → s.position < bounds.env.stream.size - 1 ∧ s.position < t.position

private theorem Strides.bind {first : Rule β} {next : β → Rule α} (strides : Strides bounds first) : Strides bounds (first >>= next) :=
  fun s a u gives => by
    obtain ⟨b, t, ran, _, run⟩ := gives.bind
    obtain ⟨inside, moved⟩ := strides ran
    have invariant := @State.position_invariant bounds.env (s.position < ·) fun x n before => by omega
    exact ⟨inside, (Program.evaluates_of_exec run.exec_eq).keeps invariant (fun _ _ => Program.uses_any _)
      (Program.uses_any _) rfl moved⟩

private theorem strides_consume (more : kind ≠ .eof) : Strides bounds (consume kind) := fun s _ t gives => by
  have run := Result.of_done gives.act
  unfold State.consume at run
  split at run
  · next here =>
    cases run
    have going : s.current bounds.env ≠ .eof := here ▸ more
    have moved := State.position_pushToken going kind
    have last : (s.pushToken bounds.env kind 1).position ≤ bounds.env.stream.size - 1 := Nat.min_le_right _ _
    omega
  · cases run

private theorem Strides.behind {first : Rule β} {next : β → Rule α} (still : ∀ s a t, bounds.Gives first s a t → t.position = s.position)
    (strides : ∀ a, Strides bounds (next a)) : Strides bounds (first >>= next) := fun s a u gives => by
  obtain ⟨b, t, ran, rest⟩ := gives.bind
  exact still _ _ _ ran ▸ strides b rest

private theorem start_still (s : State) (mark : Mark) (t : State) (gives : bounds.Gives start s mark t) : t.position = s.position := by
  cases gives.act
  rfl

private theorem sees_still (s : State) (found : Bool) (t : State) (gives : bounds.Gives (sees kind) s found t) :
    t.position = s.position := by
  obtain ⟨rfl, -⟩ := gives_sees gives
  rfl

private theorem sees_and_leads {s t : State} {answer follows : Bool} (gives : bounds.Gives (sees kind <&&> pure follows) s answer t)
    (probed : follows = false → kind.isProbed ((s.cursor bounds.env).nth 1) = true) (sincere : s.Sincere bounds.env kinds) :
    t.Sincere bounds.env (bif answer then .singleton kind else kinds) := by
  obtain ⟨found, u, seen, rest⟩ := gives.bind
  have cursor : u.cursor bounds.env = s.cursor bounds.env := by rw [State.cursor, sees_still _ _ _ seen, State.cursor]
  obtain ⟨behind, told⟩ := sees_leads seen sincere
  cases found with
  | false =>
    obtain ⟨rfl, rfl⟩ := rest.pure
    exact State.sincere_missed behind (by simpa using Ne.symm (beq_eq_false_iff_ne.mp told.symm))
  | true =>
    obtain ⟨rfl, rfl⟩ := rest.pure
    have here := beq_iff_eq.mp told.symm
    cases answer with
    | true => exact State.sincere_found behind (by simp [here])
    | false =>
      refine behind.weaken fun _ => .inr ?_
      rw [State.Waives, here, cursor, Kind.isPassed, probed rfl, Bool.true_or]

end Places

section Lists

variable {rule : Rule α} {element : Rule Bool} {step : Rule Bool} {next : α} {what : String} {first : KindSet}

instance : Spares bounds (accept kind) where
  leads kinds := Asks.leads.weaken fun answer => by
    cases answer with
    | true => exact .inl rfl
    | false => exact .inr rfl

instance [Clears bounds kinds step] : Clears bounds kinds (stepTo next step) := by
  unfold stepTo
  infer_instance

instance [Clears bounds kinds step] : Clears bounds kinds (loop step) := by
  unfold loop
  infer_instance

instance [Clears bounds kinds step] : Clears bounds kinds (loopAny step) := by
  unfold loopAny
  infer_instance

/-- A loop leaves in doubt what its last round does. -/
theorem Leads.loop {left : KindSet} (round : Leads bounds kinds step fun goes => bif goes then kinds else left) :
    Leads bounds kinds (loop step) fun _ => left :=
  .loopFrom (fun _ => kinds) fun _ => round.bind fun goes => by cases goes <;> exact .pure rfl

private theorem expectedHere_clears (overruled : ∀ kind, kinds.contains kind = true → (Issue.expected what kind).Overrules kind) :
    Clears bounds kinds (expectedHere what) where
  leads s a t gives sincere := by
    obtain ⟨here, u, looked, told⟩ := gives.bind
    obtain ⟨rfl, rfl⟩ := gives_current looked
    exact (State.report_sincere sincere (fun given _ => overruled _ given) (Result.of_done told.act)).1

instance {what : String} : Clears bounds .empty (expectedHere what) := expectedHere_clears (by simp)

instance {what : String} {recovery : KindSet} : Clears bounds .empty (expectedThenRecover what recovery) := by
  unfold expectedThenRecover
  infer_instance

instance [Asks bounds kinds (accept kind) .empty .empty] : Clears bounds kinds (expect kind) := by
  unfold expect
  infer_instance

instance [Clears bounds kinds (expect kind)] : Clears bounds kinds (require kind) := by
  unfold require
  infer_instance

instance {rule : Rule Unit} [Clears bounds (.singleton kind) rule] : Spares bounds (whenSees kind rule) := by
  unfold whenSees
  infer_instance

class Leading (first : KindSet) : Prop where
  member : first ∈ First.elements

instance : Leading First.expression := ⟨by simp [First.elements]⟩

instance : Leading First.initializer := ⟨by simp [First.elements]⟩

instance : Leading First.elementValue := ⟨by simp [First.elements]⟩

instance : Leading First.type := ⟨by simp [First.elements]⟩

instance : Leading First.typeArgument := ⟨by simp [First.elements]⟩

instance : Leading First.param := ⟨by simp [First.elements]⟩

instance : Leading First.pattern := ⟨by simp [First.elements]⟩

/-- Where an element of a list can start, a missing delimiter is told of at a token that was tried. -/
instance require_comma [leading : Leading first] : Clears bounds first (require .comma) where
  leads := by
    have asks : Asks bounds first (accept .comma) .empty first := inferInstance
    have missing : Clears bounds first (expectedHere Kind.comma.describe) :=
      expectedHere_clears fun kind starts => .delimiter (List.any_eq_true.mpr ⟨first, leading.member, starts⟩)
    have expects : Leads bounds first (expect .comma) fun _ => .empty := .ask asks .clear (missing.leads.bind fun _ => .clear)
    exact expects.bind fun _ => .pure rfl

abbrev listEnd (closer : Kind) : KindSet := (KindSet.singleton closer).union (.singleton .eof)

class Closing (closer : Kind) : Prop where
  missed : closer.describe ∈ Issue.endings

instance : Closing .rightParen := ⟨by simp [Issue.endings]⟩

instance : Closing .rightBrace := ⟨by simp [Issue.endings]⟩

instance : Closing .gt := ⟨by simp [Issue.endings]⟩

/-- Behind a list that the input ended, the bracket is told to be missing at a token that was tried. -/
instance require_closer {closer : Kind} [closing : Closing closer] : Clears bounds (listEnd closer) (require closer) where
  leads := by
    have asks : Asks bounds (listEnd closer) (accept closer) .empty (.singleton .eof) := inferInstance
    have missing : Clears bounds (.singleton .eof) (expectedHere closer.describe) :=
      expectedHere_clears fun kind ended => by
        obtain rfl : Kind.eof = kind := by simpa using ended
        exact .ended closing.missed
    have expects : Leads bounds (listEnd closer) (expect closer) fun _ => .empty :=
      .ask asks .clear (missing.leads.bind fun _ => .clear)
    exact expects.bind fun _ => .pure rfl

/-- Behind a list, its closing bracket may be in doubt, or the end of the input. -/
theorem delimitedRound_leads {closer : Kind} [Leading first] [Clears bounds .empty element] :
    Leads bounds .empty (delimitedRound closer .comma what first element) fun goes =>
      bif goes then .empty else listEnd closer := by
  have comma : Clears bounds (.singleton .comma) (reportAndSkip (.missingElement what)) :=
    reportAndSkip_clears fun kind given _ => by
      obtain rfl : Kind.comma = kind := by simpa using given
      exact .element
  have asks : Asks bounds .empty (sees closer <||> sees .eof) (listEnd closer) .empty := inferInstance
  exact .ask asks (.pure rfl) .clear

instance {opener closer : Kind} [Leading first] [Closing closer] [Clears bounds .empty element] :
    Clears bounds kinds (delimited opener closer .comma what first element) where
  leads := by
    have opened : Leads bounds kinds (consume opener) fun _ => .empty := .clear
    exact opened.bind fun _ => (Leads.loop delimitedRound_leads).bind fun _ => .clear

instance {rule : Rule Unit} [Clears bounds kinds rule] : Clears bounds kinds (commaSeparated rule) := by
  unfold commaSeparated
  infer_instance

instance {rule : Rule Unit} {issue : Kind → Issue} [Clears bounds .empty rule] : Clears bounds .empty (skipUnmoved rule issue) := by
  unfold skipUnmoved
  infer_instance

/-- Behind a loop that a closing token ends, this may be in doubt, or the end of the input. -/
instance [Clears bounds .empty step] : Defers bounds (.singleton kind) (loop do
    if ← sees kind <||> sees .eof then return false else step) (listEnd kind) where
  leads := by
    have asks : Asks bounds (.singleton kind) (sees kind <||> sees .eof) (listEnd kind) .empty := inferInstance
    exact .loop (.ask asks (.pure rfl) .clear)

instance [Clears bounds .empty step] : Defers bounds .empty (loop do
    if ← sees kind <||> sees .eof then return false else step) (listEnd kind) where
  leads := (Defers.leads : Leads bounds (.singleton kind) _ _).of_empty

instance {rule : Rule Unit} [Clears bounds .empty rule] : Defers bounds (.singleton kind) (listUntil kind rule) (listEnd kind) := by
  unfold listUntil
  infer_instance

instance {rule : Rule Unit} [Clears bounds .empty rule] : Defers bounds .empty (listUntil kind rule) (listEnd kind) := by
  unfold listUntil
  infer_instance

instance {recovery : KindSet} : Clears bounds .empty (semicolon recovery) := by
  unfold semicolon
  infer_instance

instance {recovery : KindSet} : Clears bounds (.singleton .semicolon) (semicolon recovery) := by
  unfold semicolon
  infer_instance

end Lists

section Names

variable [heeds : Heeds bounds]

instance {name : Nonterminal α} : Clears bounds .empty (call name) where
  leads := (heeds.clears name).leads.of_empty

instance call_type : Clears bounds ((KindSet.singleton .identifier).union (.singleton .atSign)) (call .type) := heeds.clears .type

instance : Clears bounds (.singleton .identifier) (call .type) := call_type.of_within (by simp +contextual)

instance : Clears bounds (.singleton .atSign) (call .type) := call_type.of_within (by simp +contextual)

instance {least : Power} : Clears bounds (.singleton .identifier) (call (.expression least)) := heeds.clears (.expression least)

instance : Clears bounds (.singleton .identifier) (call .simpleName) := heeds.clears .simpleName

instance : Clears bounds (.singleton .identifier) (call .elementValue) := heeds.clears .elementValue

instance : Clears bounds (.singleton .leftParen) (call .lambdaParamList) := heeds.clears .lambdaParamList

instance : Clears bounds (.singleton .leftBrace) (call .arrayInitializer) := heeds.clears .arrayInitializer

instance : Clears bounds (.singleton .leftBrace) (call .block) := heeds.clears .block

instance : Clears bounds (.singleton .leftBrace) (call (.classBody kind)) := heeds.clears (.classBody kind)

instance : Clears bounds .empty qualifiedName := by
  unfold qualifiedName
  infer_instance

omit heeds in
/-- An `@` is in doubt only where it does not begin the declaration of an annotation type. -/
theorem seesAnnotation_asks {no : KindSet}
    (missed : ∀ other, Kind.atSign ≠ other → kinds.contains other = true → no.contains other = true) :
    Asks bounds kinds seesAnnotation (.singleton .atSign) no where
  leads s answer u gives sincere := by
    obtain ⟨found, t, seen, rest⟩ := gives.bind
    obtain ⟨behind, told⟩ := sees_leads seen sincere
    cases found with
    | false =>
      obtain ⟨rfl, rfl⟩ := rest.pure
      have away : Kind.atSign ≠ u.current bounds.env := (beq_eq_false_iff_ne.mp told.symm).symm
      exact behind.weaken fun given => .inl (missed _ away (by simpa [away] using given))
    | true =>
      obtain ⟨declares, v, looked, last⟩ := rest.bind
      obtain ⟨rfl, same⟩ := nthIs_gives looked
      obtain ⟨rfl, rfl⟩ := last.pure
      have here := beq_iff_eq.mp told.symm
      cases declares with
      | false => exact behind.weaken fun _ => .inl (by simp [here])
      | true =>
        refine behind.weaken fun _ => .inr ?_
        rw [State.Waives, here, beq_iff_eq.mp same.symm]
        rfl

omit heeds in
instance : Asks bounds kinds seesAnnotation (.singleton .atSign) kinds := seesAnnotation_asks fun _ _ => id

instance : Clears bounds (.singleton .identifier) elementValuePair := by
  unfold elementValuePair
  infer_instance

instance : Defers bounds .empty annotationArgs (.singleton .rightParen) where
  leads := by
    have closer : Asks bounds .empty (sees .rightParen) (.singleton .rightParen) .empty := inferInstance
    have pair : Asks bounds .empty (sees .identifier <&&> nthIs 1 .eq) (.singleton .identifier) (.singleton .identifier) :=
      inferInstance
    exact .ask closer (.pure rfl) (.ask pair .clear .clear)

instance : Clears bounds kinds annotation := by
  unfold annotation
  infer_instance

private theorem annotations_leads {no : KindSet}
    (missed : ∀ other, Kind.atSign ≠ other → kinds.contains other = true → no.contains other = true) :
    Leads bounds kinds annotations fun _ => no := by
  have asks : Asks bounds kinds seesAnnotation (.singleton .atSign) no := seesAnnotation_asks missed
  have round : Leads bounds kinds (do if ← seesAnnotation then annotation; return true else return false)
      fun goes => bif goes then kinds else no := .ask asks .clear (.pure rfl)
  refine .loopFrom (fun _ => kinds) fun _ => round.bind fun goes => ?_
  cases goes <;> exact .pure rfl

instance : Spares bounds annotations where
  leads _ := annotations_leads fun _ _ => id

instance : Defers bounds (kinds.union (.singleton .atSign)) annotations kinds where
  leads := annotations_leads fun _ away given => by simpa [away] using given

instance : Defers bounds ((KindSet.singleton .atSign).union kinds) annotations kinds where
  leads := annotations_leads fun _ away given => by simpa [away] using given

instance : Clears bounds (.singleton .identifier) elementValue := by
  unfold elementValue
  infer_instance

private theorem modifiers_leads {no : KindSet}
    (missed : ∀ other, Kind.atSign ≠ other → kinds.contains other = true → no.contains other = true) :
    Leads bounds kinds modifiers fun _ => no := by
  have asks : Asks bounds kinds seesAnnotation (.singleton .atSign) no := seesAnnotation_asks missed
  have one : Leads bounds kinds modifier fun goes => bif goes then .empty else no := by
    refine .ask asks .clear fun s found t gives sincere => ?_
    obtain ⟨cursor, u, read, rest⟩ := gives.bind
    cases read.act
    have sealed : Leads bounds no (do
        if isSealed (s.cursor bounds.env) then
          consumeAs .sealedKw
          return true
        else if isNonSealed (s.cursor bounds.env) then
          join .nonSealedKw 3
          return true
        else
          return false) fun goes => bif goes then .empty else no := by
      refine .ite .clear (.ite .clear (.pure rfl))
    split at rest
    · next member =>
      obtain ⟨_, v, taken, last⟩ := rest.bind
      obtain ⟨rfl, rfl⟩ := last.pure
      cases taken.act
      refine State.consumeAny_sincere sincere fun ended => absurd member ?_
      rw [show (s.cursor bounds.env).current = .eof from ended]
      decide +kernel
    · exact sealed rest sincere
  have all : Leads bounds kinds (loopAny modifier) fun _ => no := by
    refine .loopFrom (fun _ => kinds) fun _ => one.bind fun goes => ?_
    cases goes with
    | true => exact (Leads.pure rfl : Leads bounds .empty _ fun _ => .empty).weaken fun _ => .inl rfl
    | false => exact .pure rfl
  unfold modifiers nodeIf
  refine Leads.bind (Leads.spare.bind fun mark => ?_ : Leads bounds kinds _ fun _ => no) fun _ => .pure rfl
  refine Leads.bind (all.bind fun _ => .pure rfl : Leads bounds kinds _ fun _ => no) fun found => ?_
  cases found <;> exact Leads.spare.bind fun _ => .pure rfl

instance : Spares bounds modifiers where
  leads _ := modifiers_leads fun _ _ => id

instance : Defers bounds (kinds.union (.singleton .atSign)) modifiers kinds where
  leads := modifiers_leads fun _ away given => by simpa [away] using given

end Names

section Types

variable [heeds : Heeds bounds]

instance : Asks bounds kinds seesDims (.singleton .leftBracket) kinds :=
  inferInstanceAs (Asks bounds kinds (sees .leftBracket <&&> nthIs 1 .rightBracket) _ _)

instance (priority := high) : Asks bounds (.singleton .leftBracket) seesDims (.singleton .leftBracket) .empty :=
  inferInstanceAs (Asks bounds (.singleton .leftBracket) (sees .leftBracket <&&> nthIs 1 .rightBracket) _ _)

instance : Clears bounds kinds emptyBrackets := by
  unfold emptyBrackets
  infer_instance

/-- In front of a wildcard there may be annotations, and in front of another type, too. -/
instance : Asks bounds .empty seesWildcard ((KindSet.singleton .question).union (.singleton .atSign)) (.singleton .atSign) where
  leads := by
    have wildcard : Asks bounds .empty (sees .question) (.singleton .question) .empty := inferInstance
    have annotated : Asks bounds .empty (sees .atSign) (.singleton .atSign) .empty := inferInstance
    refine .ask wildcard (fun s a t gives sincere => ?_) (.ask annotated (Leads.spare.bind fun cursor s a t gives sincere => ?_) .clear)
    · obtain ⟨rfl, rfl⟩ := gives.pure
      exact sincere.weaken fun given => .inl ((KindSet.contains_union ..).trans (by rw [given, Bool.true_or]))
    · obtain ⟨rfl, rfl⟩ := gives.pure
      refine sincere.weaken fun given => .inl ?_
      cases annotationsThen cursor .question 0
      · exact given
      · exact (KindSet.contains_union ..).trans (by rw [given, Bool.or_true])

instance : Clears bounds .empty wildcardBound := by
  unfold wildcardBound
  infer_instance

instance : Clears bounds kinds wildcard := by
  unfold wildcard
  infer_instance

instance : Clears bounds .empty typeArg := by
  unfold typeArg
  infer_instance

instance : Clears bounds kinds typeArgs := by
  unfold typeArgs
  infer_instance

/-- A dot is left where neither a name nor an annotation follows. -/
instance : Clears bounds .empty classTypeSegment where
  leads := by
    refine Leads.spare.bind fun _ s a u gives sincere => ?_
    obtain ⟨next, v, looked, gives⟩ := gives.bind
    obtain ⟨rfl, rfl⟩ := gives_nth looked
    obtain ⟨second, w, looked, gives⟩ := gives.bind
    obtain ⟨rfl, rfl⟩ := gives_nth looked
    obtain ⟨goes, x, asked, gives⟩ := gives.bind
    have behind := sees_and_leads asked (fun away => by simp_all [Kind.isProbed]) sincere
    cases goes with
    | true =>
      have behind : x.Sincere bounds.env (.singleton .dot) := behind
      rw [if_pos rfl] at gives
      exact Clears.leads gives behind
    | false =>
      obtain ⟨rfl, rfl⟩ := gives.pure
      exact behind

instance : Clears bounds kinds classTypeSegments := by
  unfold classTypeSegments
  infer_instance

instance : Inner First.primitiveType := ⟨by decide +kernel⟩

instance elementType_clears : Clears bounds ((KindSet.singleton .identifier).union (.singleton .atSign)) elementType := by
  unfold elementType
  infer_instance

instance : Clears bounds .empty elementType := elementType_clears.of_within (by simp)

instance {type : Completed} : Clears bounds .empty (arraySuffix type) := by
  unfold arraySuffix
  infer_instance

instance : Clears bounds ((KindSet.singleton .identifier).union (.singleton .atSign)) type where
  leads := .nested <| Clears.leads.bind fun found => by
    cases found with
    | some type => exact Clears.leads.bind fun _ => .pure rfl
    | none => exact .pure rfl

instance dims_clears : Clears bounds (.singleton .leftBracket) dims where
  leads := by
    have round : Leads bounds (.singleton .leftBracket) (do
        if ← seesDims then
          emptyBrackets
          return true
        else
          return false) fun goes => bif goes then .singleton .leftBracket else .empty := .ask inferInstance .clear (.pure rfl)
    have pairs : Clears bounds (.singleton .leftBracket) (loop do
        if ← seesDims then
          emptyBrackets
          return true
        else
          return false) := ⟨.loop round⟩
    have whole : Clears bounds (.singleton .leftBracket) dims := by
      unfold dims
      infer_instance
    exact whole.leads

instance : Clears bounds .empty dims := dims_clears.of_within (by simp)

instance : Clears bounds (.singleton .identifier) resultType := by
  unfold resultType
  infer_instance

instance : Clears bounds .empty resultType := by
  unfold resultType
  infer_instance

instance {operator : Kind} : Clears bounds .empty (typesAfter operator) := by
  unfold typesAfter
  infer_instance

instance {operator : Kind} : Clears bounds (.singleton operator) (typesAfter operator) := by
  unfold typesAfter
  infer_instance

instance : Spares bounds typeBound := by
  unfold typeBound
  infer_instance

instance : Clears bounds .empty typeParam := by
  unfold typeParam
  infer_instance

instance : Clears bounds kinds typeParams := by
  unfold typeParams
  infer_instance

instance {keyword : Kind} : Clears bounds kinds (consumeKeyword keyword) := by
  unfold consumeKeyword
  infer_instance

instance {keyword : Kind} : Clears bounds kinds (clause keyword kind) := by
  unfold clause
  infer_instance

instance {operator : Kind} : Clears bounds .empty (compoundType operator kind) where
  leads := Clears.leads.bind fun found => by
    cases found with
    | some type => exact Clears.leads
    | none => exact .pure rfl

instance : Clears bounds .empty intersectionType := by
  unfold intersectionType
  infer_instance

instance : Clears bounds .empty unionType := by
  unfold unionType
  infer_instance

end Types

section Patterns

variable [heeds : Heeds bounds]

instance : Clears bounds kinds patternList := by
  unfold patternList
  infer_instance

instance : Clears bounds kinds parenPattern := by
  unfold parenPattern
  infer_instance

instance : Clears bounds .empty typedPattern := by
  unfold typedPattern
  infer_instance

instance : Clears bounds .empty pattern := by
  unfold pattern
  infer_instance

end Patterns

section Switches

variable [heeds : Heeds bounds]

instance : Clears bounds .empty anyExpression := by
  unfold anyExpression
  infer_instance

instance : Spares bounds parenKindHere := by
  unfold parenKindHere
  infer_instance

instance : Spares bounds patternKindHere := inferInstanceAs (Spares bounds (decideBy _ _))

instance : Spares bounds seesLocalVarDecl := inferInstanceAs (Spares bounds (decideBy _ _))

instance : Spares bounds seesLocalTypeDecl := inferInstanceAs (Spares bounds (decideBy _ _))

instance : Spares bounds seesForeach := inferInstanceAs (Spares bounds (decideBy _ _))

instance : Spares bounds seesArrayTypeLiteral := inferInstanceAs (Spares bounds (decideBy _ _))

instance : Spares bounds (seesWord .whenKw) := seesWord_spares rfl

instance : Clears bounds .empty condition := by
  unfold condition
  infer_instance

instance : Clears bounds .empty exprAndSemicolon := by
  unfold exprAndSemicolon
  infer_instance

instance : Clears bounds .empty exprStmt := by
  unfold exprStmt
  infer_instance

instance {pattern : Completed} : Clears bounds .empty (guardedPattern pattern) := by
  unfold guardedPattern
  infer_instance

instance : Clears bounds .empty caseItem where
  leads := by
    have default : Asks bounds .empty (sees .defaultKw) (.singleton .defaultKw) .empty := inferInstance
    refine .ask default Clears.leads (Leads.spare.bind fun kind => .ite (Clears.leads.bind fun found => ?_) Clears.leads)
    cases found <;> exact Clears.leads

instance : Clears bounds .empty optionalGuard := by
  unfold optionalGuard
  infer_instance

instance : Clears bounds .empty caseItems := by
  unfold caseItems
  infer_instance

/-- A label of another form is told of at the token that ends it. -/
instance {form : Option Kind} : Clears bounds .empty (terminator form) where
  leads := by
    have ends : Asks bounds .empty (sees .colon <||> sees .arrow) ((KindSet.singleton .colon).union (.singleton .arrow)) .empty :=
      inferInstance
    refine .ask ends (fun s a t gives sincere => ?_) Clears.leads
    obtain ⟨kind, u, looked, rest⟩ := gives.bind
    obtain ⟨rfl, rfl⟩ := gives_current looked
    dsimp only at rest
    split at rest
    · exact Clears.leads rest sincere
    · obtain ⟨_, v, told, last⟩ := rest.bind
      have behind := (State.report_sincere sincere (fun _ _ => .label) (Result.of_done told.act)).1
      exact Clears.leads last behind

instance : Clears bounds kinds labelHead := by
  unfold labelHead
  infer_instance

instance {form : Option Kind} : Clears bounds kinds (switchLabel form) := by
  unfold switchLabel
  infer_instance

instance : Clears bounds .empty ruleBody where
  leads := Leads.spare.bind fun found => by split <;> exact Clears.leads

def labelStart : KindSet := (KindSet.singleton .caseKw).union (.singleton .defaultKw)

def groupEnd : KindSet := labelStart.union (listEnd .rightBrace)

instance : Asks bounds .empty seesLabel labelStart .empty :=
  inferInstanceAs (Asks bounds .empty (sees .caseKw <||> sees .defaultKw) _ _)

instance : Asks bounds labelStart seesLabel labelStart .empty :=
  inferInstanceAs (Asks bounds ((KindSet.singleton .caseKw).union (.singleton .defaultKw)) (sees .caseKw <||> sees .defaultKw) _ _)

private theorem groupStatements_leads : Leads bounds .empty groupStatements fun _ => groupEnd := by
  have ends : Asks bounds .empty (seesLabel <||> sees .rightBrace <||> sees .eof) groupEnd .empty := inferInstance
  exact .loop (.ask ends (.pure rfl) .clear)

instance {form : Option Kind} : Clears bounds .empty (moreLabels form) := by
  unfold moreLabels
  infer_instance

private theorem switchEntry_leads {form : Option Kind} : Leads bounds labelStart (switchEntry form) fun _ => groupEnd := by
  refine Leads.spare.bind fun mark => .andThen groupEnd (Clears.leads.bind fun answer => ?_) fun answer => ?_
  · rcases answer with ⟨ending, form⟩
    refine .ite .clear (Clears.leads.bind fun form => groupStatements_leads.bind fun _ => .pure rfl)
  · rcases answer with ⟨kind, form⟩
    exact Leads.spare.bind fun _ => .pure rfl

omit heeds in
private theorem strides_switchEntry {form : Option Kind} : Strides bounds (switchEntry form) := by
  have head : Strides bounds labelHead := .behind sees_still fun found => by
    split
    · exact strides_consume (by decide)
    · exact .bind (strides_consume (by decide))
  exact .behind start_still fun _ => .bind (.bind (.behind start_still fun _ => .bind (.bind head)))

/-- What is in doubt behind an entry is nothing, or comes behind a token that was taken. -/
theorem entryOrError_leads {form after : Option Kind} {s t : State} (gives : bounds.Gives (entryOrError form) s after t)
    (sincere : s.Sincere bounds.env labelStart) :
    t.Sincere bounds.env groupEnd ∧ (t.position = s.position → t.Sincere bounds.env .empty) := by
  obtain ⟨found, u, looked, rest⟩ := gives.bind
  have behind := Asks.leads looked sincere
  have still : u.position = s.position := by
    obtain ⟨case, v, ran, later⟩ := looked.bind
    have one := sees_still _ _ _ ran
    cases case with
    | true =>
      obtain ⟨rfl, rfl⟩ := later.pure
      exact one
    | false => exact (sees_still _ _ _ later).trans one
  cases found with
  | true =>
    have moved := (strides_switchEntry rest).2
    exact ⟨switchEntry_leads rest behind, fun same => by omega⟩
  | false =>
    simp only [Bool.false_eq_true, if_false] at rest
    have behind : u.Sincere bounds.env .empty := behind
    have told : t.Sincere bounds.env .empty := Clears.leads rest behind
    exact ⟨told.of_empty, fun _ => told⟩

private theorem nextEntry_leads {form : Option Kind} :
    Leads bounds groupEnd (nextEntry form) (·.elim (listEnd .rightBrace) fun _ => groupEnd) := by
  have closes : Asks bounds groupEnd (sees .rightBrace) (.singleton .rightBrace) (labelStart.union (.singleton .eof)) :=
    sees_asks (by simp) fun other away given => by simpa [groupEnd, away] using given
  have ends : Asks bounds groupEnd (sees .rightBrace <||> sees .eof) (listEnd .rightBrace) labelStart := inferInstance
  refine .ask ends (.pure rfl) fun s next t gives sincere => ?_
  obtain ⟨before, u, looked, gives⟩ := gives.bind
  obtain ⟨rfl, rfl⟩ := gives_position looked
  obtain ⟨after, v, ran, gives⟩ := gives.bind
  obtain ⟨entry, unmoved⟩ := entryOrError_leads ran sincere
  obtain ⟨here, w, looked, gives⟩ := gives.bind
  obtain ⟨rfl, rfl⟩ := gives_position looked
  split at gives
  · next same =>
    have told : Leads bounds .empty (do reportAndSkip (.unexpected (← current)); return some after)
        (·.elim (listEnd .rightBrace) fun _ => groupEnd) := .clear
    exact told gives (unmoved same)
  · obtain ⟨rfl, rfl⟩ := gives.pure
    exact entry

instance : Clears bounds .empty switchBlock where
  leads := by
    have rest : Leads bounds .empty (loopFrom none nextEntry) fun _ => listEnd .rightBrace :=
      (Leads.loopFrom (fun _ => groupEnd) fun form => nextEntry_leads).of_empty
    have entries : Defers bounds .empty (discard (loopFrom none nextEntry)) (listEnd .rightBrace) := ⟨rest.bind fun _ => .pure rfl⟩
    exact Clears.ask.leads

instance : Clears bounds kinds switchExpr := by
  unfold switchExpr
  infer_instance

end Switches

section Expressions

variable [heeds : Heeds bounds]

instance : Clears bounds kinds argList := by
  unfold argList
  infer_instance

instance : Clears bounds .empty variableInitializer := by
  unfold variableInitializer
  infer_instance

instance : Clears bounds kinds arrayInitializer := by
  unfold arrayInitializer
  infer_instance

instance : Clears bounds .empty lambdaParam := by
  unfold lambdaParam
  infer_instance

instance : Clears bounds .empty lambdaElement := by
  unfold lambdaElement
  infer_instance

instance : Clears bounds kinds lambdaParamList := by
  unfold lambdaParamList
  infer_instance

instance : Clears bounds kinds lambdaParams := by
  unfold lambdaParams
  infer_instance

instance : Clears bounds kinds lambdaExpr := by
  unfold lambdaExpr
  infer_instance

instance : Clears bounds kinds reference := by
  unfold reference
  infer_instance

instance {receiver : Completed} : Clears bounds kinds (methodRef receiver) := by
  unfold methodRef
  infer_instance

omit heeds in
/-- A dot that `class` does not follow makes no literal of a type. -/
instance : Clears bounds (.singleton .dot) (expectedHere "`.class` or `::`") := expectedHere_clears fun kind given => by
  obtain rfl : Kind.dot = kind := by simpa using given
  exact .literal

instance {type : Completed} : Clears bounds .empty (typeLiteralSuffix type) := by
  unfold typeLiteralSuffix
  infer_instance

instance : Clears bounds kinds dimExpr := by
  unfold dimExpr
  infer_instance

instance : Clears bounds (.singleton .leftBracket) arrayCreationRest where
  leads := by
    have size (next : Kind) : Asks bounds (.singleton .leftBracket) (sees .leftBracket <&&> pure (next != .rightBracket))
        (.singleton .leftBracket) (.singleton .leftBracket) := inferInstance
    have round : Leads bounds (.singleton .leftBracket) (do
        let next ← nth 1
        if ← sees .leftBracket <&&> pure (next != .rightBracket) then
          dimExpr
          return true
        else
          return false) fun goes => bif goes then .singleton .leftBracket else .singleton .leftBracket :=
      Leads.spare.bind fun next => .ask (size next) .clear (.pure rfl)
    exact (Leads.loop round).bind fun _ => .clear

instance : Clears bounds .empty objectCreationRest := by
  unfold objectCreationRest
  infer_instance

instance : Clears bounds kinds creation := by
  unfold creation
  infer_instance

instance : Clears bounds .empty genericCallName where
  leads := Leads.spare.bind fun found => by split <;> exact Clears.leads

instance : Clears bounds kinds genericCallRest := by
  unfold genericCallRest
  infer_instance

instance {plain : Kind} : Clears bounds .empty (callOr plain) := by
  unfold callOr
  infer_instance

instance : Clears bounds .empty selected where
  leads := Leads.spare.bind fun found => by split <;> exact Clears.leads

instance {receiver : Completed} : Clears bounds kinds (dotSuffix receiver) := by
  unfold dotSuffix
  infer_instance

instance : Clears bounds kinds subscript := by
  unfold subscript
  infer_instance

instance {array : Completed} : Clears bounds kinds (arrayAccess array) := by
  unfold arrayAccess
  infer_instance

instance {operand : Completed} : Clears bounds .empty (postfixStep operand) where
  leads := Leads.spare.bind fun found => by split <;> exact Clears.leads

instance {operand : Completed} : Clears bounds .empty (incrementStep operand) where
  leads := Leads.spare.bind fun found => by split <;> exact Clears.leads

instance {operand : Completed} : Clears bounds .empty (postfixExpr operand) := by
  unfold postfixExpr
  infer_instance

instance : Clears bounds kinds plainName := by
  unfold plainName
  infer_instance

instance : Clears bounds (.singleton .identifier) simpleName where
  leads := by
    refine Leads.spare.bind fun next => .ask Asks.of_spares (Clears.leads.bind fun found => ?_) Clears.leads
    cases found <;> exact Clears.leads

omit heeds in
/-- Where a receiver was found, `::` stands behind it. What was tried and taken back is as it was. -/
theorem genericReceiver_leads {found : Kind} [Clears bounds (.singleton found) (call .type)] :
    Leads bounds (.singleton found) genericReceiver? (·.elim (.singleton found) fun _ => .singleton .colonColon) := by
  refine .speculate (Clears.leads.bind fun type => ?_)
  cases type with
  | none => exact .clear
  | some type =>
    refine Asks.leads.bind fun found => ?_
    cases found with
    | true => exact .pure rfl
    | false => exact (Leads.clear : Leads bounds .empty (Pure.pure none) _)

instance : Clears bounds (.singleton .identifier) nameExpr where
  leads := by
    refine Leads.spare.bind fun next => Leads.spare.bind fun restricted => .ite Clears.leads <|
      .ite (genericReceiver_leads.bind fun found => ?_) Clears.leads
    cases found with
    | some type => exact .bind (Clears.leads : Leads bounds (.singleton .colonColon) (methodRef type) _) fun _ => .pure rfl
    | none => exact (Clears.leads : Leads bounds (.singleton .identifier) (call .simpleName) _)

instance {kind plain : Kind} : Clears bounds kinds (selfExpr kind plain) := by
  unfold selfExpr
  infer_instance

instance : Clears bounds .empty genericSelfName := by
  unfold genericSelfName
  infer_instance

instance : Clears bounds kinds genericSelfCall := by
  unfold genericSelfCall
  infer_instance

instance : Clears bounds (.singleton .identifier) literalType where
  leads := Clears.leads.bind fun found => by cases found <;> exact Clears.leads

omit heeds in
/-- An expression starts with an operator in front of an operand, a bracket, a literal, a type or a name. -/
theorem startsExpression : ∀ kind ∈ Kind.all, First.expression.contains kind = true →
    kind ∈ [.plus, .minus, .plusPlus, .minusMinus, .bang, .tilde, .leftParen] ∨ kind.isLiteral = true ∨
      (kind = .voidKw ∨ kind.isPrimitiveType = true) ∨ kind ∈ [.identifier, .thisKw, .superKw, .newKw, .switchKw] := by
  decide +kernel

omit heeds in
instance : Clears bounds (.singleton .eof) (report (.expected "expression" .eof)) := report_clears fun kind given _ => by
  obtain rfl : Kind.eof = kind := by simpa using given
  exact .ended (by simp [Issue.endings])

omit heeds in
private theorem missingExpression_leads {s t : State} (gives : bounds.Gives missingExpression s () t)
    (away : First.expression.contains (s.current bounds.env) = false)
    (sincere : s.Sincere bounds.env .empty) : t.Sincere bounds.env .empty := by
  obtain ⟨_, u, allowed, rest⟩ := gives.bind
  cases allowed.act
  have behind : (s.allow First.expression).Sincere bounds.env .empty := State.sincere_missed (State.sincere_allow sincere) away
  obtain ⟨found, u, looked, rest⟩ := rest.bind
  obtain ⟨rfl, rfl⟩ := gives_current looked
  obtain ⟨ended, v, asked, rest⟩ := rest.bind
  obtain ⟨none, w, seen, later⟩ := asked.bind
  have current : w.current bounds.env = (s.allow First.expression).current bounds.env := by
    rw [State.current, State.cursor, sees_still _ _ _ seen, State.current, State.cursor]
  obtain ⟨tried, told⟩ := sees_leads seen behind
  cases none with
  | true =>
    obtain ⟨rfl, rfl⟩ := later.pure
    have here : State.current bounds.env (s.allow First.expression) = .eof := current ▸ beq_iff_eq.mp told.symm
    simp only [here, ↓reduceIte] at rest
    exact (Clears.leads : Leads bounds (.singleton .eof) _ _) rest (State.sincere_found tried (by simp [beq_iff_eq.mp told.symm]))
  | false =>
    obtain ⟨rfl, rfl⟩ := later.pure
    have fresh : v.Sincere bounds.env .empty :=
      State.sincere_missed tried (by simpa using Ne.symm (beq_eq_false_iff_ne.mp told.symm))
    exact Clears.leads rest fresh

/-- Behind the operators in front of it, an operand is told by its first token. -/
theorem primary_leads {s t : State} {found : Option Completed} (gives : bounds.Gives primary s found t)
    (operand : s.current bounds.env ∉ [.plus, .minus, .plusPlus, .minusMinus, .bang, .tilde, .leftParen])
    (sincere : s.Sincere bounds.env (.singleton .identifier)) : t.Sincere bounds.env .empty := by
  obtain ⟨kind, u, looked, rest⟩ := gives.bind
  obtain ⟨rfl, rfl⟩ := gives_current looked
  split at rest
  · exact Clears.leads rest sincere
  · next literal =>
    split at rest
    · exact Clears.leads rest sincere
    · next type =>
      split at rest
      case h_7 name this super new switch angle =>
        obtain ⟨_, v, missed, last⟩ := rest.bind
        obtain ⟨rfl, rfl⟩ := last.pure
        refine missingExpression_leads missed (Bool.eq_false_iff.mpr fun starts => ?_) (sincere.weaken fun given => ?_)
        · rcases startsExpression _ (Kind.mem_all _) starts with front | found | found | found
          · exact operand front
          · exact literal found
          · exact type found
          · simp only [List.mem_cons, List.not_mem_nil, or_false] at found
            tauto
        · exact absurd (by simpa using given) (Ne.symm name)
      all_goals exact Clears.leads rest sincere

instance : Clears bounds kinds castExpr := by
  unfold castExpr
  infer_instance

instance : Clears bounds kinds parenExpr := by
  unfold parenExpr
  infer_instance

instance {kind : ParenKind} : Clears bounds kinds (operandOf kind) := by
  cases kind <;> (unfold operandOf; infer_instance)

instance : Clears bounds kinds parenOperand := by
  unfold parenOperand
  infer_instance

private theorem attachedOperand_leads {s t : State} {found : Option Completed} (gives : bounds.Gives attachedOperand s found t)
    (operand : s.current bounds.env ∉ [.plus, .minus, .plusPlus, .minusMinus, .bang, .tilde, .leftParen])
    (sincere : s.Sincere bounds.env (.singleton .identifier)) : t.Sincere bounds.env .empty := by
  obtain ⟨first, u, ran, rest⟩ := gives.bind
  have behind := primary_leads ran operand sincere
  cases first <;> exact Clears.leads rest behind

instance [Inner kinds] : Clears bounds kinds prefixExpr := by
  unfold prefixExpr
  infer_instance

instance : Clears bounds (.singleton .identifier) unary where
  leads s found t gives sincere := by
    obtain ⟨kind, u, looked, rest⟩ := gives.bind
    obtain ⟨rfl, rfl⟩ := gives_current looked
    split at rest
    case h_8 plus minus more less bang tilde paren =>
      exact attachedOperand_leads rest (by simp_all) sincere
    case h_7 opener =>
      have bracket : u.Sincere bounds.env .empty := sincere.weaken fun given => by simp [opener] at given
      exact Clears.leads rest bracket
    all_goals exact Clears.leads rest sincere

instance : Clears bounds (.singleton .finalKw) (report .finalWithoutBinding) :=
  report_clears fun kind given _ => by
    obtain rfl : Kind.finalKw = kind := by simpa using given
    exact .modifier

instance : Clears bounds .empty instanceofTarget := by
  unfold instanceofTarget
  infer_instance

instance {op : Operator} : Clears bounds kinds (operation op) where
  leads := by
    unfold operation
    split <;> exact Clears.leads

instance {least : Power} {left : Completed} : Clears bounds .empty (operatorStep least left) where
  leads := Leads.spare.bind fun cursor => by split <;> exact Clears.leads

instance {least : Power} : Clears bounds (.singleton .identifier) (expression least) where
  leads := .nested <| Clears.leads.bind fun found => by cases found <;> exact Clears.leads

end Expressions

end LosslessJava.Grammar
