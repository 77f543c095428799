import LosslessJava.Proofs.PredictedDiagnostics
import LosslessJava.Proofs.ScannedTypes
import LosslessJava.Proofs.WrittenTrees

/-! Files whose way is known: the items of a file, the members of a class and the statements of a block, each of them
read from an index on, with what they tell. A file is then the tree of its items. -/

namespace LosslessJava

open LosslessJava.Parser

namespace Grammar

variable {env : Env} {level : Level} {depth i j : Nat} {kind closer : Kind}

structure Unmarked (stream : TokenStream) (i : Nat) : Prop where
  sign : stream.kindAt i ≠ .atSign
  plain : First.modifier.contains (stream.kindAt i) = false
  unsealed : isSealed ⟨stream, i⟩ = false
  apart : isNonSealed ⟨stream, i⟩ = false

/-- Only names can be modifiers beside the keywords for them. -/
theorem Unmarked.of_kind (here : env.stream.kindAt i = kind) (name : kind ≠ .identifier) (sign : kind ≠ .atSign)
    (plain : First.modifier.contains kind = false) : Unmarked env.stream i := by
  have current : (⟨env.stream, i⟩ : TokenCursor).nth 0 = kind := by rw [TokenCursor.nth_eq, Nat.add_zero, here]
  exact ⟨here ▸ sign, here ▸ plain, by simp [isSealed, isWordAt, current, name],
    by simp [isNonSealed, TokenCursor.current, current, name]⟩

theorem modifiers_none (bare : Unmarked env.stream i) :
    Follows env level i modifiers fun found row j => found = false ∧ row = [] ∧ j = i := by
  have single : Follows env level i modifier fun found row j => found = false ∧ row = [] ∧ j = i := by
    refine (seesAnnotation_follows bare.sign).bind fun found row j given => ?_
    obtain ⟨rfl, rfl, rfl⟩ := given
    refine .look ?_
    have among : First.modifier.contains (⟨env.stream, j⟩ : TokenCursor).current = false := by
      rw [TokenCursor.current, TokenCursor.nth_eq, Nat.add_zero, bare.plain]
    simp only [id, among, bare.unsealed, bare.apart]
    exact .pure ⟨rfl, rfl, rfl⟩
  have all : Follows env level i (loopAny modifier) fun found row j => found = false ∧ row = [] ∧ j = i :=
    .loopFrom <| single.weaken fun found row j given => by
      obtain ⟨rfl, holds⟩ := given
      exact ⟨rfl, holds⟩
  intro s here deep
  have inner : Delivers env s.start (do return if ← loopAny modifier then some Kind.modifierList else none) s.start
      fun found row t => found = none ∧ row = [] ∧ t.position = i :=
    .bind (all s.start here deep.start) fun found row t wrote given => .pure wrote <| by
      obtain ⟨rfl, holds⟩ := given
      exact ⟨rfl, holds⟩
  have list := Delivers.nodeIf (s := s) (P := fun _ _ => False) (Q := fun row j => row = [] ∧ j = i) <|
    inner.weaken fun found row t _ given => by
      obtain ⟨rfl, holds⟩ := given
      exact holds
  refine .bind list fun found row t wrote holds => .pure wrote ?_
  cases found with
  | some => exact holds.2.elim
  | none => exact ⟨rfl, by simpa using holds.1, holds.2⟩

section Lists

variable {rule : Rule Unit} {issue : Kind → Issue} {told : List Shape → List Diagnostic → Nat → Prop}

private theorem skipUnmoved_remarks (item : Remarks env depth i rule fun _ row told' j => i < j ∧ told row told' j) :
    Remarks env depth i (skipUnmoved rule issue) fun _ => told := by
  refine .look <| .andQuiet item fun _ front early j ⟨moved, holds⟩ => .look ?_
  rw [if_neg (Nat.ne_of_gt moved)]
  exact .pure (by simpa using holds)

/-- A list ends where the closing token stands. -/
theorem listUntil_end (here : env.stream.kindAt i = closer) :
    Follows env level i (listUntil closer rule) fun _ row j => row = [] ∧ j = i := by
  refine .loopEnd <| .look ?_
  rw [TokenCursor.nth_eq, Nat.add_zero, here, if_pos (by simp)]
  exact .pure ⟨rfl, rfl, rfl⟩

end Lists

section Clauses

theorem isWordAt_eq_false {n : Nat} {keyword : Kind} (away : env.stream.kindAt (i + n) ≠ .identifier) :
    isWordAt ⟨env.stream, i⟩ n keyword = false := by
  have other : ((⟨env.stream, i⟩ : TokenCursor).nth n == .identifier) = false := by
    rw [TokenCursor.nth_eq, beq_eq_false_iff_ne]
    exact away
  rw [isWordAt, other, Bool.false_and]

instance {n : Nat} {keyword : Kind} : Views env (nthIsWord n keyword) fun cursor => isWordAt cursor n keyword :=
  have looks : Views env Parser.cursor id := inferInstance
  looks.andThen (fun here _ => isWordAt here n keyword) fun _ => inferInstance

instance {keyword : Kind} : Views env (seesKeyword keyword) fun cursor => keywordAt cursor keyword := by
  unfold seesKeyword keywordAt
  split
  · exact .andThen inferInstance (fun _ cursor => isWordAt cursor 0 keyword) fun _ => inferInstance
  · exact inferInstanceAs (Views env (sees keyword) fun cursor => cursor.nth 0 == keyword)

instance {index : Nat} {forms : List ClauseForm} :
    Views env (clauseHere index forms) fun cursor => clauseAt cursor index forms := by
  induction forms generalizing index with
  | nil => exact inferInstanceAs (Views env (Pure.pure none) fun _ => none)
  | cons form rest ih =>
    exact .andThen inferInstance
      (fun (here : Bool) cursor => if here then some (index, form) else clauseAt cursor (index + 1) rest) fun _ => inferInstance

theorem clauseAt_none {forms : List ClauseForm} {index : Nat} (here : env.stream.kindAt i = .leftBrace)
    (away : ∀ form ∈ forms, form.1 ≠ .leftBrace) : clauseAt ⟨env.stream, i⟩ index forms = none := by
  induction forms generalizing index with
  | nil => rfl
  | cons form rest ih =>
    have other : keywordAt ⟨env.stream, i⟩ form.1 = false := by
      have named : env.stream.kindAt (i + 0) ≠ .identifier := by simp [here]
      have current : (⟨env.stream, i⟩ : TokenCursor).current = .leftBrace := by
        rw [TokenCursor.current, TokenCursor.nth_eq, Nat.add_zero, here]
      rw [keywordAt, current, isWordAt_eq_false named]
      split
      · rfl
      · exact beq_false_of_ne (away form List.mem_cons_self).symm
    rw [clauseAt, other, if_neg (by simp)]
    exact ih fun form member => away form (List.mem_cons_of_mem _ member)

end Clauses

section Files

variable {told : List Shape → List Diagnostic → Nat → Prop}

/-- One item of a file, if there is one. -/
def fileRound : Rule Bool := do
  if ← sees .eof then
    return false
  else
    skipUnmoved topLevelItem (.expected "a declaration")
    return true

private theorem compilationUnit_eq : compilationUnit = Functor.discard (Parser.node .compilationUnit do
    loop fileRound
    consume .eof) := rfl

theorem file_more (more : env.stream.kindAt i ≠ .eof) {middle : List Shape → List Diagnostic → Nat → Prop}
    (item : Remarks env depth i topLevelItem fun _ row told' j => i < j ∧ middle row told' j)
    (rest : ∀ front early j, middle front early j → (∀ d ∈ early, d.tokenIndex < j) ∧
      Remarks env depth j (loop fileRound) fun _ back late k => told (front ++ back) (early ++ late) k) :
    Remarks env depth i (loop fileRound) fun _ => told := by
  have round : Remarks env depth i fileRound fun found row told' j => found = true ∧ middle row told' j := by
    refine .look ?_
    have inside : ((⟨env.stream, i⟩ : TokenCursor).nth 0 == .eof) = false := by
      rw [TokenCursor.nth_eq, Nat.add_zero, beq_eq_false_iff_ne]
      exact more
    rw [inside]
    refine .andQuiet (skipUnmoved_remarks item) fun _ front early j holds => .pure ?_
    exact ⟨rfl, by simpa using holds⟩
  exact .loopOn ((Remarks.stepTo round).weaken fun _ _ _ _ ⟨same, holds⟩ => ⟨(), same, holds⟩)
    fun _ front early j holds => rest front early j holds

theorem file_end (here : env.stream.kindAt i = .eof) :
    Follows env level i (loop fileRound) fun _ row j => row = [] ∧ j = i := by
  refine .loopEnd <| .look ?_
  rw [TokenCursor.nth_eq, Nat.add_zero, here, if_pos (by simp)]
  exact .pure ⟨rfl, rfl, rfl⟩

theorem hears_start : (State.start {}).Hears := ⟨by simp [State.start], by simp [State.start]⟩

/-- What is recorded and told of a file, if its items can be followed up to the end of input. -/
theorem file_emits {P : List Shape → List Diagnostic → Prop}
    (items : Notes env (loop fileRound) (State.start {}) fun _ row told t => env.stream.kindAt t.position = .eof ∧ P row told) :
    ∃ t row, compilationUnit.exec env Grammar.rule {} = some (.ok ((), t)) ∧
      Event.Emits t.events.toList (Shape.stepsAll [.node .compilationUnit (row ++ [.token .eof 1])]) ∧
      P row t.diagnostics.toList ∧ t.recovery ≠ .abandoned := by
  obtain ⟨⟨⟩, t, ran, row, told, noted, ended, holds⟩ := items
  obtain ⟨body, recorded, emits⟩ := noted.events
  have here : t.current env = .eof := (Follows.current_eq rfl).trans ended
  have consumed : t.consume env .eof = .ok (t.pushToken env .eof 1) := by simp [State.consume, here]
  have recorded' : (t.pushToken env .eof 1).events.toList = (State.start {}).events.toList ++ (body ++ [.token .eof 1]) := by
    simp [State.pushToken, recorded]
  have emits' : Event.Emits (body ++ [.token .eof 1]) (Shape.stepsAll (row ++ [.token .eof 1])) := by
    rw [Shape.stepsAll_append]
    exact emits.append (.token .nil)
  obtain ⟨events, more, completed, stretch, chain⟩ := State.complete_chain recorded' emits' (show Kind.compilationUnit ≠ .tombstone by decide)
  have inner : (do loop fileRound; consume .eof : Rule Unit).exec env Grammar.rule (State.start {}) =
      some (.ok ((), t.pushToken env .eof 1)) := by
    rw [Program.exec_bind, ran, Program.andThen_ok, consume, Program.exec_act]
    simp only [Action.run, consumed]
    rfl
  have going : (t.pushToken env .eof 1).recovery ≠ .abandoned := State.pushToken_going noted.going _ _
  refine ⟨{ t.pushToken env .eof 1 with events := events }, row, ?_, ?_, ?_, going⟩
  · rw [compilationUnit_eq, Program.exec_discard]
    unfold Parser.node Parser.nodeOf
    rw [Program.exec_bind, start, Program.exec_act]
    simp only [Action.run, Program.andThen_ok]
    rw [Program.exec_bind, Program.exec_bind, inner, Program.andThen_ok, Program.exec_return, Program.andThen_ok, Mark.complete,
      Program.exec_act]
    simp only [Action.run, completed]
    rfl
  · have all : events.toList = more := by simpa using stretch
    rw [all]
    simpa [Shape.stepsAll] using chain.emits
  · have same : told = t.diagnostics.toList := by simpa [State.start] using noted.told.symm
    exact same ▸ holds

end Files

section Declarations

variable {told : List Shape → List Diagnostic → Nat → Prop}

theorem topLevelItem_class (here : env.stream.kindAt i = .classKw)
    (decl : Remarks env depth i classDecl fun _ row told' j => told [.node .classDecl row] told' j) :
    Remarks env depth i topLevelItem fun _ => told := by
  have current : (⟨env.stream, i⟩ : TokenCursor).current = .classKw := by
    rw [TokenCursor.current, TokenCursor.nth_eq, Nat.add_zero, here]
  have away : env.stream.kindAt (i + 0) ≠ .identifier := by simp [here]
  have module : isModuleDecl ⟨env.stream, i⟩ = false := by
    simp [isModuleDecl, isWordAt_eq_false away]
  refine .nodeIf <| .behindQuiet (modifiers_none (.of_kind here (by decide) (by decide) (by decide +kernel))) fun found row j given => ?_
  obtain ⟨rfl, rfl, rfl⟩ := given
  refine .look ?_
  simp only [id, current, module]
  refine .look ?_
  simp only [id, isTypeDecl, current]
  exact .andQuiet decl fun _ front early k holds => .pure ⟨_, rfl, by decide, by simpa using holds⟩

theorem classBody_remarks (here : env.stream.kindAt i = .leftBrace) (room : depth < env.options.maxDepth)
    (members : Remarks env (depth + 1) (i + 1) (listUntil .rightBrace (member .classBody)) fun _ row told' j =>
      env.stream.kindAt j = .rightBrace ∧
        told [.node .classBody (.token .leftBrace 1 :: (row ++ [.token .rightBrace 1]))] told' (j + 1)) :
    Remarks env depth i (call (.classBody .classBody)) fun _ => told := by
  refine .call <| .look ?_
  rw [TokenCursor.nth_eq, Nat.add_zero, here, beq_self_eq_true, if_pos rfl]
  refine .nested room <| .node (by decide) ?_
  have opened : Follows env ⟨depth + 1, false⟩ i (consume .leftBrace) fun _ row j => row = [.token .leftBrace 1] ∧ j = i + 1 :=
    .consume here (by decide) ⟨rfl, rfl⟩
  refine .behindQuiet opened fun _ row j given => ?_
  obtain ⟨rfl, rfl⟩ := given
  have constants : Follows env ⟨depth + 1, false⟩ (i + 1) (enumConstantsIn .classBody) fun _ row j => row = [] ∧ j = i + 1 :=
    .pure ⟨rfl, rfl⟩
  refine .behindQuiet constants fun _ row j given => ?_
  obtain ⟨rfl, rfl⟩ := given
  refine .andQuiet members fun _ row early j ⟨closed, holds⟩ => ?_
  exact .require closed (by decide) (by simpa using holds)

end Declarations

end Grammar

open Grammar in
/-- A file whose items can be followed up to the end of input parses to the tree of these items. -/
theorem EntryPoint.parse_of_items {text : String} {options : ParseOptions} {words : List (Kind × String)} {row : List Sketch}
    {P : List Diagnostic → Prop} (written : wordsOf text = words) (texts : Sketch.textsAll row ++ [""] = words.map Prod.snd)
    (items : Notes (textEnv text options) (loop fileRound) (State.start {}) fun _ found told t =>
      (TokenStream.lex text).kindAt t.position = .eof ∧ found = Sketch.shapes row ∧ P told) :
    ∃ parse, EntryPoint.file.parse text options = .ok parse ∧ parse.state = .normal ∧ P parse.diagnostics ∧
      (Sketch.node .compilationUnit (row ++ [.token .eof ""])).Depicts (.node parse.root) := by
  obtain ⟨t, found, ran, emits, ⟨rfl, told⟩, going⟩ :=
    @file_emits (textEnv text options) (fun found told => found = Sketch.shapes row ∧ P told) items
  have whole : Sketch.shapes row ++ [.token .eof 1] = Sketch.shapes (row ++ [.token .eof ""]) := by
    simp [Sketch.shapes, Sketch.shape]
  rw [whole] at emits
  obtain ⟨parse, parsed, diagnostics, state, built⟩ := @EntryPoint.parse_of_emits .file _ _ _ _ _ ran emits
  refine ⟨parse, parsed, ?_, diagnostics ▸ told, ?_⟩
  · rw [state]
    split
    · rfl
    · next calm => cases same : t.recovery <;> simp_all
  · refine built.depicts fun index word here => ?_
    have listed : (words.map Prod.snd)[index]? = some word := by
      rw [← here, ← texts, Sketch.textsAll_append]
      rfl
    simpa using (TokenStream.reads_lex written).text listed

end LosslessJava
