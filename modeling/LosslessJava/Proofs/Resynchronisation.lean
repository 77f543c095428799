import LosslessJava.Proofs.LayoutVariants
import Mathlib

/-! Where parsing goes on after an error. Tokens are skipped one by one and braced regions as a whole, so the
parser comes to the first token where it can go on that no brace on the way still holds back. -/

namespace LosslessJava

namespace TokenStream

variable (stream : TokenStream)

/-- How many tokens of a kind stand from one index up to another. -/
def occurrences (kind : Kind) (start stop : Nat) : Nat :=
  (List.range' start (stop - start)).countP (stream.kindAt · == kind)

/-- The brace at an index is opened and not yet closed before another index: among the tokens between them, no
closing brace is without an opening one. -/
structure Encloses (brace index : Nat) : Prop where
  opener : stream.kindAt brace = .leftBrace
  before : brace < index
  unclosed : ∀ stop ≤ index,
    stream.occurrences .rightBrace (brace + 1) stop ≤ stream.occurrences .leftBrace (brace + 1) stop

/-- Parsing can go on at an index, coming from another one: there is the end of input, or else a closing brace or a
token of the set that lies in no pair of braces opened on the way. -/
def Resumes (recovery : KindSet) (start index : Nat) : Prop :=
  stream.kindAt index = .eof ∨
    (∀ brace, start ≤ brace → ¬ stream.Encloses brace index) ∧
      (stream.kindAt index = .rightBrace ∨ recovery.contains (stream.kindAt index) = true)

/-- The first index from another one on where parsing can go on. -/
structure FirstResume (recovery : KindSet) (start index : Nat) : Prop where
  le : start ≤ index
  resumes : stream.Resumes recovery start index
  first : ∀ other, start ≤ other → other < index → ¬ stream.Resumes recovery start other

def openBraces (start : Nat) : Nat → Nat
  | 0 => 0
  | index + 1 =>
    if index < start then 0 else Parser.State.braceDepth (openBraces start index) (stream.kindAt index)

variable {stream} {start index stop : Nat} {kind : Kind}

private theorem occurrences_of_le (le : stop ≤ start) : stream.occurrences kind start stop = 0 := by
  rw [occurrences, Nat.sub_eq_zero_of_le le]
  rfl

private theorem occurrences_succ (le : start ≤ stop) : stream.occurrences kind start (stop + 1) =
    stream.occurrences kind start stop + if stream.kindAt stop = kind then 1 else 0 := by
  have more : stop + 1 - start = (stop - start) + 1 := by omega
  rw [occurrences, more, List.range'_concat, List.countP_append, List.countP_singleton, Nat.one_mul, Nat.add_sub_cancel' le]
  simp [occurrences]

private theorem occurrences_from (before : start < stop) : stream.occurrences kind start stop =
    (if stream.kindAt start = kind then 1 else 0) + stream.occurrences kind (start + 1) stop := by
  have more : stop - start = (stop - (start + 1)) + 1 := by omega
  rw [occurrences, more, List.range'_succ, List.countP_cons]
  simp [occurrences, Nat.add_comm]

private theorem openBraces_of_le (le : index ≤ start) : stream.openBraces start index = 0 := by
  cases index with
  | zero => rfl
  | succ index => exact if_pos le

private theorem openBraces_succ (le : start ≤ index) : stream.openBraces start (index + 1) =
    Parser.State.braceDepth (stream.openBraces start index) (stream.kindAt index) := if_neg (Nat.not_lt_of_le le)

/-- No more braces are open than were opened and not closed again, counted from any index on the way. -/
theorem openings_le (le : start ≤ stop) (inside : stop ≤ index) : stream.occurrences .leftBrace stop index ≤
    stream.openBraces start index + stream.occurrences .rightBrace stop index := by
  induction index, inside using Nat.le_induction with
  | base => simp [occurrences_of_le]
  | succ index inside ih =>
    rw [occurrences_succ inside, occurrences_succ inside, openBraces_succ (by omega)]
    cases kind : stream.kindAt index <;> simp only [Parser.State.braceDepth, reduceCtorEq, if_true, if_false] <;> omega

theorem Encloses.le {brace : Nat} (encloses : stream.Encloses brace index) : brace + 1 ≤ index := encloses.before

/-- A brace that is open stays open behind a token that closes no brace, or none but those within it. -/
theorem Encloses.succ {brace : Nat} (encloses : stream.Encloses brace index)
    (still : stream.kindAt index = .rightBrace →
      stream.occurrences .rightBrace (brace + 1) index < stream.occurrences .leftBrace (brace + 1) index) :
    stream.Encloses brace (index + 1) where
  opener := encloses.opener
  before := Nat.lt_succ_of_lt encloses.before
  unclosed stop le := by
    rcases Nat.le_or_eq_of_le_succ le with earlier | rfl
    · exact encloses.unclosed stop earlier
    · have before := encloses.unclosed index (Nat.le_refl _)
      rw [occurrences_succ encloses.le, occurrences_succ encloses.le]
      by_cases closer : stream.kindAt index = .rightBrace
      · have more := still closer
        simp only [closer, if_true, reduceCtorEq, if_false]
        omega
      · rw [if_neg closer]
        omega

/-- Each open brace is found by the number of braces that are open around it. -/
theorem encloses_of_lt {around : Nat} (le : start ≤ index) (more : around < stream.openBraces start index) :
    ∃ brace, start ≤ brace ∧ stream.Encloses brace index ∧
      stream.occurrences .leftBrace (brace + 1) index + around + 1 =
        stream.openBraces start index + stream.occurrences .rightBrace (brace + 1) index := by
  induction index, le using Nat.le_induction with
  | base => simp [openBraces_of_le] at more
  | succ index le ih =>
    rw [openBraces_succ le] at more ⊢
    by_cases opener : stream.kindAt index = .leftBrace
    · simp only [opener, Parser.State.braceDepth] at more ⊢
      rcases Nat.lt_succ_iff_lt_or_eq.mp more with outer | rfl
      · obtain ⟨brace, later, encloses, counted⟩ := ih outer
        refine ⟨brace, later, encloses.succ (by simp [opener]), ?_⟩
        rw [occurrences_succ encloses.le, occurrences_succ encloses.le, opener]
        simp only [if_true, reduceCtorEq, if_false]
        omega
      · refine ⟨index, le, ⟨opener, Nat.lt_succ_self _, fun stop le => ?_⟩, ?_⟩
        · rw [occurrences_of_le le]
          exact Nat.zero_le _
        · rw [occurrences_of_le (Nat.le_refl _), occurrences_of_le (Nat.le_refl _)]
          omega
    · have outer : around < stream.openBraces start index := by
        refine Nat.lt_of_lt_of_le more ?_
        cases kind : stream.kindAt index <;> simp only [Parser.State.braceDepth] <;> first | omega | exact absurd kind opener
      obtain ⟨brace, later, encloses, counted⟩ := ih outer
      by_cases closer : stream.kindAt index = .rightBrace
      · simp only [closer, Parser.State.braceDepth] at more ⊢
        refine ⟨brace, later, encloses.succ fun _ => by omega, ?_⟩
        rw [occurrences_succ encloses.le, occurrences_succ encloses.le, closer]
        simp only [if_true, reduceCtorEq, if_false]
        omega
      · refine ⟨brace, later, encloses.succ fun same => absurd same closer, ?_⟩
        have still (depth : Nat) : Parser.State.braceDepth depth (stream.kindAt index) = depth := by
          unfold Parser.State.braceDepth
          split
          · exact absurd ‹_› opener
          · exact absurd ‹_› closer
          · rfl
        rw [occurrences_succ encloses.le, occurrences_succ encloses.le, if_neg opener, if_neg closer, still]
        exact counted

private theorem openBraces_eq_zero_iff (le : start ≤ index) :
    stream.openBraces start index = 0 ↔ ∀ brace, start ≤ brace → ¬ stream.Encloses brace index := by
  constructor
  · intro none brace later encloses
    have opened : stream.occurrences .leftBrace brace index ≤ _ := openings_le later (Nat.le_of_lt encloses.before)
    have unclosed := encloses.unclosed index (Nat.le_refl _)
    rw [none, occurrences_from encloses.before, occurrences_from encloses.before, encloses.opener] at opened
    simp only [if_true, reduceCtorEq, if_false] at opened
    omega
  · intro none
    by_contra some
    obtain ⟨brace, later, encloses, -⟩ := encloses_of_lt le (Nat.pos_of_ne_zero some)
    exact none brace later encloses

private theorem not_resumes {recovery : KindSet} (le : start ≤ index) (held : 0 < stream.openBraces start index)
    (more : stream.kindAt index ≠ .eof) : ¬ stream.Resumes recovery start index := fun resumes =>
  Nat.ne_of_gt held ((openBraces_eq_zero_iff le).mpr (resumes.resolve_left more).1)

end TokenStream

namespace Parser.State

variable {env : Env} {s : State} {recovery : KindSet} {stop : Nat}

/-- The tokens from one index up to another, recorded as they stand in the stream. -/
def tokensTo (env : Env) (start stop : Nat) : List Event :=
  (List.range' start (stop - start)).map fun index => .token (env.stream.kindAt index) 1

def skipped (env : Env) (s : State) (stop : Nat) : State :=
  { s with
    position := stop
    events := s.events ++ (tokensTo env s.position stop).toArray
    expected := .empty
    recovery := .recovering }

private theorem tokensTo_succ {start : Nat} (le : start ≤ stop) :
    tokensTo env start (stop + 1) = tokensTo env start stop ++ [.token (env.stream.kindAt stop) 1] := by
  have more : stop + 1 - start = (stop - start) + 1 := by omega
  rw [tokensTo, more, List.range'_concat, List.map_append, Nat.one_mul, Nat.add_sub_cancel' le]
  rfl

private theorem current_skipped : (s.skipped env stop).current env = env.stream.kindAt stop := TokenCursor.nth_eq _ 0

private theorem skipToken_skipped (le : s.position ≤ stop) (more : env.stream.kindAt stop ≠ .eof) :
    (s.skipped env stop).skipToken env = s.skipped env (stop + 1) := by
  have moved : ((s.skipped env stop).pushToken env (env.stream.kindAt stop) 1).position = stop + 1 :=
    position_pushToken (current_skipped ▸ more) _
  have recorded : (s.skipped env stop).events.push (.token (env.stream.kindAt stop) 1) = (s.skipped env (stop + 1)).events := by
    simp [skipped, tokensTo_succ le]
  unfold skipToken
  rw [current_skipped]
  calc _ = { s.skipped env stop with
              position := ((s.skipped env stop).pushToken env (env.stream.kindAt stop) 1).position
              events := (s.skipped env stop).events.push (.token (env.stream.kindAt stop) 1)
              expected := .empty
              recovery := .recovering } := rfl
    _ = s.skipped env (stop + 1) := by
      rw [moved, recorded]
      rfl

/-- Within braces it is skipped up to the closing one, or to the end of input. -/
theorem skipBraces_skipped {depth : Nat} (le : s.position ≤ stop) (counted : env.stream.openBraces s.position stop = depth)
    (open_ : 0 < depth) : ∃ later, (s.skipped env stop).skipBraces env depth = s.skipped env later ∧ stop ≤ later ∧
      (env.stream.kindAt later = .eof ∨ env.stream.openBraces s.position later = 0) ∧
      ∀ index, stop ≤ index → index < later → ¬ env.stream.Resumes recovery s.position index := by
  generalize same : s.skipped env stop = u
  fun_induction skipBraces env depth u generalizing stop with
  | case1 depth u ended =>
    subst same
    exact ⟨stop, rfl, Nat.le_refl _, .inl (current_skipped.symm.trans ended), fun _ later before =>
      absurd later (Nat.not_le_of_lt before)⟩
  | case2 depth u more inner =>
    next closed =>
    subst same
    have closes : braceDepth depth (env.stream.kindAt stop) = 0 := current_skipped ▸ closed
    rw [current_skipped] at more
    refine ⟨stop + 1, skipToken_skipped le more, Nat.le_succ _, .inr ?_, fun index later before => ?_⟩
    · rw [TokenStream.openBraces_succ le, counted, closes]
    · obtain rfl : index = stop := by omega
      exact TokenStream.not_resumes le (counted ▸ open_) more
  | case3 depth u more inner deeper =>
    next ih =>
    subst same
    have goes : inner = braceDepth depth (env.stream.kindAt stop) := congrArg (braceDepth depth) current_skipped
    rw [current_skipped] at more
    rw [skipToken_skipped le more] at ih ⊢
    obtain ⟨later, ran, beyond, ended, none⟩ := ih (Nat.le_succ_of_le le)
      (by rw [TokenStream.openBraces_succ le, counted, goes]) (Nat.pos_of_ne_zero deeper) rfl
    refine ⟨later, ran, by omega, ended, fun index after before => ?_⟩
    rcases Nat.eq_or_lt_of_le after with rfl | beyond
    · exact TokenStream.not_resumes le (counted ▸ open_) more
    · exact none index beyond before

/-- A token that opens no braces is skipped by itself, and one that does with all that is in them. -/
theorem skipOne_skipped (le : s.position ≤ stop) (more : env.stream.kindAt stop ≠ .eof)
    (outside : env.stream.openBraces s.position stop = 0) :
    ∃ later, (s.skipped env stop).skipOne env = s.skipped env later ∧ stop < later ∧
      (env.stream.kindAt later = .eof ∨ env.stream.openBraces s.position later = 0) ∧
      ∀ index, stop < index → index < later → ¬ env.stream.Resumes recovery s.position index := by
  have counted : env.stream.openBraces s.position (stop + 1) = braceDepth 0 (env.stream.kindAt stop) := by
    rw [TokenStream.openBraces_succ le, outside]
  unfold skipOne
  rw [current_skipped]
  split
  · next opener =>
    rw [opener] at counted
    have opened : (s.skipped env stop).skipBraces env 0 = (s.skipped env (stop + 1)).skipBraces env 1 := by
      rw [skipBraces, current_skipped, if_neg more, opener, skipToken_skipped le more]
      rfl
    rw [opened]
    exact skipBraces_skipped (Nat.le_succ_of_le le) counted Nat.one_pos
  · next plain =>
    refine ⟨stop + 1, skipToken_skipped le more, Nat.lt_succ_self _, .inr ?_, fun _ after before => by omega⟩
    rw [counted]
    unfold braceDepth
    split
    · exact absurd ‹_› plain
    · rfl
    · rfl

private theorem skipTo_skipped (le : s.position ≤ stop)
    (outside : env.stream.kindAt stop = .eof ∨ env.stream.openBraces s.position stop = 0)
    (none : ∀ index, s.position ≤ index → index < stop → ¬ env.stream.Resumes recovery s.position index) :
    ∃ later, (s.skipped env stop).skipTo env recovery = s.skipped env later ∧
      env.stream.FirstResume recovery s.position later := by
  generalize same : s.skipped env stop = u
  fun_induction skipTo env recovery u generalizing stop with
  | case1 u sync =>
    subst same
    refine ⟨stop, rfl, le, ?_, none⟩
    simp only [atSync, current_skipped, Bool.or_eq_true, beq_iff_eq] at sync
    rcases outside with ended | outside
    · exact .inl ended
    · rcases sync with (ended | closer) | member
      · exact .inl ended
      · exact .inr ⟨(TokenStream.openBraces_eq_zero_iff le).mp outside, .inl closer⟩
      · exact .inr ⟨(TokenStream.openBraces_eq_zero_iff le).mp outside, .inr member⟩
  | case2 u goes ih =>
    subst same
    simp only [atSync, current_skipped, Bool.or_eq_true, beq_iff_eq, not_or, Bool.not_eq_true] at goes
    obtain ⟨⟨more, closes⟩, notMember⟩ := goes
    have here : ¬ env.stream.Resumes recovery s.position stop := fun resumes => by
      rcases (resumes.resolve_left more).2 with closer | member
      · exact closes closer
      · exact Bool.noConfusion (notMember.symm.trans member)
    obtain ⟨later, ran, beyond, ended, held⟩ := skipOne_skipped le more (outside.resolve_left more)
    rw [ran] at ih ⊢
    refine ih (by omega) ended (fun index within before => ?_) rfl
    rcases Nat.lt_trichotomy index stop with early | rfl | after
    · exact none index within early
    · exact here
    · exact held index after before

/-- Skipping a token does not depend on what was expected there, nor on the errors before it. -/
theorem skipTo_start (goes : ¬ s.atSync env recovery = true) :
    s.skipTo env recovery = (s.skipped env s.position).skipTo env recovery := by
  have current : s.current env = env.stream.kindAt s.position := TokenCursor.nth_eq _ 0
  have once : s.skipToken env = (s.skipped env s.position).skipToken env := by
    have none : tokensTo env s.position s.position = [] := by simp [tokensTo]
    unfold skipToken
    rw [current, current_skipped]
    simp [pushToken, withRecovery, cursor, skipped, none]
  have goes' : ¬ (s.skipped env s.position).atSync env recovery = true := by
    simpa only [atSync, current, current_skipped] using goes
  have more : env.stream.kindAt s.position ≠ .eof := by
    intro ended
    simp [atSync, current, ended] at goes
  rw [skipTo, if_neg goes, skipTo.eq_def env recovery (s.skipped env s.position), if_neg goes']
  congr 1
  simp only [skipOne, current, current_skipped, ← once]
  split
  · next opener =>
    rw [skipBraces, skipBraces.eq_def env 0 (s.skipped env s.position)]
    simp only [current, current_skipped, if_neg more, ← once]
  · rfl

/-- A state behind tokens that were put into an error node. -/
def behindError (env : Env) (s : State) (index : Nat) : State :=
  { s with
    position := index
    events := s.events ++ (.start .error none :: (tokensTo env s.position index ++ [.finish])).toArray
    expected := .empty
    recovery := .normal }

/-- The state that `recover` leads to, at the index where parsing goes on: nothing is changed there, or the tokens up to
there stand in an error node. If that is the end of input, which was not looked for, the parse is abandoned. -/
def resumed (env : Env) (recovery : KindSet) (s : State) (index : Nat) : State :=
  if index = s.position then
    s
  else if env.stream.kindAt index = .eof ∧ ¬ recovery.contains .eof = true then
    { s.behindError env index with
      diagnostics := s.diagnostics.push ⟨.abandoned, Issue.recoveryRanOut.message, (env.stream.tokenAt index).range, index, .empty⟩
      errorCount := s.errorCount + 1
      recovery := .abandoned }
  else
    s.behindError env index

private theorem complete_skipped {index : Nat} : ((s.withRecovery .recovering).start.skipped env index).complete s.mark .error =
    .ok ((s.behindError env index).withRecovery .recovering) := by
  have there : ((s.withRecovery .recovering).start.skipped env index).events[s.mark.position]? = some .tombstone := by
    simp [skipped, start, withRecovery, mark]
  unfold complete
  rw [there]
  simp [skipped, start, withRecovery, mark, behindError, Event.tombstone]

private theorem settleAt_behindError (lenient : env.options.mode = .lenient) (recovery : KindSet) {index : Nat} (moved : index ≠ s.position) :
    (s.behindError env index).settleAt env recovery = .ok (s.resumed env recovery index) := by
  have current : (s.behindError env index).current env = env.stream.kindAt index := TokenCursor.nth_eq _ 0
  unfold settleAt resumed
  rw [current, if_neg moved]
  split
  · next ended =>
    have told : (s.behindError env index).report env .recoveryRanOut =
        .ok ((s.behindError env index).count.tell env .recoveryRanOut) := by
      simp [report, count, isTold, behindError, lenient]
    have range : (((s.behindError env index).count.cursor env).nthToken 0).range = (env.stream.tokenAt index).range :=
      congrArg Token.range (env.stream.tokenAt_min _)
    rw [told, tell, diagnose, range]
    rfl
  · rfl

/-- Recovery goes exactly to the first token where parsing can go on. -/
theorem recover_resumes (lenient : env.options.mode = .lenient) (going : s.recovery ≠ .abandoned) (recovery : KindSet) :
    ∃ index, env.stream.FirstResume recovery s.position index ∧ s.recover env recovery = .ok (s.resumed env recovery index) := by
  have current : s.current env = env.stream.kindAt s.position := TokenCursor.nth_eq _ 0
  have outside : env.stream.openBraces s.position s.position = 0 := TokenStream.openBraces_of_le (Nat.le_refl _)
  have free := (TokenStream.openBraces_eq_zero_iff (Nat.le_refl _)).mp outside
  have synced : s.atSync env recovery = true ↔ env.stream.Resumes recovery s.position s.position := by
    simp only [atSync, current, Bool.or_eq_true, beq_iff_eq, TokenStream.Resumes]
    tauto
  by_cases sync : s.atSync env recovery = true
  · refine ⟨s.position, ⟨Nat.le_refl _, synced.mp sync, fun other le lt => absurd le (Nat.not_le_of_lt lt)⟩, ?_⟩
    rw [recover, if_pos (.inr sync), resumed, if_pos rfl]
  · have begun : (s.withRecovery .recovering).start.skipTo env recovery =
        ((s.withRecovery .recovering).start.skipped env s.position).skipTo env recovery := skipTo_start sync
    obtain ⟨index, ran, first⟩ := @skipTo_skipped env (s.withRecovery .recovering).start recovery s.position
      (Nat.le_refl _) (.inr outside) fun other le lt => absurd le (Nat.not_le_of_lt lt)
    have moved : index ≠ s.position := by
      rintro rfl
      exact sync (synced.mpr first.resumes)
    refine ⟨index, first, ?_⟩
    rw [recover, if_neg (not_or.mpr ⟨going, sync⟩)]
    dsimp only
    rw [begun, ran, complete_skipped]
    exact settleAt_behindError lenient recovery moved

/-- The semicolon in the braces is skipped with them, and so is a bracket without a partner. -/
theorem recover_resumes_semicolon :
    let env : Env := ⟨.ofTokens "a{b;});" #[⟨.identifier, ⟨0, 1⟩, [], []⟩, ⟨.leftBrace, ⟨1, 2⟩, [], []⟩,
      ⟨.identifier, ⟨2, 3⟩, [], []⟩, ⟨.semicolon, ⟨3, 4⟩, [], []⟩, ⟨.rightBrace, ⟨4, 5⟩, [], []⟩,
      ⟨.rightParen, ⟨5, 6⟩, [], []⟩, ⟨.semicolon, ⟨6, 7⟩, [], []⟩], {}⟩
    ∃ index, env.stream.FirstResume (.singleton .semicolon) 0 index ∧
      ({} : State).recover env (.singleton .semicolon) = .ok (({} : State).resumed env (.singleton .semicolon) index) := by
  intro env
  have going : ({} : State).recovery ≠ .abandoned := by decide
  exact recover_resumes rfl going _

end Parser.State

end LosslessJava
