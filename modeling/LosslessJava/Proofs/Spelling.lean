import LosslessJava.Proofs.Formatting
import LosslessJava.Proofs.Lossless

/-! How a token of the tree reads that is made of several tokens of the stream. A run joins tokens only
where they make up one, and such tokens touch; so all of its text is theirs. -/

namespace LosslessJava

open LosslessJava.Parser

section Pieces

open Lexer

private theorem split_of_valid {text : String} {front back : List Char} {offset : Nat}
    (split : text.toList = front ++ back) (valid : String.Pos.Raw.IsValid text ⟨offset⟩)
    (behind : width front ≤ offset) :
    ∃ middle rest, back = middle ++ rest ∧ width front + width middle = offset := by
  obtain ⟨first, second, whole, place⟩ := String.Pos.Raw.isValid_iff_exists_append.mp valid
  have ends : offset = width first.toList := by
    rw [← utf8ByteSize_eq]
    exact congrArg String.Pos.Raw.byteIdx place
  have same : first.toList ++ second.toList = front ++ back := by
    rw [← split, whole, String.toList_append]
  rcases List.append_eq_append_iff.mp same with ⟨more, rfl, rest⟩ | ⟨more, long, rest⟩
  · -- The offset is not before the front's end, so the front has nothing more.
    have none : more = [] := by
      by_contra some
      have := width_pos some
      rw [width_append] at behind
      omega
    subst none
    exact ⟨[], back, rfl, by simp [ends]⟩
  · exact ⟨more, second.toList, rest, by rw [ends, long, width_append]⟩

private theorem Span.slice_append {text : String} {start middle stop : Nat} (first : start ≤ middle) (second : middle ≤ stop)
    (starts : String.Pos.Raw.IsValid text ⟨start⟩) (meets : String.Pos.Raw.IsValid text ⟨middle⟩)
    (stops : String.Pos.Raw.IsValid text ⟨stop⟩) :
    (⟨start, middle⟩ : Span).slice text ++ (⟨middle, stop⟩ : Span).slice text = (⟨start, stop⟩ : Span).slice text := by
  obtain ⟨front, back, whole, rfl⟩ := @split_of_valid text [] text.toList start rfl starts (Nat.zero_le _)
  rw [width_nil, Nat.zero_add] at *
  obtain ⟨one, behind, rfl, rfl⟩ := split_of_valid whole meets first
  have joined : text.toList = (front ++ one) ++ behind := by rw [whole, List.append_assoc]
  rw [← width_append] at second
  obtain ⟨two, rest, rfl, rfl⟩ := split_of_valid joined stops second
  have left := @slice_of_split text front one (two ++ rest) joined
  have right := @slice_of_split text (front ++ one) two rest (by rw [joined, ← List.append_assoc])
  have all := @slice_of_split text front (one ++ two) rest (by simp [whole])
  rw [width_append] at right all ⊢
  rw [← Nat.add_assoc] at all
  rw [left, right, all, String.ofList_append]

/-- A piece of a text is as long as its range. -/
theorem Span.utf8ByteSize_slice {text : String} {start stop : Nat} (forward : start ≤ stop)
    (starts : String.Pos.Raw.IsValid text ⟨start⟩) (stops : String.Pos.Raw.IsValid text ⟨stop⟩) :
    ((⟨start, stop⟩ : Span).slice text).utf8ByteSize = stop - start := by
  obtain ⟨front, back, whole, rfl⟩ := @split_of_valid text [] text.toList start rfl starts (Nat.zero_le _)
  rw [width_nil, Nat.zero_add] at *
  obtain ⟨piece, rest, rfl, rfl⟩ := split_of_valid whole stops forward
  rw [slice_of_split (by rw [whole, List.append_assoc]), utf8ByteSize_ofList, Nat.add_sub_cancel_left]

end Pieces

namespace TokenStream

variable {stream : TokenStream}

/-- Every token covers a piece of the text. -/
structure Fits (stream : TokenStream) : Prop where
  forward : ∀ index < stream.size, (stream.tokenAt index).range.start ≤ (stream.tokenAt index).range.stop
  starts : ∀ index < stream.size, String.Pos.Raw.IsValid stream.text ⟨(stream.tokenAt index).range.start⟩
  stops : ∀ index < stream.size, String.Pos.Raw.IsValid stream.text ⟨(stream.tokenAt index).range.stop⟩

def Composes (stream : TokenStream) (raw : Nat) (token : Kind × Nat) : Prop :=
  token.2 = 1 ∨ Makes ⟨stream, raw⟩ token.1 token.2

/-- What a token of a tree is made of touches. -/
theorem Composes.touching {raw : Nat} {token : Kind × Nat} (composes : stream.Composes raw token) :
    (TokenCursor.mk stream raw).Touching token.2 := by
  rcases composes with one | makes
  · exact one ▸ TokenCursor.touching_one _
  · exact makes.touching ⟨.refl _, rfl⟩

def Spells (stream : TokenStream) : Nat → List (Kind × Nat) → Prop
  | _, [] => True
  | raw, token :: rest => stream.Composes raw token ∧ stream.Spells (raw + token.2) rest

private theorem spells_append {raw : Nat} {front back : List (Kind × Nat)} :
    stream.Spells raw (front ++ back) ↔
      stream.Spells raw front ∧ stream.Spells (raw + (front.map Prod.snd).sum) back := by
  induction front generalizing raw with
  | nil => simp [Spells]
  | cons token rest ih => simp [Spells, ih, and_assoc, Nat.add_assoc]

private theorem spells_of_single {raw : Nat} {tokens : List (Kind × Nat)} (single : ∀ token ∈ tokens, token.2 = 1) :
    stream.Spells raw tokens := by
  induction tokens generalizing raw with
  | nil => trivial
  | cons token rest ih =>
    exact ⟨.inl (single token (.head _)), ih fun token member => single token (.tail _ member)⟩

def spelling (stream : TokenStream) (raw count : Nat) : String :=
  String.join ((List.range count).map fun n => stream.textAt (raw + n))

theorem spelling_succ (stream : TokenStream) (raw count : Nat) :
    stream.spelling raw (count + 1) = stream.spelling raw count ++ stream.textAt (raw + count) := by
  simp [spelling, List.range_succ, String.join_append]

/-- Of two tokens that touch, one ends where the other starts. -/
theorem meets_of_joint {raw n : Nat} (joint : (TokenCursor.mk stream raw).isJoint n = true) :
    (stream.tokenAt (raw + n)).range.stop = (stream.tokenAt (raw + (n + 1))).range.start := by
  simp only [TokenCursor.isJoint, TokenCursor.nthToken, TokenCursor.index, Bool.and_eq_true, beq_iff_eq,
    tokenAt_min] at joint
  exact joint.2

namespace Fits

variable (fits : stream.Fits) (index : Nat)

include fits

theorem le_at : (stream.tokenAt index).range.start ≤ (stream.tokenAt index).range.stop :=
  stream.tokenAt_min index ▸ fits.forward _ (stream.min_lt_size index)

theorem start_at : String.Pos.Raw.IsValid stream.text ⟨(stream.tokenAt index).range.start⟩ :=
  stream.tokenAt_min index ▸ fits.starts _ (stream.min_lt_size index)

theorem stop_at : String.Pos.Raw.IsValid stream.text ⟨(stream.tokenAt index).range.stop⟩ :=
  stream.tokenAt_min index ▸ fits.stops _ (stream.min_lt_size index)

end Fits

/-- What reaches over tokens that touch reads as these do. -/
theorem slice_cover (fits : stream.Fits) {raw count : Nat}
    (joint : ∀ n < count, (TokenCursor.mk stream raw).isJoint n = true) :
    (stream.tokenAt raw).range.start ≤ (stream.tokenAt (raw + count)).range.stop ∧
      ((stream.tokenAt raw).range.cover (stream.tokenAt (raw + count)).range).slice stream.text =
        stream.spelling raw (count + 1) := by
  induction count with
  | zero => exact ⟨fits.le_at raw, by simp [spelling, textAt, Span.cover]⟩
  | succ count ih =>
    obtain ⟨before, same⟩ := ih fun n inside => joint n (Nat.lt_succ_of_lt inside)
    have meets := meets_of_joint (joint count (Nat.lt_succ_self _))
    have last := fits.le_at (raw + (count + 1))
    refine ⟨by omega, ?_⟩
    rw [spelling_succ, ← same, Span.cover, Span.cover, meets]
    exact (Span.slice_append (meets ▸ before) last (fits.start_at _) (fits.start_at _) (fits.stop_at _)).symm

/-- Tokens that touch are all that a token reads which is made of them. -/
theorem slice_mergedToken (fits : stream.Fits) {raw count : Nat} {kind : Kind} (composes : stream.Composes raw (kind, count)) :
    (BuildStep.mergedToken stream kind raw count).range.slice stream.text = stream.spelling raw count := by
  have touching : (TokenCursor.mk stream raw).Touching count := composes.touching
  obtain ⟨n, rfl⟩ : ∃ n, count = n + 1 := ⟨count - 1, by have := touching.positive; omega⟩
  exact (slice_cover fits fun m inside => touching.joint m (Nat.succ_lt_succ inside)).2

end TokenStream

namespace Parser

variable {env : Env} {α : Type}

namespace State

variable {s t : State}

structure Spelled (env : Env) (s : State) : Prop where
  placed : s.Placed env
  spells : env.stream.Spells 0 s.tokens

namespace Spelled

theorem of_start (env : Env) : Spelled env {} := ⟨(Nat.zero_min _).symm, trivial⟩

private theorem of_eq (spelled : Spelled env s) (events : t.events = s.events) (position : t.position = s.position) :
    Spelled env t where
  placed := by rw [Placed, position, taken, tokens, events]; exact spelled.placed
  spells := by rw [tokens, events]; exact spelled.spells

theorem records (spelled : Spelled env s) (records : Records env (fun _ => False) s t) : Spelled env t where
  placed := records.placed spelled.placed
  spells := by
    obtain ⟨more, recorded, single⟩ := records.tokens
    rw [recorded]
    exact TokenStream.spells_append.mpr
      ⟨spelled.spells, TokenStream.spells_of_single fun token member => (single token member).elim id False.elim⟩

/-- Tokens of the stream joined to one that they make up. Behind the end none does. -/
theorem pushToken (spelled : Spelled env s) {kind : Kind} {count : Nat} (makes : Makes (s.cursor env) kind count) :
    Spelled env (s.pushToken env kind count) where
  placed := pushToken_placed spelled.placed
  spells := by
    rw [tokens_pushToken]
    refine TokenStream.spells_append.mpr ⟨spelled.spells, ?_, trivial⟩
    have placed : s.position = min s.taken (env.stream.size - 1) := spelled.placed
    rw [Nat.zero_add]
    by_cases inside : s.taken ≤ env.stream.size - 1
    · rw [cursor, placed, Nat.min_eq_left inside] at makes
      exact .inr makes
    · refine .inl ?_
      by_contra more
      have touching := makes.touching ⟨.refl _, rfl⟩
      have positive := touching.positive
      have joint := touching.joint 0 (by omega)
      rw [TokenCursor.isJoint_eq, TokenCursor.touches_of_behind (by simp only [cursor]; omega)] at joint
      cases joint

end Spelled

end State

open State

private theorem Action.run_spelled {action : Action α} {here : Option TokenCursor} {s t : State} {a : α}
    (joins : action.Joins (Program.MakesAt here)) (known : ∀ cursor ∈ here, cursor = s.cursor env)
    (spelled : s.Spelled env) (run : action.run env s = .ok (a, t)) : t.Spelled env := by
  cases action with
  | join kind count =>
    cases run
    obtain ⟨cursor, found, makes⟩ := joins
    obtain rfl := known cursor found
    exact spelled.pushToken makes
  | _ => exact spelled.records (run_records run trivial)

namespace Program

open Grammar (Nonterminal)

/-- Where a rule that does not tell apart streams which differ in layout only joins tokens, these make up one. -/
theorem Evaluates.spelled {rule : Program Nonterminal α} {here : Option TokenCursor} {s t : State} {r : Result α}
    {a : α} (run : Evaluates env Grammar.rule rule s r) (given : r = .ok (a, t)) (blind : Blind here rule)
    (known : ∀ cursor ∈ here, cursor = s.cursor env) (before : s.Spelled env) : t.Spelled env := by
  have unknown {s : State} : ∀ cursor ∈ (none : Option TokenCursor), cursor = s.cursor env := by simp
  induction run generalizing t here with
  | pure =>
    cases given
    exact before
  | act =>
    cases blind with
    | act _ joins => exact Action.run_spelled joins known before given
  | bind ran _ first second =>
    cases blind with
    | bind one two => exact second given (two _) unknown (first rfl one known before)
    | look same two =>
      cases Option.some.inj ((exec_act _ _).symm.trans ran.exec_eq)
      exact second given (two _) (fun _ found => (Option.some.inj found).symm) before
    | precede two =>
      have ran := Option.some.inj ((exec_act _ _).symm.trans ran.exec_eq)
      obtain ⟨u, preceded, same⟩ := map_eq_ok.mp ran
      cases same
      refine second given (two _) (fun cursor found => ?_) (before.records (precede_records preceded))
      rw [known cursor found, State.cursor, State.cursor, (precede_still preceded).1]
  | bindHalt => cases given
  | loopEnd _ round =>
    cases given
    cases blind with
    | loopFrom steady => exact round rfl (steady _) unknown before
  | loopNext _ _ round rest =>
    cases blind with
    | loopFrom steady => exact @rest none _ _ given (.loopFrom steady) unknown (round rfl (steady _) unknown before)
  | loopHalt => cases given
  | tooDeep =>
    obtain ⟨u, abandoned, same⟩ := map_eq_ok.mp given
    cases same
    exact before.records (growth.abandonNested abandoned)
  | nested _ _ inner =>
    obtain ⟨⟨b, u⟩, rfl, same⟩ := map_eq_ok.mp given
    cases same
    cases blind with
    | nested within => exact (inner rfl within unknown (before.of_eq rfl rfl)).of_eq rfl rfl
  | withNoLambda _ inner =>
    obtain ⟨⟨b, u⟩, rfl, same⟩ := map_eq_ok.mp given
    cases same
    cases blind with
    | withNoLambda within => exact (inner rfl within unknown (before.of_eq rfl rfl)).of_eq rfl rfl
  | @speculate rule s r _ inner =>
    obtain ⟨⟨b, u⟩, rfl, same⟩ := map_eq_ok.mp given
    have settled : settle s b u = (a, t) := same
    cases blind with
    | speculate within =>
      unfold settle at settled
      split at settled
      · cases settled
        exact inner rfl within unknown before
      · cases settled
        exact before
  | call _ body =>
    cases blind with
    | call short => exact body given (rule_blind _ short) unknown before

end Program

end Parser

namespace Event

private theorem takeStarts_tokens {limit index : Nat} {events after : Array Event} {kinds : List Kind}
    (taken : takeStarts limit index events = some (kinds, after)) : after.map token? = events.map token? := by
  induction limit generalizing index events kinds after with
  | zero => cases taken
  | succ limit ih =>
    unfold takeStarts at taken
    split at taken
    · next kind parent found =>
      have struck : (events.setIfInBounds index tombstone).map token? = events.map token? := map_token_set_start found
      cases parent with
      | none =>
        cases taken
        exact struck
      | some distance =>
        obtain ⟨⟨more, rest⟩, later, same⟩ := Option.bind_eq_some_iff.mp taken
        cases same
        exact (ih later).trans struck
    · cases taken

private theorem takeStarts_size {limit index : Nat} {events after : Array Event} {kinds : List Kind}
    (taken : takeStarts limit index events = some (kinds, after)) : after.size = events.size := by
  simpa using congrArg Array.size (takeStarts_tokens taken)

private theorem stepsOfLast_tokens {count : Nat} {events : Array Event} {steps : List BuildStep}
    (given : stepsOfLast count events = some steps) (inside : count ≤ events.size) :
    steps.filterMap BuildStep.token? = (events.toList.drop (events.size - count)).filterMap token? := by
  induction count generalizing events steps with
  | zero =>
    cases given
    rw [Nat.sub_zero, ← Array.length_toList, List.drop_length]
    rfl
  | succ count ih =>
    have bound : events.size - (count + 1) < events.toList.length := by simp only [Array.length_toList]; omega
    have next : events.size - (count + 1) + 1 = events.size - count := by omega
    rw [← List.cons_getElem_drop_succ (h := bound), next, List.filterMap_cons]
    simp only [stepsOfLast, ← Array.getElem?_toList, List.getElem?_eq_getElem bound] at given
    generalize events.toList[events.size - (count + 1)] = event at given
    cases event with
    | start kind parent =>
      dsimp only at given
      split at given
      · exact ih given (by omega)
      · obtain ⟨⟨kinds, after⟩, taken, rest⟩ := Option.bind_eq_some_iff.mp given
        obtain ⟨more, later, same⟩ := Option.bind_eq_some_iff.mp rest
        cases same
        dsimp only at later
        have size := takeStarts_size taken
        have none : (kinds.reverse.map BuildStep.start).filterMap BuildStep.token? = [] := by
          simp [List.filterMap_map, Function.comp_def, BuildStep.token?]
        have kept := congrArg (fun tokens => (tokens.toList.drop (events.size - count)).filterMap id)
          (takeStarts_tokens taken)
        simp only [Array.toList_map, ← List.map_drop, List.filterMap_map, Function.id_comp] at kept
        rw [List.filterMap_append, none, List.nil_append, ih later (by omega), size, kept]
        rfl
    | token kind rawCount =>
      obtain ⟨more, later, same⟩ := Option.bind_eq_some_iff.mp given
      cases same
      exact congrArg ((kind, rawCount) :: ·) (ih later (by omega))
    | finish =>
      obtain ⟨more, later, same⟩ := Option.bind_eq_some_iff.mp given
      cases same
      have tokens := ih later (by omega)
      exact tokens

theorem buildSteps_tokens {events : Array Event} {steps : List BuildStep} (given : buildSteps events = some steps) :
    steps.filterMap BuildStep.token? = events.toList.filterMap token? := by
  simpa using stepsOfLast_tokens given le_rfl

end Event

end LosslessJava
