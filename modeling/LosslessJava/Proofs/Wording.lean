import LosslessJava.Proofs.Spelling

/-! Tokens of a tree say what they are. The lexer gives a kind that has a text of its own only to what reads so; and
where the grammar gives tokens another kind, because a name is taken for a keyword or several tokens for one, they
read as the new kind's text. So every token of a tree whose kind has a text reads as that text, and any other one is
a token of the stream. -/

namespace LosslessJava

open LosslessJava.Parser

namespace TokenStream

variable {stream : TokenStream}

def Worded (stream : TokenStream) : Prop := ∀ index word, (stream.kindAt index).text? = some word → stream.textAt index = word

/-- A token of a tree that is made of so many tokens of the stream reads as the text of its kind, or is one of the
stream's if its kind has no text of its own. -/
structure Shows (stream : TokenStream) (raw : Nat) (kind : Kind) (count : Nat) : Prop where
  reads : ∀ word, kind.text? = some word → stream.spelling raw count = word
  own : kind.text? = none → count = 1 ∧ kind = stream.kindAt raw

def ShowsAll (stream : TokenStream) : Nat → List (Kind × Nat) → Prop
  | _, [] => True
  | raw, (kind, count) :: rest => stream.Shows raw kind count ∧ stream.ShowsAll (raw + count) rest

private theorem showsAll_append {raw : Nat} {front back : List (Kind × Nat)} :
    stream.ShowsAll raw (front ++ back) ↔
      stream.ShowsAll raw front ∧ stream.ShowsAll (raw + (front.map Prod.snd).sum) back := by
  induction front generalizing raw with
  | nil => simp [ShowsAll]
  | cons token rest ih => simp [ShowsAll, ih, and_assoc, Nat.add_assoc]

theorem spelling_one (stream : TokenStream) (raw : Nat) : stream.spelling raw 1 = stream.textAt raw := by
  rw [spelling_succ]
  simp [spelling]

theorem Worded.shows (worded : stream.Worded) (raw : Nat) : stream.Shows raw (stream.kindAt raw) 1 where
  reads word same := (stream.spelling_one raw).trans (worded raw word same)
  own _ := ⟨rfl, rfl⟩

private theorem tokenAt_min_add (stream : TokenStream) (raw n : Nat) :
    stream.tokenAt (min raw (stream.size - 1) + n) = stream.tokenAt (raw + n) := by
  rw [← tokenAt_min, ← stream.tokenAt_min (raw + n)]
  congr 1
  omega

private theorem Shows.of_min {raw count : Nat} {kind : Kind} (shows : stream.Shows (min raw (stream.size - 1)) kind count) :
    stream.Shows raw kind count := by
  have text (n : Nat) : stream.textAt (min raw (stream.size - 1) + n) = stream.textAt (raw + n) := by
    rw [textAt, tokenAt_min_add, ← textAt]
  have spelling : stream.spelling (min raw (stream.size - 1)) count = stream.spelling raw count := by
    rw [TokenStream.spelling, TokenStream.spelling, List.map_congr_left fun n _ => text n]
  refine ⟨fun word same => spelling ▸ shows.reads word same, fun none => ?_⟩
  have own := shows.own none
  rwa [kindAt, tokenAt_min, ← kindAt] at own

end TokenStream

section Lexed

theorem text_lex (text : String) : (TokenStream.lex text).text = text := by
  rw [TokenStream.lex, TokenStream.ofTokens]
  split <;> rfl

/-- Every token of a text covers a piece of it, which reads as the text of its kind if that has one. -/
theorem piece_of_lex (text : String) (index : Nat) :
    ∃ front body back, text.toList = front ++ body ++ back ∧
      ((TokenStream.lex text).tokenAt index).range = ⟨Lexer.width front, Lexer.width front + Lexer.width body⟩ ∧
      ∀ word, ((TokenStream.lex text).tokenAt index).kind.text? = some word → String.ofList body = word := by
  have member : (TokenStream.lex text).tokenAt index ∈ tokenize text := by
    have inside : (TokenStream.lex text).tokenAt index ∈ (TokenStream.lex text).tokens := Array.getElem_mem _
    simpa [tokens_lex] using inside
  obtain ⟨front, lead, body, trail, back, split, spelled⟩ :=
    (Lexer.tokensFrom_row 0 text.toList).spelled_of_mem member
  refine ⟨front ++ lead, body, trail ++ back, ?_, ?_, spelled.reads⟩
  · rw [split]
    simp only [List.append_assoc]
  · rw [spelled.range, Lexer.width_append, Nat.zero_add]

theorem worded_lex (text : String) : (TokenStream.lex text).Worded := by
  intro index word named
  obtain ⟨front, body, back, split, range, reads⟩ := piece_of_lex text index
  rw [TokenStream.textAt, text_lex, range, slice_of_split split]
  exact reads word named

theorem fits_lex (text : String) : (TokenStream.lex text).Fits := by
  have piece (index : Nat) := piece_of_lex text index
  refine ⟨fun index _ => ?_, fun index _ => ?_, fun index _ => ?_⟩
  · obtain ⟨front, body, back, -, range, -⟩ := piece index
    rw [range]
    exact Nat.le_add_right _ _
  · obtain ⟨front, body, back, split, range, -⟩ := piece index
    rw [range, text_lex]
    rw [List.append_assoc] at split
    exact Lexer.isValid_of_append split
  · obtain ⟨front, body, back, split, range, -⟩ := piece index
    rw [range, text_lex, ← Lexer.width_append]
    exact Lexer.isValid_of_append split

end Lexed

namespace TokenCursor

variable {cursor : TokenCursor}

theorem nthText_of_nth (worded : cursor.stream.Worded) {n : Nat} {kind : Kind} {word : String} (here : cursor.nth n = kind)
    (named : kind.text? = some word) : cursor.nthText n = word := by
  rw [nthText_eq]
  rw [nth_eq] at here
  exact worded _ _ (here ▸ named)

theorem nthText_of_isWordAt {n : Nat} {keyword : Kind} (stands : isWordAt cursor n keyword = true) :
    keyword.text? = some (cursor.nthText n) := by
  simp only [isWordAt, Bool.and_eq_true, beq_iff_eq] at stands
  exact stands.2.symm

private theorem shows_of_reads {kind : Kind} {count : Nat} {word : String} (named : kind.text? = some word)
    (reads : String.join ((List.range count).map cursor.nthText) = word) :
    cursor.stream.Shows cursor.position kind count where
  reads other same := by
    have texts : cursor.nthText = fun n => cursor.stream.textAt (cursor.position + n) := funext cursor.nthText_eq
    rw [← Option.some.inj (named.symm.trans same), ← reads, TokenStream.spelling, texts]
  own none := by cases named.symm.trans none

/-- The tokens of an operator that begins with `>` read as the operator. -/
theorem shows_angle (worded : cursor.stream.Worded) (here : cursor.nth 0 = .gt) :
    cursor.stream.Shows cursor.position (Grammar.Operator.angle cursor).kind (Grammar.Operator.angle cursor).rawCount := by
  have first : cursor.nthText 0 = ">" := nthText_of_nth worded here rfl
  have gt {n : Nat} (goes : Grammar.Operator.goesOn cursor n .gt = true) : cursor.nthText (n + 1) = ">" :=
    nthText_of_nth worded (Grammar.joint_of_goesOn goes).1 rfl
  have eq {n : Nat} (goes : Grammar.Operator.goesOn cursor n .eq = true) : cursor.nthText (n + 1) = "=" :=
    nthText_of_nth worded (Grammar.joint_of_goesOn goes).1 rfl
  rw [Grammar.angle_eq]
  split
  · next one =>
    split
    · next two =>
      split
      · next three => exact shows_of_reads rfl (by simp [List.range_succ, first, gt one, gt two, eq three])
      · exact shows_of_reads rfl (by simp [List.range_succ, first, gt one, gt two])
    · split
      · next two => exact shows_of_reads rfl (by simp [List.range_succ, first, gt one, eq two])
      · exact shows_of_reads rfl (by simp [List.range_succ, first, gt one])
  · split
    · next one => exact shows_of_reads rfl (by simp [List.range_succ, first, eq one])
    · exact shows_of_reads rfl (by simp [List.range_succ, first])

private theorem shows_of_makes (worded : cursor.stream.Worded) {kind : Kind} {count : Nat} (makes : Makes cursor kind count) :
    cursor.stream.Shows cursor.position kind count := by
  cases makes with
  | nonSealed found =>
    simp only [Grammar.isNonSealed, Bool.and_eq_true, beq_iff_eq] at found
    obtain ⟨⟨⟨⟨⟨-, non⟩, minus⟩, word⟩, -⟩, -⟩ := found
    have hyphen : cursor.nthText 1 = "-" := nthText_of_nth worded minus rfl
    have last : cursor.nthText 2 = "sealed" := (Option.some.inj (nthText_of_isWordAt word)).symm
    exact shows_of_reads rfl (by simp [List.range_succ, non, hyphen, last])
  | @operator op found =>
    unfold Grammar.Operator.at? at found
    split at found
    · next here =>
      obtain rfl := Option.some.inj found
      exact shows_angle worded here
    · obtain ⟨power, -, rfl⟩ := Option.map_eq_some_iff.mp found
      have own := worded.shows cursor.position
      rwa [← Nat.add_zero cursor.position, ← nth_eq, Nat.add_zero] at own

end TokenCursor

namespace Parser

open Grammar (Nonterminal)

def Action.Fair (here : Known) : {α : Type} → Action α → Prop
  | _, .join kind count => ∀ cursor, here.Of cursor → Makes cursor kind count
  | _, .consumeAs keyword => ∀ cursor, here.Of cursor → isWordAt cursor 0 keyword = true
  | _, _ => True

namespace Program

/-- A rule gives tokens another kind only where it is known that they read so. -/
inductive Sincere : Known → {α : Type} → Program Nonterminal α → Prop where
  | pure {here} {α : Type} {a : α} : Sincere here (.pure a)
  | act {here} {α : Type} {action : Action α} (fair : action.Fair here) : Sincere here (.act action)
  | bind {here} {α β : Type} {first : Program Nonterminal β} {next : β → Program Nonterminal α}
      (word : β → Option Kind) (tells : first.Tells here word) (one : Sincere here first)
      (two : ∀ b, Sincere (.ofWord (word b)) (next b)) : Sincere here (.bind first next)
  | look {here} {α : Type} {next : TokenCursor → Program Nonterminal α} (two : ∀ c, Sincere (.place c) (next c)) :
      Sincere here (.bind (.act .cursor) next)
  | precede {here} {α : Type} {first : Completed} {next : Mark → Program Nonterminal α}
      (two : ∀ mark, Sincere here (next mark)) : Sincere here (.bind (.act (.precede first)) next)
  | loopFrom {here} {α : Type} {a : α} {step : α → Program Nonterminal (Option α)}
      (round : ∀ a, Sincere .nothing (step a)) : Sincere here (.loopFrom a step)
  | nested {here} {α : Type} {otherwise : α} {rule : Program Nonterminal α} (inner : Sincere .nothing rule) :
      Sincere here (.nested otherwise rule)
  | withNoLambda {here} {α : Type} {noLambda : Bool} {rule : Program Nonterminal α} (inner : Sincere .nothing rule) :
      Sincere here (.withNoLambda noLambda rule)
  | speculate {here} {rule : Program Nonterminal (Option Completed)} (inner : Sincere .nothing rule) :
      Sincere here (.speculate rule)
  | call {here} {α : Type} {name : Nonterminal α} (short : name.isShort = true) : Sincere here (.call name)

variable {here there : Known} {α : Type}

theorem Sincere.weaken {rule : Program Nonterminal α} (sincere : Sincere here rule)
    (implies : ∀ cursor, there.Of cursor → here.Of cursor) : Sincere there rule := by
  induction sincere generalizing there with
  | pure => exact .pure
  | @act here _ action fair =>
    refine .act ?_
    cases action with
    | join kind count => exact fun cursor known => fair cursor (implies cursor known)
    | consumeAs keyword => exact fun cursor known => fair cursor (implies cursor known)
    | _ => trivial
  | bind word tells _ two one =>
    exact .bind word (fun lenient known ran => tells lenient (implies _ known) ran) (one implies) two
  | look two => exact .look two
  | precede _ two => exact .precede fun mark => two mark implies
  | loopFrom round => exact .loopFrom round
  | nested inner => exact .nested inner
  | withNoLambda inner => exact .withNoLambda inner
  | speculate inner => exact .speculate inner
  | call short => exact .call short

def sincere : Compositional Nonterminal where
  Holds here _ _ rule := Sincere here rule
  pure := .pure
  act {_ _ _ action} plain := by
    cases action with
    | cursor | join | consumeAs => cases plain
    | _ => exact .act trivial
  join makes := .act fun _ known => known ▸ makes
  consumeAs := .act fun _ known => known
  stands word holds := holds.weaken fun _ known => known ▸ word
  bind := .bind
  look _ := .look
  precede := .precede
  loopFrom := .loopFrom
  nested := .nested
  withNoLambda := .withNoLambda
  speculate := .speculate

end Program

instance : Grammar.Links Program.sincere :=
  have : Grammar.Callable Program.sincere := ⟨.call⟩
  Grammar.links_of_flat (fun holds => Program.Sincere.weaken holds fun _ _ => trivial) (.act trivial)

theorem rule_sincere {α : Type} (name : Nonterminal α) (short : name.isShort = true) :
    Program.Sincere .nothing (Grammar.rule α name) :=
  (Grammar.rule_has short : Has Program.sincere .nothing (0 + 87) (Grammar.rule α name)).holds

end Parser

/-- A property that is passed on by every way to put rules together holds of the rule for a whole input. -/
theorem EntryPoint.rule_has {property : Compositional Grammar.Nonterminal} [Grammar.Callable property]
    (entry : EntryPoint) : Has property .nothing 80 entry.rule := by
  cases entry with
  | file => exact inferInstanceAs (Has property .nothing (0 + 80) Grammar.compilationUnit)
  | expression => exact inferInstanceAs (Has property .nothing (66 + 14) Grammar.expressionRoot)

namespace Parser

variable {env : Env} {α : Type}

namespace State

variable {s t : State}

structure Shown (env : Env) (s : State) : Prop where
  placed : s.Placed env
  shows : env.stream.ShowsAll 0 s.tokens

namespace Shown

theorem of_start (env : Env) : Shown env {} := ⟨(Nat.zero_min _).symm, trivial⟩

private theorem of_tokens (shown : Shown env s) (tokens : t.tokens = s.tokens) (position : t.position = s.position) :
    Shown env t where
  placed := by rw [Placed, position, taken, tokens]; exact shown.placed
  shows := tokens ▸ shown.shows

theorem pushToken (shown : Shown env s) {kind : Kind} {count : Nat} (shows : env.stream.Shows s.position kind count) :
    Shown env (s.pushToken env kind count) where
  placed := pushToken_placed shown.placed
  shows := by
    have placed : s.position = min s.taken (env.stream.size - 1) := shown.placed
    rw [tokens_pushToken]
    refine TokenStream.showsAll_append.mpr ⟨shown.shows, ?_, trivial⟩
    rw [Nat.zero_add]
    exact (placed ▸ shows).of_min

/-- Whatever is done with the stream's tokens one by one, the tokens recorded say what they are. -/
theorem growth (worded : env.stream.Worded) : Growth env fun s t => Shown env s → Shown env t where
  trans first second := second ∘ first
  still events position _ shown := shown.of_tokens (by rw [tokens, tokens, events]) position
  push {s} shown := by
    have own := worded.shows s.position
    rw [← Nat.add_zero s.position, ← TokenCursor.nth_eq ⟨env.stream, s.position⟩] at own
    exact shown.pushToken own
  error inner closed shown := by
    have opened := inner (shown.of_tokens (start_tokens _) rfl)
    exact opened.of_tokens (complete_tokens closed).1 (complete_tokens closed).2

end Shown

end State

open State

variable {here : Known} {s t : State}

/-- A step that gives tokens another kind only where they read so records such as say what they are. -/
theorem Action.run_shown (worded : env.stream.Worded) {action : Action α} {a : α} (fair : action.Fair here)
    (known : here.Of (s.cursor env)) (shown : s.Shown env) (run : action.run env s = .ok (a, t)) : t.Shown env := by
  cases action with
  | join kind count =>
    cases run
    exact shown.pushToken (TokenCursor.shows_of_makes worded (fair _ known))
  | consumeAs keyword =>
    have word := TokenCursor.nthText_of_isWordAt (fair _ known)
    have run := Result.of_done run
    unfold State.consumeAs at run
    split at run
    · cases run
      have reads : String.join ((List.range 1).map (s.cursor env).nthText) = (s.cursor env).nthText 0 := by
        simp [List.range_succ]
      exact shown.pushToken (TokenCursor.shows_of_reads word reads)
    · cases run
  | start =>
    cases run
    exact shown.of_tokens (start_tokens s) rfl
  | complete mark kind =>
    obtain ⟨u, closed, same⟩ := map_eq_ok.mp run
    cases same
    exact shown.of_tokens (complete_tokens closed).1 (complete_tokens closed).2
  | release mark =>
    obtain ⟨same, still⟩ := release_tokens (Result.of_done run)
    exact shown.of_tokens same still
  | precede first =>
    obtain ⟨u, preceded, same⟩ := map_eq_ok.mp run
    cases same
    exact shown.of_tokens (precede_tokens preceded).1 (precede_tokens preceded).2
  | _ => exact (Shown.growth worded).act rfl run shown

namespace Program

open Grammar (Nonterminal)

/-- What a sincere rule records in lenient mode says what it is. -/
theorem Evaluates.shown (worded : env.stream.Worded) (lenient : env.options.mode = .lenient)
    {rule : Program Nonterminal α} {r : Result α} {a : α} (run : Evaluates env Grammar.rule rule s r)
    (given : r = .ok (a, t)) (sincere : Sincere here rule) (known : here.Of (s.cursor env)) (before : s.Shown env) :
    t.Shown env := by
  induction run generalizing t here with
  | pure =>
    cases given
    exact before
  | act =>
    cases sincere with
    | act fair => exact Action.run_shown worded fair known before given
  | bind ran _ first second =>
    cases sincere with
    | bind word tells one two => exact second given (two _) (tells lenient known ran.exec_eq) (first rfl one known before)
    | look two =>
      cases Option.some.inj ((exec_act _ _).symm.trans ran.exec_eq)
      exact second given (two _) rfl before
    | precede two =>
      obtain ⟨u, preceded, same⟩ := map_eq_ok.mp (Option.some.inj ((exec_act _ _).symm.trans ran.exec_eq))
      cases same
      obtain ⟨same, still⟩ := precede_tokens preceded
      refine second given (two _) ?_ (before.of_tokens same still)
      rw [State.cursor, still]
      exact known
  | bindHalt => cases given
  | loopEnd _ round =>
    cases given
    cases sincere with
    | loopFrom steady => exact round rfl (steady _) trivial before
  | loopNext _ _ round rest =>
    cases sincere with
    | loopFrom steady =>
      exact @rest .nothing _ _ given (.loopFrom steady) trivial (round rfl (steady _) trivial before)
  | loopHalt => cases given
  | tooDeep =>
    obtain ⟨u, abandoned, same⟩ := map_eq_ok.mp given
    cases same
    exact (Shown.growth worded).abandonNested abandoned before
  | nested _ _ inner =>
    obtain ⟨⟨b, u⟩, rfl, same⟩ := map_eq_ok.mp given
    cases same
    cases sincere with
    | nested within => exact (inner rfl within trivial (before.of_tokens rfl rfl)).of_tokens rfl rfl
  | withNoLambda _ inner =>
    obtain ⟨⟨b, u⟩, rfl, same⟩ := map_eq_ok.mp given
    cases same
    cases sincere with
    | withNoLambda within => exact (inner rfl within trivial (before.of_tokens rfl rfl)).of_tokens rfl rfl
  | @speculate rule s r _ inner =>
    obtain ⟨⟨b, u⟩, rfl, same⟩ := map_eq_ok.mp given
    have settled : settle s b u = (a, t) := same
    cases sincere with
    | speculate within =>
      unfold settle at settled
      split at settled
      · cases settled
        exact inner rfl within trivial before
      · cases settled
        exact before
  | call _ body =>
    cases sincere with
    | call short => exact body given (rule_sincere _ short) trivial before

end Program

end Parser

namespace Tree.Builder

open BuildStep (mergedTokens mergedToken)

variable {stream : TokenStream} {b c : Builder}

private theorem finishNode_leaves (finished : b.finishNode = .ok c) : c.leaves = b.leaves ∧ c.text = b.text := by
  unfold finishNode at finished
  split at finished
  · cases finished
  · next top rest _ =>
    have alike := alike_adoptAll b.nodes.size (b.pending.extract top.firstChild b.pending.size).toList
      { b with opened := rest, pending := b.pending.take top.firstChild }
    rw [Array.foldl_toList] at alike
    cases finished
    split <;> exact ⟨alike.leaves, alike.text⟩

private theorem runAll_leaves {steps : List BuildStep} {raw : Nat} (ran : BuildStep.runAll stream steps raw b = .ok c) :
    c.leaves = b.leaves ++ mergedTokens stream raw (steps.filterMap BuildStep.token?) ∧ c.text = b.text := by
  induction steps generalizing raw b with
  | nil =>
    cases ran
    exact ⟨(List.append_nil _).symm, rfl⟩
  | cons step rest ih =>
    cases step with
    | start kind =>
      obtain ⟨d, started, ran⟩ := bind_eq_ok.mp ran
      obtain ⟨leaves, text⟩ := ih ran
      unfold startNode at started
      split at started
      · cases started
        exact ⟨leaves, text⟩
      · cases started
    | token kind count =>
      obtain ⟨d, put, ran⟩ := bind_eq_ok.mp ran
      obtain ⟨leaves, text⟩ := ih ran
      unfold Builder.token at put
      split at put
      · cases put
        refine ⟨?_, text⟩
        rw [leaves]
        simp [Builder.leaves, BuildStep.token?, mergedTokens]
      · cases put
    | finish =>
      obtain ⟨d, finished, ran⟩ := bind_eq_ok.mp ran
      obtain ⟨leaves, text⟩ := ih ran
      obtain ⟨leaves', text'⟩ := finishNode_leaves finished
      exact ⟨leaves.trans (by rw [leaves']; rfl), text.trans text'⟩

private theorem finish_leaves {tree : Tree} (finished : b.finish = .ok tree) :
    tree.tokens.toList.map TokenRecord.toToken = b.leaves ∧ tree.text = b.text := by
  unfold finish at finished
  split at finished
  · split at finished
    · cases finished
      exact ⟨rfl, rfl⟩
    · obtain ⟨d, closed, same⟩ := map_eq_ok.mp finished
      cases same
      obtain ⟨leaves, text⟩ := finishNode_leaves closed
      exact ⟨leaves, text⟩
  · cases finished

end Tree.Builder

/-- A tree holds the tokens that it is built of. -/
theorem BuildStep.toTree_leaves {stream : TokenStream} {steps : List BuildStep} {tree : Tree}
    (built : toTree stream steps = .ok tree) :
    tree.tokens.toList.map Tree.TokenRecord.toToken = mergedTokens stream 0 (steps.filterMap token?) ∧
      tree.text = stream.text := by
  obtain ⟨b, ran, finished⟩ := bind_eq_ok.mp built
  obtain ⟨leaves, text⟩ := Tree.Builder.runAll_leaves ran
  obtain ⟨leaves', text'⟩ := Tree.Builder.finish_leaves finished
  exact ⟨leaves'.trans leaves, text'.trans text⟩

open BuildStep (mergedTokens mergedToken)

/-- A token of a tree reads as the text of its kind, or is one of the stream's if its kind has no text of its own. -/
structure Token.Genuine (stream : TokenStream) (token : Token) : Prop where
  reads : ∀ word, token.kind.text? = some word → token.range.slice stream.text = word
  own : token.kind.text? = none →
    ∃ index, token.kind = (stream.tokenAt index).kind ∧ token.range = (stream.tokenAt index).range

private theorem genuine_of_mem {stream : TokenStream} (fits : stream.Fits) {raw : Nat} {tokens : List (Kind × Nat)}
    (spells : stream.Spells raw tokens) (shows : stream.ShowsAll raw tokens) {token : Token}
    (member : token ∈ mergedTokens stream raw tokens) : token.Genuine stream := by
  induction tokens generalizing raw with
  | nil => cases member
  | cons first rest ih =>
    obtain ⟨kind, count⟩ := first
    obtain ⟨composes, spells⟩ := spells
    obtain ⟨one, shows⟩ := shows
    rcases List.mem_cons.mp member with rfl | later
    · refine ⟨fun word named => ?_, fun unnamed => ⟨raw, ?_⟩⟩
      · rw [TokenStream.slice_mergedToken fits composes]
        exact one.reads word named
      · obtain ⟨rfl, own⟩ := one.own unnamed
        exact ⟨own, rfl⟩
    · exact ih spells shows later

variable {entry : EntryPoint} {text : String} {options : ParseOptions} {parse : Parse}

/-- Every token of the tree of a lenient parse reads as the text of its kind, if that has one, and has the kind that
the lexer gave it otherwise. -/
theorem Parse.tokens_genuine (lenient : options.mode = .lenient) (parsed : entry.parse text options = .ok parse)
    {leaf : Tree.Leaf} (member : leaf ∈ parse.tree.leaves) :
    (∀ word, leaf.kind.text? = some word → leaf.text = word) ∧
      (leaf.kind.text? = none → ∃ token ∈ tokenize text, leaf.kind = token.kind ∧ leaf.textRange = token.range) := by
  rw [EntryPoint.parse_eq] at parsed
  obtain ⟨state, ran, built⟩ := Parse.run_ok parsed
  obtain ⟨steps, tree, given, made, rfl⟩ := Parse.ofState_ok built
  have run := Program.evaluates_of_exec ran
  have unknown : ∀ cursor ∈ (none : Option TokenCursor), cursor = State.cursor ⟨.lex text, options⟩ {} := by simp
  have spelled := run.spelled rfl (entry.rule_has : Has Program.blind _ _ _).holds unknown (.of_start _)
  have shown := run.shown (worded_lex text) lenient rfl (entry.rule_has : Has Program.sincere _ _ _).holds trivial (.of_start _)
  obtain ⟨leaves, same⟩ := BuildStep.toTree_leaves made
  rw [Event.buildSteps_tokens given] at leaves
  obtain ⟨index, inside, rfl⟩ := List.mem_map.mp member
  replace inside : index < tree.tokens.size := List.mem_range.mp inside
  have record : (Tree.Leaf.mk tree index).record = tree.tokens[index] := by
    rw [Tree.Leaf.record, Array.getD, dif_pos inside]
    rfl
  have stands : tree.tokens[index].toToken ∈ tree.tokens.toList.map Tree.TokenRecord.toToken :=
    List.mem_map_of_mem (Array.getElem_mem_toList inside)
  rw [leaves] at stands
  obtain ⟨reads, own⟩ := genuine_of_mem (fits_lex text) spelled.spells shown.shows stands
  rw [Tree.Leaf.text, Tree.Leaf.kind, Tree.Leaf.textRange, record, show (Tree.Leaf.mk tree index).tree.text = _ from same]
  refine ⟨reads, fun unnamed => ?_⟩
  obtain ⟨index, kind, range⟩ := own unnamed
  have token : (TokenStream.lex text).tokenAt index ∈ (TokenStream.lex text).tokens := Array.getElem_mem _
  exact ⟨_, by simpa [tokens_lex] using token, kind, range⟩

/-- A name that is taken for a keyword, and three tokens that are taken for one. -/
theorem Parse.tokens_genuine_modifiers :
    ∃ parse, EntryPoint.file.parse "non-sealed class A permits B {}" {} = .ok parse ∧ parse.tree.tokenCount = 8 ∧
      ∀ leaf ∈ parse.tree.leaves, ∀ word, leaf.kind.text? = some word → leaf.text = word := by
  have found : Parse.givesWithin 300 (fun parse => parse.tree.tokenCount == 8) Grammar.compilationUnit
      (.lex "non-sealed class A permits B {}") {} = true := by decide +kernel
  obtain ⟨parse, ran, count⟩ := Parse.run_of_givesWithin found
  have parsed : EntryPoint.file.parse "non-sealed class A permits B {}" {} = .ok parse := ran
  exact ⟨parse, parsed, by simpa using count, fun leaf member => (Parse.tokens_genuine rfl parsed member).1⟩

end LosslessJava
