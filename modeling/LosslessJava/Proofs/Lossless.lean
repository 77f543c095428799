import LosslessJava.Proofs.Building
import LosslessJava.Proofs.Endless
import LosslessJava.Proofs.Entry
import LosslessJava.Proofs.Grammar.Inputs
import Mathlib.Data.String.Basic

/-! Parsing loses nothing. The tokens of a tree are made of those of the text, each of them used once
and in order, and the root's text is the text. -/

namespace LosslessJava

/-- A token of a tree is made of these tokens: it reaches from the first to the last of them, with the
trivia outside. -/
def Token.Joins (token : Token) (block : List Token) : Prop :=
  ∃ first last, block.head? = some first ∧ block.getLast? = some last ∧
    token.range = first.range.cover last.range ∧ token.leading = first.leading ∧
    token.trailing = last.trailing ∧ (1 < block.length → token.kind ∈ Event.joinedKinds)

/-- The tokens of a tree, in order, are made of these tokens, and all of them stand below the root. -/
structure Tree.Partitions (tree : Tree) (tokens : List Token) : Prop where
  blocks : ∃ blocks : List (List Token), blocks.flatten = tokens ∧
    List.Forall₂ Token.Joins (tree.tokens.toList.map TokenRecord.toToken) blocks
  first : tree.root.firstToken = 0
  last : tree.root.endToken = tree.tokenCount

namespace EntryPoint

/-- Those tokens of a text that become tokens of its tree. -/
def share (entry : EntryPoint) (tokens : List Token) : List Token :=
  match entry with
  | .file => tokens
  | .expression => tokens.dropLast

/-- What the tree leaves out of the text: the trivia before the end of input, where that is left out. -/
def remainder (entry : EntryPoint) (text : String) : String :=
  match entry with
  | .file => ""
  | .expression => match (tokenize text).getLast? with
    | some last => Span.slice ⟨last.fullRange.start, last.range.start⟩ text
    | none => ""

end EntryPoint

section Blocks

theorem TokenStream.tokenAt_eq {stream : TokenStream} {index : Nat} (inside : index < stream.size) :
    stream.tokens.toList[index]? = some (stream.tokenAt index) := by
  have small : min index (stream.size - 1) = index := by omega
  simp only [TokenStream.size] at inside
  simp [TokenStream.tokenAt, small, inside]

def Event.Counted (token : Kind × Nat) : Prop :=
  token.2 = 1 ∨ 1 < token.2 ∧ token.1 ∈ Event.joinedKinds

private theorem Event.OneTree.counted {events : List Event} {count : Nat} (one : Event.OneTree events count) :
    ∀ token ∈ events.filterMap Event.token?, Event.Counted token := by
  obtain ⟨given, tree, head, rfl, tombstones, whole, -⟩ := one
  intro token member
  rw [List.filterMap_append, filterMap_givens tombstones, List.nil_append] at member
  obtain ⟨event, among, made⟩ := List.mem_filterMap.mp member
  have proper := whole.proper event among
  cases event with
  | start => cases made
  | token kind rawCount =>
    cases made
    exact proper.2
  | finish => cases made

private theorem BuildStep.joins_mergedToken {stream : TokenStream} {raw : Nat} {token : Kind × Nat}
    (counted : Event.Counted token) (room : raw + token.2 ≤ stream.size) :
    (mergedToken stream token.1 raw token.2).Joins ((stream.tokens.toList.drop raw).take token.2) := by
  have positive : 0 < token.2 := by
    rcases counted with one | ⟨more, -⟩ <;> omega
  have length : ((stream.tokens.toList.drop raw).take token.2).length = token.2 := by
    simp only [TokenStream.size] at room
    simp
    omega
  refine ⟨stream.tokenAt raw, stream.tokenAt (raw + token.2 - 1), ?_, ?_, rfl, rfl, rfl, fun joined => ?_⟩
  · rw [List.head?_eq_getElem?, List.getElem?_take_of_lt positive, List.getElem?_drop, Nat.add_zero,
      TokenStream.tokenAt_eq (by omega)]
  · rw [List.getLast?_eq_getElem?, length, List.getElem?_take_of_lt (by omega), List.getElem?_drop,
      ← Nat.add_sub_assoc positive, TokenStream.tokenAt_eq (by omega)]
  · rw [length] at joined
    exact (counted.resolve_left (by omega)).2

/-- Tokens that are made one after the other are made of consecutive tokens. -/
theorem BuildStep.blocks_of_mergedTokens (stream : TokenStream) (raw : Nat) (tokens : List (Kind × Nat))
    (counted : ∀ token ∈ tokens, Event.Counted token)
    (room : raw + (tokens.map Prod.snd).sum ≤ stream.size) :
    ∃ blocks : List (List Token),
      blocks.flatten = (stream.tokens.toList.drop raw).take (tokens.map Prod.snd).sum ∧
        List.Forall₂ Token.Joins (mergedTokens stream raw tokens) blocks := by
  induction tokens generalizing raw with
  | nil => exact ⟨[], by simp, .nil⟩
  | cons token rest ih =>
    simp only [List.map_cons, List.sum_cons] at room ⊢
    obtain ⟨blocks, flat, joins⟩ := ih (raw + token.2) (fun token member => counted token (.tail _ member))
      (by omega)
    refine ⟨(stream.tokens.toList.drop raw).take token.2 :: blocks, ?_,
      .cons (joins_mergedToken (counted token (.head _)) (by omega)) joins⟩
    rw [List.flatten_cons, flat, List.take_add, List.drop_drop]

end Blocks

section Texts

open Lexer

private theorem utf8Len_eq (chars : List Char) : String.utf8Len chars = width chars := by
  induction chars with
  | nil => rfl
  | cons c rest ih => simp [ih, Nat.add_comm]

theorem slice_of_split {text : String} {front middle back : List Char}
    (split : text.toList = front ++ middle ++ back) :
    (⟨width front, width front + width middle⟩ : Span).slice text = String.ofList middle := by
  have whole : text = String.ofList (front ++ middle ++ back) := by rw [← split, String.ofList_toList]
  rw [whole, ← utf8Len_eq, ← utf8Len_eq]
  exact String.extract_of_valid front middle back

/-- A token that is made of others begins with the first of them and ends with the last. -/
theorem Token.Joins.fullRange {token first last : Token} {block : List Token} (joins : token.Joins block)
    (head : block.head? = some first) (rear : block.getLast? = some last) :
    token.fullRange = ⟨first.fullRange.start, last.fullRange.stop⟩ := by
  obtain ⟨first', last', head', rear', range, leading, trailing, -⟩ := joins
  cases head.symm.trans head'
  cases rear.symm.trans rear'
  simp [Token.fullRange, range, leading, trailing, Span.cover, Span.widen]

variable {tokens : List Token} {blocks : List (List Token)}

private theorem starts_of_joins (joins : List.Forall₂ Token.Joins tokens blocks) :
    tokens.head?.map (·.fullRange.start) = blocks.flatten.head?.map (·.fullRange.start) := by
  cases joins with
  | nil => rfl
  | cons first rest =>
    have ⟨head, last, found, rear, _⟩ := first
    have whole := first.fullRange found rear
    simp [List.head?_append, found, whole]

private theorem stops_of_joins (joins : List.Forall₂ Token.Joins tokens blocks) :
    tokens.getLast?.map (·.fullRange.stop) = blocks.flatten.getLast?.map (·.fullRange.stop) := by
  induction joins with
  | nil => rfl
  | cons first rest ih =>
    have ⟨head, last, found, rear, _⟩ := first
    have whole := first.fullRange found rear
    rw [List.flatten_cons, List.getLast?_append]
    cases rest with
    | nil => simp [rear, whole]
    | cons second rest =>
      obtain ⟨_, last', _, rear', -⟩ := second
      rw [List.getLast?_cons_cons, ih]
      rcases behind : (List.flatten _).getLast? with _ | last''
      · simp only [List.flatten_cons, List.getLast?_append, rear', Option.or_eq_none_iff] at behind
        cases behind.2
      · rfl

end Texts

section Roots

variable {tree : Tree} {stream : TokenStream} {kind : Kind} {children : List Shape}

private theorem Tree.Built.root_record (built : tree.Built stream kind children) :
    tree.root.record.row tree.children =
      ⟨kind, Shape.childrenOf 0 0 children, 0, (Shape.tokensAll children).length⟩ := by
  refine Tree.record_row ?_
  rw [built.rows, built.rootId]
  simp only [Shape.recordsAll, Shape.records, List.append_nil]
  rw [List.getElem?_append_right (by simp)]
  simp

/-- A tree that shows one shape around all tokens made of a stream uses up as many of the stream's tokens
as are counted. -/
theorem Tree.Built.partitions (built : tree.Built stream kind children) {count : Nat}
    (counted : ∀ token ∈ Shape.tokensAll children, Event.Counted token)
    (sum : ((Shape.tokensAll children).map Prod.snd).sum = count) (room : count ≤ stream.size) :
    tree.Partitions (stream.tokens.toList.take count) := by
  obtain ⟨blocks, flat, joins⟩ := BuildStep.blocks_of_mergedTokens stream 0 _ counted (by omega)
  have record := built.root_record
  have size : tree.tokenCount = (Shape.tokensAll children).length := by
    have length := congrArg List.length built.leaves
    simpa [Tree.tokenCount] using length
  refine ⟨⟨blocks, by simpa [sum] using flat, built.leaves ▸ joins⟩, ?_, ?_⟩
  · exact congrArg Row.firstToken record
  · rw [size]
    exact congrArg Row.endToken record

/-- The bytes of the root are those from the first to the last of the tokens that the tree is made of. -/
theorem Tree.Partitions.fullRange {tokens : List Token} {first last : Token} (parts : tree.Partitions tokens)
    (head : tokens.head? = some first) (rear : tokens.getLast? = some last) :
    tree.root.fullRange = ⟨first.fullRange.start, last.fullRange.stop⟩ := by
  obtain ⟨blocks, flat, joins⟩ := parts.blocks
  have starts := starts_of_joins joins
  have stops := stops_of_joins joins
  rw [flat, head] at starts
  rw [flat, rear] at stops
  simp only [List.head?_map, Option.map_map, List.getLast?_map] at starts stops
  have filled : 0 < tree.tokenCount := by
    refine Nat.pos_of_ne_zero fun empty => ?_
    simp [Array.eq_empty_of_size_eq_zero empty] at starts
  have front : (⟨tree, 0⟩ : Leaf).fullRange.start = first.fullRange.start := by
    simp only [Tree.tokenCount] at filled
    simpa [List.head?_eq_getElem?, filled, Leaf.fullRange, Leaf.record, Array.getD] using starts
  have back : (⟨tree, tree.tokenCount - 1⟩ : Leaf).fullRange.stop = last.fullRange.stop := by
    have inside : tree.tokens.size - 1 < tree.tokens.size := by
      simp only [Tree.tokenCount] at filled
      omega
    simpa [List.getLast?_eq_getElem?, inside, Leaf.fullRange, Leaf.record, Array.getD, Tree.tokenCount]
      using stops
  have firstLeaf : tree.root.firstLeaf? = some ⟨tree, 0⟩ := by
    rw [Node.firstLeaf?, parts.first, parts.last, if_pos filled]
    rfl
  have lastLeaf : tree.root.lastLeaf? = some ⟨tree, tree.tokenCount - 1⟩ := by
    rw [Node.lastLeaf?, parts.first, parts.last, if_pos filled]
    rfl
  rw [Node.fullRange, firstLeaf, lastLeaf, ← front, ← back]
  rfl

private theorem Tree.Partitions.fullRange_nil (parts : tree.Partitions []) :
    tree.root.fullRange = .empty tree.text.utf8ByteSize := by
  obtain ⟨blocks, flat, joins⟩ := parts.blocks
  have none : tree.tokenCount = 0 := by
    cases blocks with
    | nil => simpa [Tree.tokenCount] using joins.length_eq
    | cons block blocks =>
      obtain ⟨token, rest, ⟨head, _, found, -⟩, -, -⟩ := List.forall₂_cons_right_iff.mp joins
      rw [(List.flatten_eq_nil_iff.mp flat) block (.head _)] at found
      cases found
  have firstLeaf : tree.root.firstLeaf? = Option.none := by
    rw [Node.firstLeaf?, parts.first, parts.last, none, if_neg (Nat.lt_irrefl _)]
  have next : tree.root.tree.leaf? tree.root.firstToken = Option.none := by
    rw [Tree.leaf?, parts.first, if_neg]
    exact fun inside => absurd inside (by simp [Tree.root, none])
  simp only [Node.fullRange, Node.textRange, firstLeaf, next]
  rfl

end Roots

/-- A tree that holds all of a text, but for what an expression leaves out. -/
structure EntryPoint.Lossless (entry : EntryPoint) (text : String) (tree : Tree) : Prop where
  parts : tree.Partitions (entry.share (tokenize text))
  text : tree.root.fullText ++ entry.remainder text = text

open Lexer in
private theorem Tree.Partitions.lossless {entry : EntryPoint} {text : String} {tree : Tree} (same : tree.text = text)
    (parts : tree.Partitions (entry.share (tokenize text))) : entry.Lossless text tree := by
  refine ⟨parts, ?_⟩
  have tiles := tokenize_tiles text
  obtain ⟨first, found, first_start⟩ := Option.map_eq_some_iff.mp tiles.starts
  cases entry with
  | file =>
    obtain ⟨last, found', last_stop⟩ := Option.map_eq_some_iff.mp tiles.stops
    have cut := @slice_of_split text [] text.toList [] (by simp)
    rw [width_nil, Nat.zero_add, String.ofList_toList] at cut
    rw [Node.fullText, parts.fullRange found found', first_start, last_stop, EntryPoint.remainder,
      utf8ByteSize_eq, Tree.root, same, cut, String.append_empty]
  | expression =>
    obtain ⟨front, last, before, lead, split, -, chars, starts, stops⟩ :=
      (tokensFrom_row 0 text.toList).remainder
    replace split : tokenize text = front ++ [last] := split
    rw [Nat.zero_add] at starts stops
    have rest : EntryPoint.expression.remainder text = String.ofList lead := by
      have cut := @slice_of_split text before lead [] (by simp [chars])
      simp only [EntryPoint.remainder, split, List.getLast?_concat, starts, stops, chars, width_append, cut]
    have inner : tree.root.fullText = String.ofList before := by
      have range : tree.root.fullRange.slice text = String.ofList before := by
        simp only [EntryPoint.share, split, List.dropLast_concat] at parts
        rcases List.eq_nil_or_concat' front with rfl | ⟨init, prior, rfl⟩
        · obtain rfl : last = first := by simpa [split] using found
          obtain rfl : before = [] := by
            refine Classical.byContradiction fun filled => ?_
            have := width_pos filled
            omega
          have cut := @slice_of_split text text.toList [] [] (by simp)
          rw [width_nil, Nat.add_zero, ← utf8ByteSize_eq] at cut
          rw [parts.fullRange_nil, same, Span.empty, cut]
        · have head : (init ++ [prior]).head? = some first := by
            rw [split] at found
            cases init <;> simpa using found
          have adjoin : prior.fullRange.stop = last.fullRange.start := by
            have chain := tiles.adjoin
            rw [split, List.append_assoc] at chain
            simpa using (List.isChain_append.mp chain).2.1
          have cut := @slice_of_split text [] before lead (by simp [chars])
          rw [width_nil, Nat.zero_add] at cut
          rw [parts.fullRange head List.getLast?_concat, first_start, adjoin, starts, cut]
      rw [Node.fullText, Tree.root, same]
      exact range
    rw [inner, rest, ← String.ofList_append, ← chars, String.ofList_toList]

section Runs

open LosslessJava.Parser

variable {entry : EntryPoint} {text : String} {options : ParseOptions}

/-- What a parse of a text is run in. -/
def textEnv (text : String) (options : ParseOptions) : Env := ⟨.lex text, options⟩

/-- The expression that makes up the input is a type by itself. -/
def BareInput (text : String) (options : ParseOptions) : Prop :=
  Grammar.BareExpression (textEnv text options) ({} : State).start

theorem size_lex (text : String) : (TokenStream.lex text).size = (tokenize text).length := by
  simp [TokenStream.size, tokens_lex]

/-- A whole input settles. It is recorded as one tree, but for an expression that is a type by itself. -/
theorem EntryPoint.settles (entry : EntryPoint) (text : String) (options : ParseOptions) :
    (@Grammar.Scope.root (textEnv text options) (regular_lex text)).Settles entry.rule {} fun _ t =>
      Event.OneTree t.events.toList (entry.share (tokenize text)).length ∧
          (entry = .expression → ¬ BareInput text options) ∨
        entry = .expression ∧ BareInput text options ∧ Event.TwoTrees t.events.toList := by
  have good : ({} : State).Good (textEnv text options) :=
    ⟨TokenStream.size_pos _, by simp, by simp⟩
  have room (rank : Nat) (low : rank ≤ 4) :
      (@Grammar.Scope.root (textEnv text options) (regular_lex text)).Room rank 0 := by
    simp only [Grammar.Scope.Room, Grammar.Scope.root]
    omega
  cases entry with
  | file =>
    refine (Grammar.compilationUnit_settles good (room 1 (by decide)) rfl rfl).weaken fun _ t _ one => ?_
    refine .inl ⟨?_, by simp⟩
    rw [share, ← size_lex]
    exact one
  | expression =>
    refine (Grammar.expressionRoot_settles good (room 3 (by decide)) rfl rfl).weaken fun _ t _ whole => ?_
    rw [share, List.length_dropLast, ← size_lex]
    exact whole.2.imp (fun one => ⟨one.2, fun _ => one.1⟩) fun two => ⟨rfl, two⟩

/-- What is recorded as one tree is built as one that holds all of the text. -/
theorem lossless_of_oneTree {state : State}
    (one : Event.OneTree state.events.toList (entry.share (tokenize text)).length) :
    ∃ parse kind children, Parse.ofState (textEnv text options) state = .ok parse ∧
      parse.tree.Built (.lex text) kind children ∧ entry.Lossless text parse.tree := by
  obtain ⟨kind, children, emits, proper, tokens, sum⟩ := one.emits
  obtain ⟨tree, made, built⟩ := @Tree.toTree_ok (.lex text) _ _ proper
  have counted := one.counted
  rw [← tokens] at counted
  have sized : (entry.share (tokenize text)).length ≤ (TokenStream.lex text).size := by
    rw [size_lex]
    cases entry with
    | file => exact Nat.le_refl _
    | expression => exact List.length_dropLast ▸ Nat.sub_le ..
  have parts := built.partitions counted sum sized
  have share : (TokenStream.lex text).tokens.toList.take (entry.share (tokenize text)).length =
      entry.share (tokenize text) := by
    rw [tokens_lex]
    cases entry with
    | file => exact List.take_length
    | expression => simp [EntryPoint.share, List.dropLast_eq_take]
  rw [share] at parts
  have same : tree.text = text := by
    rw [built.text, TokenStream.lex, TokenStream.ofTokens]
    split <;> rfl
  refine ⟨⟨tree, state.diagnostics.toList,
    if state.recovery = .recovering then .normal else state.recovery, options.mode⟩, kind, children, ?_, built,
    parts.lossless same⟩
  rw [Parse.ofState, Event.buildSteps_of_emits emits]
  dsimp only [textEnv]
  rw [made]

/-- A lenient parse that returns has lost nothing of the text. -/
theorem lenient_parse_lossless {parse : Parse} (lenient : options.mode = .lenient)
    (parsed : entry.parse text options = .ok parse) : entry.Lossless text parse.tree := by
  rw [EntryPoint.parse_eq] at parsed
  obtain ⟨state, ran, built⟩ := Parse.run_ok parsed
  cases entry.settles text options with
  | gives ran' recorded =>
    cases ran.symm.trans ran'.exec_eq
    rcases recorded with ⟨one, -⟩ | ⟨-, bare, -⟩
    · obtain ⟨parse', _, _, built', -, lossless⟩ := @lossless_of_oneTree _ _ options _ one
      cases built.symm.trans built'
      exact lossless
    · obtain ⟨-, strict, -⟩ := bare
      cases lenient.symm.trans strict
  | halts ran' => cases ran.symm.trans ran'.exec_eq
  | sticks cause => cases ran.symm.trans (Grammar.exec_eq_none_of_sticks cause)

/-- Two tokens that touch make one operator, and a comment stays in front of the end of input. -/
theorem lenient_parse_lossless_shift :
    ∃ parse, EntryPoint.expression.parse "a>>b /* c */" {} = .ok parse ∧
      EntryPoint.expression.Lossless "a>>b /* c */" parse.tree := by
  have found : Parse.givesWithin 300 (fun parse => parse.diagnostics.isEmpty) Grammar.expressionRoot
      (.lex "a>>b /* c */") {} = true := by decide +kernel
  obtain ⟨parse, ran, -⟩ := Parse.run_of_givesWithin found
  exact ⟨parse, ran, lenient_parse_lossless rfl ran⟩

end Runs

end LosslessJava
