import LosslessJava.Proofs.Cutting
import LosslessJava.Proofs.Lexemes
import LosslessJava.Proofs.Wording

/-! Tokens read as themselves. The text of a token, lexed alone, is this token and nothing else; and the text of a
token of a tree is the tokens that it is made of. -/

namespace LosslessJava

open Lexer

/-- The token without its trivia, in a text that begins at this offset. -/
def Token.alone (start : Nat) (token : Token) : Token :=
  { kind := token.kind, range := ⟨token.range.start - start, token.range.stop - start⟩ }

/-- A piece of a text, lexed alone, is made of these of its tokens. -/
def Span.Relexes (text : String) (piece : Span) (tokens : List Token) : Prop :=
  tokenize (piece.slice text) = tokens.map (Token.alone piece.start) ++ [.endOfInput piece.length]

/-- Each token but the end of input is lexed again, and so is each token of a tree: the tokens that it is made of. -/
structure Relexes (text : String) : Prop where
  token : ∀ token ∈ tokenize text, token.kind ≠ .eof → token.range.Relexes text [token]
  leaf : ∀ {entry : EntryPoint} {options : ParseOptions} {parse : Parse}, entry.parse text options = .ok parse →
    ∀ leaf ∈ parse.tree.leaves, ∃ block, block <:+: tokenize text ∧ leaf.record.toToken.Joins block ∧
      (leaf.textRange.Relexes text block ∨ ∃ token, block = [token] ∧ token.kind = .eof)

section Tokens

variable {c : Char} {rest : List Char}

private theorem Lexer.triviaPiece?_take (none : triviaPiece? true c rest = none) (n : Nat) :
    triviaPiece? true c (rest.take n) = .none := by
  have head {d : Char} (other : rest.head? ≠ some d) : (rest.take n).head? ≠ some d := by
    rw [List.head?_take]
    split
    · simp
    · exact other
  unfold triviaPiece? at none ⊢
  split at none
  · cases none
  next inLine =>
  split at none
  · cases none
  next line =>
  split at none
  · cases none
  next block =>
  split at none
  · cases none
  next filled =>
  simp only [Bool.and_eq_true, beq_iff_eq, not_and] at line block
  rw [if_neg inLine, if_neg, if_neg, if_neg filled]
  · simpa using fun slash => head (block slash)
  · simpa using fun slash => head (line slash)

/-- What is cut off from a text is one token alone. -/
theorem Lexer.tokensFrom_lexeme (bare : triviaPiece? true c rest = none) :
    tokensFrom 0 (c :: rest.take (lexeme c rest).2) =
      [{ kind := (lexeme c rest).1, range := ⟨0, width (c :: rest.take (lexeme c rest).2)⟩ },
        .endOfInput (width (c :: rest.take (lexeme c rest).2))] := by
  have front := trivia_eq_nil (triviaPiece?_take bare (lexeme c rest).2)
  have behind : (rest.take (lexeme c rest).2).drop (lexeme c rest).2 = [] := by simp
  have more : (lexeme c rest).1 ≠ .eof := (reads_lexeme c rest).holds.2
  have first : scan 0 (c :: rest.take (lexeme c rest).2) =
      ({ kind := (lexeme c rest).1, range := ⟨0, width (c :: rest.take (lexeme c rest).2)⟩ }, []) := by
    simp only [scan, front, lexeme_take, behind, trivia, List.take_take, Nat.min_self, Trivia.width_nil, Nat.zero_add]
  have last (offset : Nat) : tokensFrom offset [] = [.endOfInput offset] := by
    have ended : scan offset [] = (.endOfInput offset, []) := by simp [scan, trivia, Token.endOfInput]
    have isEnd : (Token.endOfInput offset).kind = .eof := rfl
    rw [tokensFrom, ended, if_pos isEnd]
  rw [tokensFrom, first, if_neg more, last]
  simp [Token.fullRange, Span.widen]

private theorem relexes_of_mem {text : String} {token : Token} (member : token ∈ tokenize text) (more : token.kind ≠ .eof) :
    token.range.Relexes text [token] := by
  obtain ⟨earlier, front, lead, c, rest, split, cut, -⟩ := cut_of_mem member more
  rw [Nat.zero_add] at cut
  have covers := cut.covers split
  have body : token.range.slice text = String.ofList (c :: rest.take (lexeme c rest).2) := by
    rw [covers.range]
    exact slice_of_split (covers.split.trans (List.append_assoc ..).symm)
  have lexed := tokensFrom_lexeme (triviaPiece?_of_left (by rw [cut.leading]))
  rw [Span.Relexes, body, tokenize, String.toList_ofList, lexed, covers.range, ← cut.kind]
  simp [Token.alone, covers.range, Span.length]

end Tokens

section Blocks

open BuildStep (mergedToken mergedTokens)

def Token.row : Nat → List (Kind × String) → List Token
  | _, [] => []
  | offset, (kind, word) :: rest =>
    { kind, range := ⟨offset, offset + word.utf8ByteSize⟩ } :: row (offset + word.utf8ByteSize) rest

def joinedPieces : List (List (Kind × String)) := [
  [(.gt, ">"), (.eq, "=")], [(.gt, ">"), (.gt, ">")], [(.gt, ">"), (.gt, ">"), (.eq, "=")],
  [(.gt, ">"), (.gt, ">"), (.gt, ">")], [(.gt, ">"), (.gt, ">"), (.gt, ">"), (.eq, "=")],
  [(.identifier, "non"), (.minus, "-"), (.identifier, "sealed")]]

private theorem tokenize_joined : ∀ pieces ∈ joinedPieces, tokenize (String.join (pieces.map Prod.snd)) =
    Token.row 0 pieces ++ [.endOfInput (String.join (pieces.map Prod.snd)).utf8ByteSize] := by decide +kernel

namespace TokenStream

variable {stream : TokenStream} {raw count : Nat}

def block (stream : TokenStream) (raw count : Nat) : List Token := (List.range' raw count).map stream.tokenAt

def pieces (stream : TokenStream) (raw count : Nat) : List (Kind × String) :=
  (List.range' raw count).map fun index => (stream.kindAt index, stream.textAt index)

private theorem join_pieces : String.join ((stream.pieces raw count).map Prod.snd) = stream.spelling raw count := by
  rw [spelling, pieces, List.range'_eq_map_range]
  simp [Function.comp_def]

private theorem alone_block (fits : stream.Fits) {start offset : Nat} (starts : (stream.tokenAt raw).range.start = start + offset)
    (joint : ∀ n, n + 1 < count → stream.touches (raw + n) = true) :
    (stream.block raw count).map (Token.alone start) = Token.row offset (stream.pieces raw count) := by
  induction count generalizing raw offset with
  | zero => rfl
  | succ count ih =>
    have forward := fits.le_at raw
    have stops : (stream.tokenAt raw).range.stop = start + (offset + (stream.textAt raw).utf8ByteSize) := by
      have length : (stream.textAt raw).utf8ByteSize = (stream.tokenAt raw).range.stop - (stream.tokenAt raw).range.start :=
        Span.utf8ByteSize_slice forward (fits.start_at raw) (fits.stop_at raw)
      omega
    have later : (stream.block (raw + 1) count).map (Token.alone start) =
        Token.row (offset + (stream.textAt raw).utf8ByteSize) (stream.pieces (raw + 1) count) := by
      cases count with
      | zero => rfl
      | succ count =>
        refine ih ?_ fun n inside => ?_
        · rw [← stops]
          exact (meets_of_joint (joint 0 (by omega))).symm
        · rw [Nat.add_assoc, Nat.add_comm 1]
          exact joint (n + 1) (by omega)
    have first : (stream.tokenAt raw).alone start =
        { kind := stream.kindAt raw, range := ⟨offset, offset + (stream.textAt raw).utf8ByteSize⟩ } := by
      rw [Token.alone, starts, stops]
      simp [kindAt]
    rw [block, pieces, List.range'_succ, List.map_cons, List.map_cons, List.map_cons, first]
    exact congrArg _ later

private theorem pieces_eq (cursor : TokenCursor) (count : Nat) :
    cursor.stream.pieces cursor.position count = (List.range count).map fun n => (cursor.nth n, cursor.nthText n) := by
  rw [pieces, List.range'_eq_map_range, List.map_map]
  exact List.map_congr_left fun n _ => by rw [Function.comp_apply, cursor.nth_eq, cursor.nthText_eq]

end TokenStream

section Made

variable {cursor : TokenCursor} (worded : cursor.stream.Worded)

include worded

/-- An operator that begins with `>` is this token alone, or one of those that are put together. -/
theorem pieces_of_angle (here : cursor.nth 0 = .gt) : (Grammar.Operator.angle cursor).rawCount = 1 ∨
    cursor.stream.pieces cursor.position (Grammar.Operator.angle cursor).rawCount ∈ joinedPieces := by
  have reads {n : Nat} {kind : Kind} {word : String} (found : cursor.nth n = kind) (named : kind.text? = some word) :
      (cursor.nth n, cursor.nthText n) = (kind, word) := by rw [TokenCursor.nthText_of_nth worded found named, found]
  have first := reads here rfl
  have gt {n : Nat} (goes : Grammar.Operator.goesOn cursor n .gt = true) := reads (Grammar.joint_of_goesOn goes).1 rfl
  have eq {n : Nat} (goes : Grammar.Operator.goesOn cursor n .eq = true) := reads (Grammar.joint_of_goesOn goes).1 rfl
  rw [TokenStream.pieces_eq, Grammar.angle_eq]
  split
  · next one =>
    split
    · next two =>
      split
      · next three => exact .inr (by simp [List.range_succ, joinedPieces, first, gt one, gt two, eq three])
      · exact .inr (by simp [List.range_succ, joinedPieces, first, gt one, gt two])
    · split
      · next two => exact .inr (by simp [List.range_succ, joinedPieces, first, gt one, eq two])
      · exact .inr (by simp [List.range_succ, joinedPieces, first, gt one])
  · split
    · next one => exact .inr (by simp [List.range_succ, joinedPieces, first, eq one])
    · exact .inl rfl

/-- Tokens that make up one are one token, or those of a kind that several are joined to. -/
theorem pieces_of_makes {kind : Kind} {count : Nat} (makes : Parser.Makes cursor kind count) :
    count = 1 ∨ cursor.stream.pieces cursor.position count ∈ joinedPieces ∧ kind ∈ Event.joinedKinds := by
  cases makes with
  | nonSealed found =>
    simp only [Grammar.isNonSealed, Bool.and_eq_true, beq_iff_eq] at found
    obtain ⟨⟨⟨⟨⟨name, non⟩, minus⟩, word⟩, -⟩, -⟩ := found
    have hyphen : cursor.nthText 1 = "-" := TokenCursor.nthText_of_nth worded minus rfl
    have last : cursor.nthText 2 = "sealed" := (Option.some.inj (TokenCursor.nthText_of_isWordAt word)).symm
    simp only [Parser.isWordAt, Bool.and_eq_true, beq_iff_eq] at word
    have name : cursor.nth 0 = .identifier := name
    rw [TokenStream.pieces_eq]
    exact .inr ⟨by simp [List.range_succ, joinedPieces, name, non, minus, hyphen, word.1, last], by decide⟩
  | @operator op found =>
    rcases (Grammar.Operator.stands_of_at? found).kind with ⟨one, -⟩ | ⟨many, joined⟩
    · exact .inl one
    · refine .inr ⟨?_, joined⟩
      unfold Grammar.Operator.at? at found
      split at found
      · next here =>
        obtain rfl := Option.some.inj found
        exact (pieces_of_angle worded here).resolve_left (by omega)
      · obtain ⟨power, -, rfl⟩ := Option.map_eq_some_iff.mp found
        exact absurd many (Nat.lt_irrefl 1)

end Made

namespace TokenStream

variable {stream : TokenStream} {raw count : Nat}

private theorem forward_of_touching (fits : stream.Fits) (touching : (TokenCursor.mk stream raw).Touching count) :
    (stream.tokenAt raw).range.start ≤ (stream.tokenAt (raw + count - 1)).range.stop := by
  obtain ⟨n, rfl⟩ := Nat.exists_eq_add_one.mpr touching.positive
  exact (slice_cover fits fun m inside => touching.joint m (Nat.succ_lt_succ inside)).1

private theorem block_infix (touching : (TokenCursor.mk stream raw).Touching count) :
    stream.block raw count <:+: stream.tokens.toList := by
  by_cases inside : raw + count ≤ stream.size
  · have same : stream.block raw count = (stream.tokens.toList.drop raw).take count := by
      refine List.ext_getElem? fun n => ?_
      by_cases within : n < count
      · rw [List.getElem?_take_of_lt within, List.getElem?_drop, tokenAt_eq (by omega), block]
        simp [within]
      · rw [List.getElem?_eq_none (by simp [block]; omega), List.getElem?_eq_none (by simp; omega)]
    rw [same]
    exact (List.take_prefix _ _).isInfix.trans (List.drop_suffix _ _).isInfix
  · -- Behind the last token only this one is left, and nothing touches it.
    obtain rfl : count = 1 := by
      by_contra more
      have positive := touching.positive
      have joint := touching.joint (count - 2) (by omega)
      rw [TokenCursor.isJoint_eq, TokenCursor.touches_of_behind (by dsimp only; omega)] at joint
      cases joint
    have member : stream.tokenAt raw ∈ stream.tokens.toList := Array.getElem_mem_toList _
    exact (List.singleton_infix_iff _ _).mpr member

private theorem joins_block (worded : stream.Worded) {kind : Kind} (composes : stream.Composes raw (kind, count)) :
    (mergedToken stream kind raw count).Joins (stream.block raw count) := by
  have positive : 0 < count := composes.touching.positive
  refine ⟨stream.tokenAt raw, stream.tokenAt (raw + count - 1), ?_, ?_, rfl, rfl, rfl, fun many => ?_⟩
  · simp [block, List.head?_range', positive.ne']
  · simp [block, List.getLast?_range', positive.ne']
  · rw [block, List.length_map, List.length_range'] at many
    rcases composes with one | makes
    · exact absurd one (Nat.ne_of_gt many)
    · exact ((pieces_of_makes worded makes).resolve_left (Nat.ne_of_gt many)).2

/-- What a token of a tree covers is lexed again as the tokens that it is made of. -/
theorem relexes_mergedToken {text : String} {kind : Kind} (composes : (lex text).Composes raw (kind, count)) :
    (mergedToken (lex text) kind raw count).range.Relexes text ((lex text).block raw count) ∨
      ∃ token, (lex text).block raw count = [token] ∧ token.kind = .eof := by
  have single (one : count = 1) : (lex text).block raw count = [(lex text).tokenAt raw] := by rw [one]; rfl
  by_cases one : count = 1
  · by_cases ended : (lex text).kindAt raw = .eof
    · exact .inr ⟨_, single one, ended⟩
    · refine .inl ?_
      rw [single one, one]
      have member : (lex text).tokenAt raw ∈ tokenize text := by
        have among : (lex text).tokenAt raw ∈ (lex text).tokens := Array.getElem_mem _
        simpa [tokens_lex] using among
      exact relexes_of_mem member ended
  · refine .inl ?_
    have makes := composes.resolve_left one
    have among := ((pieces_of_makes (worded_lex text) makes).resolve_left one).1
    have fits := fits_lex text
    have touching : (TokenCursor.mk (lex text) raw).Touching count := composes.touching
    have reads := slice_mergedToken fits composes
    have length : ((mergedToken (lex text) kind raw count).range.slice (lex text).text).utf8ByteSize = _ :=
      Span.utf8ByteSize_slice (forward_of_touching fits touching) (fits.start_at _) (fits.stop_at _)
    rw [reads, ← join_pieces] at length
    rw [text_lex, ← join_pieces] at reads
    rw [Span.Relexes, reads, tokenize_joined _ among, length,
      ← alone_block fits (Nat.add_zero _).symm fun n inside => touching.joint n inside]
    rfl

end TokenStream

private theorem Tree.token_of_leaf {tree : Tree} {leaf : Tree.Leaf} (member : leaf ∈ tree.leaves) :
    leaf.record.toToken ∈ tree.tokens.toList.map TokenRecord.toToken := by
  obtain ⟨index, inside, rfl⟩ := List.mem_map.mp member
  replace inside : index < tree.tokens.size := List.mem_range.mp inside
  rw [Leaf.record, Array.getD, dif_pos inside]
  exact List.mem_map_of_mem (Array.getElem_mem_toList inside)

/-- Each token of a tree is made of tokens of the stream that make it up. -/
theorem mergedToken_of_mem {stream : TokenStream} {raw : Nat} {tokens : List (Kind × Nat)} (spells : stream.Spells raw tokens)
    {token : Token} (member : token ∈ mergedTokens stream raw tokens) :
    ∃ raw kind count, token = mergedToken stream kind raw count ∧ stream.Composes raw (kind, count) := by
  induction tokens generalizing raw with
  | nil => cases member
  | cons first rest ih =>
    obtain ⟨composes, spells⟩ := spells
    rcases List.mem_cons.mp member with rfl | later
    · exact ⟨raw, first.1, first.2, rfl, composes⟩
    · exact ih spells later

end Blocks

open LosslessJava.Parser in
/-- Every token of a text but the end of input is lexed again from its own text, and every token of a tree as the
tokens that it is made of. -/
theorem tokenize_relexes (text : String) : Relexes text := by
  refine ⟨fun token member more => relexes_of_mem member more, fun {entry options parse} parsed leaf member => ?_⟩
  rw [EntryPoint.parse_eq] at parsed
  obtain ⟨state, ran, built⟩ := Parse.run_ok parsed
  obtain ⟨steps, tree, given, made, rfl⟩ := Parse.ofState_ok built
  have run := Program.evaluates_of_exec ran
  have unknown : ∀ cursor ∈ (none : Option TokenCursor), cursor = State.cursor ⟨.lex text, options⟩ {} := by simp
  have spelled := run.spelled rfl (entry.rule_has : Has Program.blind _ _ _).holds unknown (.of_start _)
  obtain ⟨leaves, -⟩ := BuildStep.toTree_leaves made
  rw [Event.buildSteps_tokens given] at leaves
  have stands := Tree.token_of_leaf member
  rw [leaves] at stands
  obtain ⟨raw, kind, count, same, composes⟩ := mergedToken_of_mem spelled.spells stands
  have found := TokenStream.block_infix composes.touching
  rw [tokens_lex] at found
  rw [Tree.Leaf.textRange, same]
  exact ⟨_, found, TokenStream.joins_block (worded_lex text) composes, TokenStream.relexes_mergedToken composes⟩

/-- The operator of a shift with an assignment is made of four tokens, and its text is lexed as these. -/
theorem tokenize_relexes_ushrEq :
    ∃ parse, EntryPoint.expression.parse "a>>>=b" {} = .ok parse ∧ ∃ leaf ∈ parse.tree.leaves, leaf.kind = .ushrEq ∧
      ∃ block, block <:+: tokenize "a>>>=b" ∧ block.length = 4 ∧ leaf.textRange.Relexes "a>>>=b" block := by
  have found : Parse.givesWithin 300 (fun parse => parse.tree.leaves.any fun leaf =>
      leaf.kind == .ushrEq && leaf.textRange == ⟨1, 5⟩) Grammar.expressionRoot (.lex "a>>>=b") {} = true := by decide +kernel
  obtain ⟨parse, ran, some⟩ := Parse.run_of_givesWithin found
  have parsed : EntryPoint.expression.parse "a>>>=b" {} = .ok parse := ran
  obtain ⟨leaf, member, same⟩ := List.any_eq_true.mp some
  simp only [Bool.and_eq_true, beq_iff_eq] at same
  obtain ⟨block, among, joins, relexes⟩ := (tokenize_relexes "a>>>=b").leaf parsed leaf member
  have relexes : leaf.textRange.Relexes "a>>>=b" block := by
    refine relexes.resolve_right fun ⟨token, single, ended⟩ => ?_
    subst single
    obtain ⟨_, _, head, last, range, -⟩ := joins
    cases head
    cases last
    have other : ∀ token ∈ tokenize "a>>>=b", token.kind = .eof → token.range.cover token.range ≠ ⟨1, 5⟩ := by decide +kernel
    exact other token (among.mem (List.mem_singleton_self _)) ended (range.symm.trans same.2)
  have lexed : (tokenize ((⟨1, 5⟩ : Span).slice "a>>>=b")).length = 5 := by decide +kernel
  refine ⟨parse, parsed, leaf, member, same.1, block, among, ?_, relexes⟩
  rw [Span.Relexes, same.2] at relexes
  simpa [relexes] using lexed

end LosslessJava
