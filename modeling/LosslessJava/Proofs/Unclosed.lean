import LosslessJava.Proofs.Attachment
import LosslessJava.Proofs.Elements
import LosslessJava.Proofs.LineLiterals
import LosslessJava.Proofs.Relexing

/-! Literals that the end of the text leaves open. Each of them is an unknown token that reaches to the end, and no
parse in which such a token stands is without a diagnostic. A block comment that is left open is trivia like one that is
closed, and nothing is told of it. -/

namespace LosslessJava

open Lexer Quotation

namespace Quotation

/-- The content of a text block up to the end of the text, with no three quotes that close it. -/
inductive Unbounded : List Char → Prop where
  | nil : Unbounded []
  | dangling : Unbounded ['\\']
  | escaped {c rest} (more : Unbounded rest) : Unbounded ('\\' :: c :: rest)
  | plain {c rest} (bare : c ≠ '\\') (onward : ¬ ['\x22', '\x22', '\x22'] <+: c :: rest) (more : Unbounded rest) :
      Unbounded (c :: rest)

/-- A literal from its opening quote to the end of the text, which leaves it open. -/
inductive LeftOpen : List Char → Prop where
  | line {mark content} (among : mark ∈ lineMarks) (plain : ¬ ['\x22', '\x22', '\x22'] <+: mark.1 :: content)
      (unclosed : Unfinished mark.1 content []) : LeftOpen (mark.1 :: content)
  | block {blanks content} (blank : ∀ c ∈ blanks, isBlank c = true) (broken : ∀ c ∈ content.head?, isLineBreak c = true)
      (unclosed : Unbounded content) : LeftOpen ('\x22' :: '\x22' :: '\x22' :: (blanks ++ content))

private theorem Unbounded.blockContent_eq {content : List Char} (unclosed : Unbounded content) :
    blockContent false content = (false, content.length) := by
  induction unclosed with
  | nil => rfl
  | dangling => rfl
  | escaped more ih => simp [blockContent, ih]
  | @plain c rest bare onward more ih =>
    have open' : (c == '\x22' && rest.take 2 == ['\x22', '\x22']) = false := by
      rw [Bool.eq_false_iff]
      intro closing
      simp only [Bool.and_eq_true, beq_iff_eq] at closing
      apply onward
      rw [closing.1, ← closing.2]
      exact List.cons_prefix_cons.mpr ⟨rfl, List.take_prefix 2 rest⟩
    simp [blockContent, bare, open', ih]

private theorem block_of_unbounded {blanks content : List Char} (blank : ∀ c ∈ blanks, isBlank c = true)
    (broken : ∀ c ∈ content.head?, isLineBreak c = true) (unclosed : Unbounded content) :
    block (blanks ++ content) = (.unknown, (blanks ++ content).length) := by
  have front : Measure.run isBlank (blanks ++ content) = blanks.length :=
    Measure.run_append blank fun c first => not_blank_of_lineBreak (broken c first)
  rw [block_eq, Reading.behind, front, List.drop_left, List.length_append]
  cases content with
  | nil => rfl
  | cons c rest =>
    have read := unclosed.blockContent_eq
    rw [blockTail, if_pos (broken c rfl), read]
    rfl

end Quotation

/-- A literal that is left open is an unknown token to the end of the text. -/
theorem Lexer.lexeme_of_leftOpen {c : Char} {rest : List Char} (unclosed : LeftOpen (c :: rest)) :
    lexeme c rest = (.unknown, rest.length) := by
  generalize literal : c :: rest = chars at unclosed
  cases unclosed with
  | line among plain unclosed =>
    cases literal
    have read := unclosed.line_eq
    rw [List.append_nil] at read
    rw [lexeme_of_mark among plain, onLine, read]
    rfl
  | @block blanks content blank broken unclosed =>
    cases literal
    have word : Text.isIdentifierStart '\x22' = false := by decide +kernel
    have read := block_of_unbounded blank broken unclosed
    have string : lexeme '\x22' ('\x22' :: '\x22' :: (blanks ++ content)) =
        Quotation.string ('\x22' :: '\x22' :: (blanks ++ content)) := by
      rw [lexeme, if_neg (by decide), if_neg (by simp [word]), if_neg (by decide), if_pos (beq_self_eq_true _)]
    rw [string, string_of_block rfl]
    simp only [Reading.behind, List.drop_succ_cons, List.drop_zero, read, List.length_cons]
    rw [Nat.add_comm]

/-- A text that the lexer comes to the end of inside a literal. -/
def EndsInLiteral (text : String) : Prop :=
  ∃ token ∈ tokenize text, ∃ before rest, text.toList = before ++ rest ∧ token.range.start = width before ∧ LeftOpen rest

/-- The literal that is left open is an unknown token up to the end of the text. -/
theorem unknown_of_endsInLiteral {text : String} (ends : EndsInLiteral text) :
    ∃ token ∈ tokenize text, token.kind = .unknown ∧ token.range.stop = text.utf8ByteSize := by
  obtain ⟨token, member, before, rest, split, start, unclosed⟩ := ends
  obtain ⟨c, rest, rfl⟩ : ∃ c others, rest = c :: others := by cases unclosed <;> exact ⟨_, _, rfl⟩
  have more : token.kind ≠ .eof := by
    intro ended
    have last := start_of_eof member ended
    rw [start, split, width_append, width_cons] at last
    have size := Char.utf8Size_pos c
    omega
  obtain ⟨earlier, front, lead, d, others, split', cut, -⟩ := cut_of_mem member more
  rw [Nat.zero_add] at cut
  have covers := cut.covers split'
  rw [covers.range] at start
  obtain ⟨rfl, same⟩ := split_unique (covers.split.symm.trans split) start
  rw [List.cons_append, List.take_append_drop] at same
  cases same
  have read := lexeme_of_leftOpen unclosed
  refine ⟨token, member, cut.kind.trans (by rw [read]), ?_⟩
  rw [covers.range, read, List.take_length, ← width_append, ← split, utf8ByteSize_eq]

/-- What is spelled as a kind is spelled is not taken for an unknown token. -/
theorem Lexer.known_of_named : ∀ kind ∈ Kind.all, ∀ word ∈ kind.text?,
    word.toList.head?.all (fun c => (lexeme c word.toList.tail).1 != .unknown) = true := by decide +kernel

namespace TokenStream

private theorem named_ne_textAt {text : String} {index : Nat} (unknown : (lex text).kindAt index = .unknown) {kind : Kind}
    {word : String} (named : kind.text? = some word) : (lex text).textAt index ≠ word := by
  intro reads
  have member : (lex text).tokenAt index ∈ tokenize text := by
    have among : (lex text).tokenAt index ∈ (lex text).tokens := Array.getElem_mem _
    simpa [tokens_lex] using among
  have unknown : ((lex text).tokenAt index).kind = .unknown := unknown
  obtain ⟨earlier, front, lead, c, rest, split, cut, -⟩ := cut_of_mem member (by simp [unknown])
  rw [Nat.zero_add] at cut
  have covers := cut.covers split
  have body : (lex text).textAt index = String.ofList (c :: rest.take (lexeme c rest).2) := by
    rw [textAt, text_lex, covers.range]
    exact slice_of_split (covers.split.trans (List.append_assoc ..).symm)
  have chars : word.toList = c :: rest.take (lexeme c rest).2 := by rw [← reads, body, String.toList_ofList]
  have known := known_of_named kind (Kind.mem_all kind) word named
  rw [chars, List.head?_cons, Option.all_some, List.tail_cons, lexeme_take, bne_iff_ne] at known
  exact known (cut.kind.symm.trans unknown)

/-- An unknown token of a stream is one of those that a tree's tokens are made of, as which it stands in the tree. -/
theorem unknown_of_spells {text : String} {raw index : Nat} {tokens : List (Kind × Nat)} (spells : (lex text).Spells raw tokens)
    (shows : (lex text).ShowsAll raw tokens) (before : raw ≤ index) (inside : index < raw + (tokens.map Prod.snd).sum)
    (unknown : (lex text).kindAt index = .unknown) : .unknown ∈ tokens.map Prod.fst := by
  induction tokens generalizing raw with
  | nil => simp at inside; omega
  | cons first rest ih =>
    obtain ⟨kind, count⟩ := first
    obtain ⟨composes, spells⟩ := spells
    obtain ⟨one, shows⟩ := shows
    simp only [List.map_cons, List.sum_cons, List.mem_cons] at inside ⊢
    by_cases later : raw + count ≤ index
    · exact .inr (ih spells shows later (by omega))
    · left
      have single : count = 1 := by
        rcases composes with single | makes
        · exact single
        rcases pieces_of_makes (worded_lex text) makes with single | ⟨among, -⟩
        · exact single
        -- None of the tokens that are joined to others is an unknown one.
        have kinds : ∀ pieces ∈ joinedPieces, .unknown ∉ pieces.map Prod.fst := by decide
        have piece : ((lex text).kindAt index, (lex text).textAt index) ∈ (lex text).pieces raw count :=
          List.mem_map.mpr ⟨index, List.mem_range'_1.mpr ⟨before, by omega⟩, rfl⟩
        exact absurd (List.mem_map.mpr ⟨_, piece, unknown⟩) (kinds _ among)
      subst single
      obtain rfl : raw = index := by omega
      cases named : kind.text? with
      | none => exact unknown.symm.trans (one.own named).2.symm
      | some word =>
        have reads := one.reads word named
        rw [spelling_one] at reads
        exact absurd reads (named_ne_textAt unknown named)

end TokenStream

variable {entry : EntryPoint} {text : String} {options : ParseOptions} {parse : Parse}

private theorem Parse.unknown_leaf (lenient : options.mode = .lenient) (parsed : entry.parse text options = .ok parse) {token : Token}
    (member : token ∈ tokenize text) (unknown : token.kind = .unknown) : ∃ leaf ∈ parse.tree.leaves, leaf.kind = .unknown := by
  rw [EntryPoint.parse_eq] at parsed
  obtain ⟨state, ran, built⟩ := Parse.run_ok parsed
  obtain ⟨steps, tree, given, made, rfl⟩ := Parse.ofState_ok built
  have run := Parser.Program.evaluates_of_exec ran
  have unseen : ∀ cursor ∈ (none : Option TokenCursor), cursor = Parser.State.cursor ⟨.lex text, options⟩ {} := by simp
  have spelled := run.spelled rfl (entry.rule_has : Parser.Has Parser.Program.blind _ _ _).holds unseen (.of_start _)
  have shown := run.shown (worded_lex text) lenient rfl (entry.rule_has : Parser.Has Parser.Program.sincere _ _ _).holds trivial
    (.of_start _)
  obtain ⟨leaves, -⟩ := BuildStep.toTree_leaves made
  rw [Event.buildSteps_tokens given] at leaves
  have whole : (state.tokens.map Prod.snd).sum = (entry.share (tokenize text)).length := by
    cases entry.settles text options with
    | gives ran' recorded =>
      cases ran.symm.trans ran'.exec_eq
      rcases recorded with ⟨one, -⟩ | ⟨-, ⟨-, strict, -⟩, -⟩
      · obtain ⟨kind, children, -, -, tokens, sum⟩ := one.emits
        rw [Parser.State.tokens, ← tokens, sum]
      · cases lenient.symm.trans strict
    | halts ran' => cases ran.symm.trans ran'.exec_eq
    | sticks cause => cases ran.symm.trans (Grammar.exec_eq_none_of_sticks cause)
  obtain ⟨index, inside, rfl⟩ := List.getElem_of_mem member
  have early : index < (entry.share (tokenize text)).length := by
    cases entry with
    | file => exact inside
    | expression =>
      obtain ⟨front, last, split, -, ended, -⟩ := (tokenize_tiles text).ended
      have before : index ≠ front.length := by
        rintro rfl
        simp [split, ended] at unknown
      simp only [EntryPoint.share, split, List.dropLast_concat, List.length_append, List.length_singleton] at inside ⊢
      omega
  have kind : (TokenStream.lex text).kindAt index = .unknown := by
    rw [TokenStream.kindAt, tokenAt_lex inside]
    exact unknown
  have found := TokenStream.unknown_of_spells spelled.spells shown.shows (Nat.zero_le _) (by omega) kind
  have kinds := congrArg (List.map Token.kind) leaves
  rw [Tree.map_kind_mergedTokens, List.map_map] at kinds
  change _ ∈ (state.events.toList.filterMap Event.token?).map Prod.fst at found
  rw [← kinds] at found
  obtain ⟨record, among, same⟩ := List.mem_map.mp found
  obtain ⟨place, small, rfl⟩ := List.getElem_of_mem among
  have small : place < tree.tokens.size := small
  refine ⟨⟨tree, place⟩, List.mem_map.mpr ⟨place, List.mem_range.mpr small, rfl⟩, ?_⟩
  simpa [Tree.Leaf.kind, Tree.Leaf.record, small] using same

/-- A text that ends in a literal is not parsed without a diagnostic. -/
theorem Parse.endsInLiteral_told (lenient : options.mode = .lenient) (parsed : entry.parse text options = .ok parse)
    (ends : EndsInLiteral text) : parse.diagnostics ≠ [] := by
  obtain ⟨token, member, unknown, -⟩ := unknown_of_endsInLiteral ends
  exact (Parse.faults_are_told parsed).1 (.inr (.inl (Parse.unknown_leaf lenient parsed member unknown)))

/-- A string literal without its closing quote takes the rest of its line, here up to the end. -/
theorem Parse.endsInLiteral_told_string : EndsInLiteral "import a;\"b;" ∧
    ∃ parse, EntryPoint.file.parse "import a;\"b;" {} = .ok parse ∧ parse.diagnostics ≠ [] := by
  have ends : EndsInLiteral "import a;\"b;" := by
    have member : { kind := .unknown, range := ⟨9, 12⟩ } ∈ tokenize "import a;\"b;" := by decide +kernel
    refine ⟨_, member, "import a;".toList, "\"b;".toList, by decide +kernel, by decide +kernel, ?_⟩
    have content : Content '\x22' ['b', ';'] := .plain (by decide) (by decide) rfl (.plain (by decide) (by decide) rfl .nil)
    have among : ('\x22', Kind.stringLiteral) ∈ lineMarks := by decide
    exact .line among (by decide) (.line content nofun)
  have found : Parse.givesWithin 300 (fun _ => true) Grammar.compilationUnit (.lex "import a;\"b;") {} = true := by decide +kernel
  obtain ⟨parse, ran, -⟩ := Parse.run_of_givesWithin found
  have parsed : EntryPoint.file.parse "import a;\"b;" {} = .ok parse := ran
  exact ⟨ends, parse, parsed, Parse.endsInLiteral_told rfl parsed ends⟩

/-- A block comment that is not closed holds the rest of a text, and no diagnostic tells of it. -/
theorem Parse.openComment_untold :
    ∃ parse, EntryPoint.file.parse "/*import a;" {} = .ok parse ∧ parse.diagnostics = [] ∧
      tokenize "/*import a;" = [{ kind := .eof, range := ⟨11, 11⟩, leading := [⟨.multiLineComment, 11⟩] }] := by
  have found : Parse.givesWithin 300 (fun parse => parse.diagnostics.isEmpty) Grammar.compilationUnit (.lex "/*import a;") {} = true := by
    decide +kernel
  obtain ⟨parse, ran, clean⟩ := Parse.run_of_givesWithin found
  exact ⟨parse, ran, by simpa using clean, by decide +kernel⟩

end LosslessJava
