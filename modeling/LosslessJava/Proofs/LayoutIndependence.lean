import LosslessJava.Proofs.Spelling

/-! Layout does not matter. Of two token streams that differ in layout only, the parses come to the same
end: both stop for the same reason, or both give trees that look the same and complaints that say the
same about the same tokens. Both runs record the same, and what is joined to one token reads the same. -/

namespace LosslessJava

open LosslessJava.Parser

namespace Tree

/-- Two tokens that read the same and stand at the same place of their trees. -/
structure TokenRecord.Alike (text other : String) (one two : TokenRecord) : Prop where
  kind : one.kind = two.kind
  text : one.range.slice text = two.range.slice other
  parent : one.parent = two.parent

/-- Two trees of the same nodes, the tokens of which are of the same kinds and read the same. -/
structure Alike (one two : Tree) : Prop where
  nodes : one.nodes = two.nodes
  tokens : List.Forall₂ (TokenRecord.Alike one.text two.text) one.tokens.toList two.tokens.toList
  children : one.children = two.children
  rootId : one.rootId = two.rootId

namespace Builder

variable {text other : String} {b c : Builder}

structure Matches (text other : String) (b c : Builder) : Prop where
  one : b.text = text
  two : c.text = other
  nodes : b.nodes = c.nodes
  tokens : List.Forall₂ (TokenRecord.Alike text other) b.tokens.toList c.tokens.toList
  children : b.children = c.children
  pending : b.pending = c.pending
  opened : b.opened = c.opened
  root : b.root = c.root

theorem ofText_matches : Matches text other (.ofText text) (.ofText other) :=
  ⟨rfl, rfl, rfl, .nil, rfl, rfl, rfl, rfl⟩

namespace Matches

theorem size (both : Matches text other b c) : b.tokens.size = c.tokens.size := by
  simpa using both.tokens.length_eq

private theorem startNode (both : Matches text other b c) (kind : Kind) :
    Both (Matches text other) (b.startNode kind) (c.startNode kind) := by
  unfold Builder.startNode
  rw [← both.opened, ← both.size, ← both.pending]
  split
  · exact .ok { both with pending := rfl, opened := rfl }
  · exact .error

private theorem token (both : Matches text other b c) {token token' : Token} (kind : token.kind = token'.kind)
    (reads : token.range.slice text = token'.range.slice other) :
    Both (Matches text other) (b.token token) (c.token token') := by
  unfold Builder.token
  rw [← both.size, ← kind, ← both.pending]
  split
  · refine .ok { both with tokens := ?_, pending := rfl }
    simp only [Array.toList_push]
    exact List.rel_append both.tokens (.cons ⟨kind, reads, rfl⟩ .nil)
  · exact .error

private theorem forall₂_modify {α β : Type} {related : α → β → Prop} {as : List α} {bs : List β} {f : α → α} {g : β → β}
    (all : List.Forall₂ related as bs) (kept : ∀ a b, related a b → related (f a) (g b)) (index : Nat) :
    List.Forall₂ related (as.modify index f) (bs.modify index g) := by
  induction all generalizing index with
  | nil => cases index <;> exact .nil
  | cons first rest ih =>
    cases index with
    | zero => exact .cons (kept _ _ first) rest
    | succ index => exact .cons first (ih index)

private theorem adopt (both : Matches text other b c) (parent : Nat) (child : Child) :
    Matches text other (b.adopt parent child) (c.adopt parent child) := by
  cases child with
  | node id => exact { both with nodes := congrArg (fun nodes => nodes.modify id fun r => { r with parent := some parent }) both.nodes }
  | token index =>
    have adopted (r q : TokenRecord) (reads : TokenRecord.Alike text other r q) :
        TokenRecord.Alike text other { r with parent := some parent } { q with parent := some parent } :=
      ⟨reads.kind, reads.text, rfl⟩
    refine { both with tokens := ?_ }
    simp only [Builder.adopt, Array.toList_modify]
    exact forall₂_modify both.tokens adopted index

private theorem adoptAll (both : Matches text other b c) (parent : Nat) (children : Array Child) :
    Matches text other (children.foldl (Builder.adopt parent) b) (children.foldl (Builder.adopt parent) c) := by
  simp only [← Array.foldl_toList]
  induction children.toList generalizing b c with
  | nil => exact both
  | cons child rest ih => exact ih (both.adopt parent child)

theorem finishNode (both : Matches text other b c) : Both (Matches text other) b.finishNode c.finishNode := by
  unfold Builder.finishNode
  rw [← both.opened]
  split
  · exact .error
  · next top rest _ =>
    have closed : Matches text other { b with opened := rest, pending := b.pending.take top.firstChild }
        { c with opened := rest, pending := b.pending.take top.firstChild } :=
      { both with pending := rfl, opened := rfl }
    have adopted := closed.adoptAll b.nodes.size (b.pending.extract top.firstChild b.pending.size)
    rw [← congrArg Array.size both.nodes, ← both.pending]
    dsimp only
    generalize Array.foldl _ { b with opened := rest, pending := b.pending.take top.firstChild } _ = one at adopted ⊢
    generalize Array.foldl _ { c with opened := rest, pending := b.pending.take top.firstChild } _ = two at adopted ⊢
    rw [← adopted.nodes, ← adopted.size, ← adopted.children, ← adopted.pending]
    split
    · exact .ok { adopted with nodes := rfl, children := rfl, pending := rfl, root := rfl }
    · exact .ok { adopted with nodes := rfl, children := rfl, pending := rfl }

private theorem toTree (both : Matches text other b c) (rootId : Nat) : (b.toTree rootId).Alike (c.toTree rootId) where
  nodes := both.nodes
  tokens := by
    rw [Builder.toTree, Builder.toTree, both.one, both.two]
    exact both.tokens
  children := both.children
  rootId := rfl

private theorem finish (both : Matches text other b c) : Both Tree.Alike b.finish c.finish := by
  unfold Builder.finish
  rw [← both.opened, ← both.root, ← both.pending]
  split
  · split
    · exact .ok (both.toTree _)
    · have wrapped (pending : Array Child) (opened : List OpenNode) : Matches text other
          { b with pending, opened, root := none } { c with pending, opened, root := none } :=
        { both with pending := rfl, opened := rfl, root := rfl }
      refine (wrapped _ _).finishNode.map fun one two finished => ?_
      rw [← finished.nodes]
      exact finished.toTree _
  · exact .error

end Matches

end Builder

end Tree

section Trees

open LosslessJava.Tree (Builder)

variable {one two : TokenStream}

/-- The steps build trees of the same shape over streams that differ in layout only. -/
theorem BuildStep.runAll_matches (alike : one.Alike two) (fits : one.Fits) (fits' : two.Fits) {steps : List BuildStep}
    {raw : Nat} (spells : one.Spells raw (steps.filterMap token?)) (spells' : two.Spells raw (steps.filterMap token?))
    {b c : Builder} (both : b.Matches one.text two.text c) :
    Both (Builder.Matches one.text two.text) (runAll one steps raw b) (runAll two steps raw c) := by
  induction steps generalizing raw b c with
  | nil => exact .ok both
  | cons step rest ih =>
    cases step with
    | start kind => exact (both.startNode kind).bind fun _ _ both => ih spells spells' both
    | finish => exact both.finishNode.bind fun _ _ both => ih spells spells' both
    | token kind count =>
      have kinds : (mergedToken one kind raw count).kind = (mergedToken two kind raw count).kind := rfl
      have reads : (mergedToken one kind raw count).range.slice one.text =
          (mergedToken two kind raw count).range.slice two.text := by
        rw [TokenStream.slice_mergedToken fits spells.1, TokenStream.slice_mergedToken fits' spells'.1]
        simp only [TokenStream.spelling, alike.text]
      exact (both.token kinds reads).bind fun _ _ both => ih spells.2 spells'.2 both

private theorem BuildStep.toTree_alike (alike : one.Alike two) (fits : one.Fits) (fits' : two.Fits) {steps : List BuildStep}
    (spells : one.Spells 0 (steps.filterMap token?)) (spells' : two.Spells 0 (steps.filterMap token?)) :
    Both Tree.Alike (toTree one steps) (toTree two steps) :=
  (runAll_matches alike fits fits' spells spells' Builder.ofText_matches).bind fun _ _ both => both.finish

end Trees

namespace Parse

/-- Two parses with trees of the same shape, whose tokens are of the same kinds and read the same, with
complaints that say the same about the same tokens, and in the same state. -/
structure Alike (one two : Parse) : Prop where
  tree : one.tree.Alike two.tree
  diagnostics : List.Forall₂ Diagnostic.Alike one.diagnostics two.diagnostics
  state : one.state = two.state
  mode : one.mode = two.mode

private theorem ofState_alike {one two : Env} {s t : State} (env : one.Alike two) (fits : one.stream.Fits)
    (fits' : two.stream.Fits) (alike : s.Alike t) (spelled : s.Spelled one) (spelled' : t.Spelled two) :
    Both Parse.Alike (ofState one s) (ofState two t) := by
  have spells := spelled.spells
  have spells' := spelled'.spells
  obtain ⟨diagnostics, told, rfl⟩ := alike
  unfold ofState
  dsimp only
  cases given : Event.buildSteps s.events with
  | none => exact .error
  | some steps =>
    rw [State.tokens, ← Event.buildSteps_tokens given] at spells spells'
    have trees := BuildStep.toTree_alike env.stream fits fits' spells spells'
    dsimp only
    generalize BuildStep.toTree one.stream steps = first at trees ⊢
    generalize BuildStep.toTree two.stream steps = second at trees ⊢
    cases trees with
    | error => exact .error
    | ok tree => exact .ok ⟨tree, told, rfl, congrArg ParseOptions.mode env.options⟩

variable {one two : TokenStream} {rule : Grammar.Rule Unit}

/-- A rule that does not tell the streams apart comes to an end over both or over none. -/
theorem exec_alike (blind : Program.Blind none rule) (alike : one.Alike two) {options : ParseOptions} :
    (∃ r q, rule.exec ⟨one, options⟩ Grammar.rule {} = some r ∧ rule.exec ⟨two, options⟩ Grammar.rule {} = some q ∧
      r.Alike q) ∨
    rule.exec ⟨one, options⟩ Grammar.rule {} = none ∧ rule.exec ⟨two, options⟩ Grammar.rule {} = none := by
  have env : Env.Alike ⟨one, options⟩ ⟨two, options⟩ := ⟨alike, rfl⟩
  have back : Env.Alike ⟨two, options⟩ ⟨one, options⟩ := ⟨alike.symm, rfl⟩
  have start : State.Alike {} {} := ⟨#[], .nil, rfl⟩
  cases given : rule.exec ⟨one, options⟩ Grammar.rule {} with
  | some r =>
    obtain ⟨q, run, both⟩ := (Program.evaluates_of_exec given).alike env blind start
    exact .inl ⟨r, q, rfl, run.exec_eq, both⟩
  | none =>
    refine .inr ⟨rfl, ?_⟩
    by_contra some
    obtain ⟨q, given'⟩ := Option.ne_none_iff_exists'.mp some
    obtain ⟨r, run, -⟩ := (Program.evaluates_of_exec given').alike back blind start
    cases given.symm.trans run.exec_eq

private theorem run_alike (blind : Program.Blind none rule) (alike : one.Alike two) (fits : one.Fits) (fits' : two.Fits)
    (options : ParseOptions) : Both Parse.Alike (run rule one options) (run rule two options) := by
  have unknown {env : Env} : ∀ cursor ∈ (none : Option TokenCursor), cursor = State.cursor env {} := by simp
  unfold run
  rcases exec_alike blind alike with ⟨r, q, given, given', both⟩ | ⟨given, given'⟩
  · rw [given, given']
    cases both with
    | error => exact .error
    | @ok r q both =>
      have spelled := (Program.evaluates_of_exec given).spelled rfl blind unknown (.of_start _)
      have spelled' := (Program.evaluates_of_exec given').spelled rfl blind unknown (.of_start _)
      exact ofState_alike ⟨alike, rfl⟩ fits fits' both.2 spelled spelled'
  · rw [given, given']
    exact .error

end Parse

/-- Layout does not matter: given tokens that differ in layout only, both parses stop for the same reason, or
both give trees of the same shape and complaints that say the same about the same tokens. -/
theorem parseTokens_alike {text other : String} {tokens tokens' : Array Token} (options : ParseOptions)
    (alike : (TokenStream.ofTokens text tokens).Alike (.ofTokens other tokens'))
    (fits : (TokenStream.ofTokens text tokens).Fits) (fits' : (TokenStream.ofTokens other tokens').Fits) :
    Both Parse.Alike (parseTokens text tokens options) (parseTokens other tokens' options) :=
  have blind : Has Program.blind .nothing (0 + 80) Grammar.compilationUnit := inferInstance
  Parse.run_alike blind.holds alike fits fits' options

theorem parseTokens_alike_spaced :
    ∃ parse parse', parseTokens "import a.b;" (tokenize "import a.b;").toArray {} = .ok parse ∧
      parseTokens "import a . b ;" (tokenize "import a . b ;").toArray {} = .ok parse' ∧ parse.Alike parse' := by
  have both : Both Parse.Alike
      (parseTokens "import a.b;" (tokenize "import a.b;").toArray {})
      (parseTokens "import a . b ;" (tokenize "import a . b ;").toArray {}) :=
    parseTokens_alike {}
      ⟨by decide +kernel, by decide +kernel, by decide +kernel, by decide +kernel, by decide +kernel⟩
      ⟨by decide +kernel, by decide +kernel, by decide +kernel⟩
      ⟨by decide +kernel, by decide +kernel, by decide +kernel⟩
  have found : Parse.givesWithin 200 (fun _ => true) Grammar.compilationUnit
      (.ofTokens "import a.b;" (tokenize "import a.b;").toArray) {} = true := by decide +kernel
  obtain ⟨parse, ran, -⟩ := Parse.run_of_givesWithin found
  have first : parseTokens "import a.b;" (tokenize "import a.b;").toArray {} = .ok parse := ran
  rw [first] at both
  generalize second : parseTokens "import a . b ;" (tokenize "import a . b ;").toArray {} = other at both
  obtain ⟨holds⟩ := both
  exact ⟨parse, _, first, rfl, holds⟩

end LosslessJava
