import LosslessJava.Proofs.PredictedParses
import LosslessJava.Proofs.TypeParts
import LosslessJava.Proofs.Wording

/-! Trees that are written down with the texts of their tokens. A sketch stands for a row of shapes whose tokens are
made of one token of the stream each; where the texts of these are those of the sketch, the tree that is built of
the shapes is the one that was sketched. -/

namespace LosslessJava

open LosslessJava.Parser

/-- A tree as one would write it down: kinds of nodes, and tokens with their kinds and texts. -/
inductive Sketch where
  | token (kind : Kind) (text : String)
  | node (kind : Kind) (children : List Sketch)

/-- The kinds and texts of the tokens of a text. -/
def wordsOf (text : String) : List (Kind × String) :=
  (tokenize text).map fun token => (token.kind, token.range.slice text)

namespace Sketch

mutual

/-- The shape of a sketch. -/
def shape : Sketch → Shape
  | .token kind _ => .token kind 1
  | .node kind children => .node kind (shapes children)

def shapes : List Sketch → List Shape
  | [] => []
  | sketch :: rest => sketch.shape :: shapes rest

end

mutual

def texts : Sketch → List String
  | .token _ text => [text]
  | .node _ children => textsAll children

def textsAll : List Sketch → List String
  | [] => []
  | sketch :: rest => sketch.texts ++ textsAll rest

end

mutual

/-- The kinds and texts of the tokens, in their order. -/
def words : Sketch → List (Kind × String)
  | .token kind text => [(kind, text)]
  | .node _ children => wordsAll children

def wordsAll : List Sketch → List (Kind × String)
  | [] => []
  | sketch :: rest => sketch.words ++ wordsAll rest

end

open LosslessJava.Tree in
mutual

/-- An element is what was sketched: the kinds agree, and the texts of the tokens. -/
def Depicts : Sketch → Element → Prop
  | .token kind text, .leaf l => l.kind = kind ∧ l.text = text
  | .node kind children, .node n => n.kind = kind ∧ DepictsAll children n.elements
  | _, _ => False

def DepictsAll : List Sketch → List Element → Prop
  | [], [] => True
  | sketch :: rest, element :: others => sketch.Depicts element ∧ DepictsAll rest others
  | _, _ => False

end

/-- Induction over rows of sketches, from the last to the first and from the bottom up. -/
@[elab_as_elim]
theorem row_induction {motive : List Sketch → Prop} (nil : motive [])
    (token : ∀ kind text rest, motive rest → motive (.token kind text :: rest))
    (node : ∀ kind children rest, motive children → motive rest → motive (.node kind children :: rest)) :
    ∀ row, motive row
  | [] => nil
  | .token kind text :: rest => token kind text rest (row_induction nil token node rest)
  | .node kind children :: rest =>
    node kind children rest (row_induction nil token node children) (row_induction nil token node rest)

@[simp] theorem shapes_append (front back : List Sketch) : shapes (front ++ back) = shapes front ++ shapes back := by
  induction front with
  | nil => rfl
  | cons sketch rest ih => simp [shapes, ih]

@[simp] theorem textsAll_append (front back : List Sketch) :
    textsAll (front ++ back) = textsAll front ++ textsAll back := by
  induction front with
  | nil => rfl
  | cons sketch rest ih => simp [textsAll, ih]

private theorem wordsAll_texts (row : List Sketch) : (wordsAll row).map Prod.snd = textsAll row := by
  induction row using row_induction with
  | nil => rfl
  | token kind text rest ih => simp [wordsAll, words, textsAll, texts, ih]
  | node kind children rest below ih => simp [wordsAll, words, textsAll, texts, ih, below]

theorem words_texts (sketch : Sketch) : sketch.words.map Prod.snd = sketch.texts := by
  cases sketch with
  | token => rfl
  | node kind children => exact wordsAll_texts children

private theorem wordsAll_kinds (row : List Sketch) : (wordsAll row).map Prod.fst = (Shape.tokensAll (shapes row)).map Prod.fst := by
  induction row using row_induction with
  | nil => rfl
  | token kind text rest ih => simp [wordsAll, words, shapes, shape, Shape.tokensAll, Shape.tokens, ih]
  | node kind children rest below ih =>
    simp [wordsAll, words, shapes, shape, Shape.tokensAll, Shape.tokens, ih, below]

/-- A sketch has the kinds of the tokens of its shape. -/
theorem words_kinds (sketch : Sketch) : sketch.words.map Prod.fst = sketch.shape.tokens.map Prod.fst := by
  have single := wordsAll_kinds [sketch]
  simpa [wordsAll, shapes, Shape.tokensAll] using single

private theorem tokensAll_shapes (row : List Sketch) : ∀ token ∈ Shape.tokensAll (shapes row), token.2 = 1 := by
  induction row using row_induction with
  | nil => simp [shapes, Shape.tokensAll]
  | token kind text rest ih => simpa [shapes, shape, Shape.tokensAll, Shape.tokens] using ih
  | node kind children rest below ih =>
    simp only [shapes, shape, Shape.tokensAll, Shape.tokens, List.mem_append]
    exact fun token member => member.elim (below token) (ih token)

private theorem length_textsAll (row : List Sketch) : (textsAll row).length = (Shape.tokensAll (shapes row)).length := by
  induction row using row_induction with
  | nil => rfl
  | token kind text rest ih => simp [textsAll, texts, shapes, shape, Shape.tokensAll, Shape.tokens, ih, Nat.add_comm]
  | node kind children rest below ih =>
    simp [textsAll, texts, shapes, shape, Shape.tokensAll, Shape.tokens, ih, below]

section Depicting

open LosslessJava.Tree

variable {sketch : Sketch} {row rest front back : List Sketch} {element : Element} {elements : List Element}
  {kind : Kind} {text : String} {children : List Sketch}

theorem depicts_token : (token kind text).Depicts element ↔ ∃ l, element = .leaf l ∧ l.kind = kind ∧ l.text = text := by
  cases element <;> simp [Depicts]

theorem depicts_node :
    (node kind children).Depicts element ↔ ∃ n, element = .node n ∧ n.kind = kind ∧ DepictsAll children n.elements := by
  cases element <;> simp [Depicts]

theorem depictsAll_nil : DepictsAll [] elements ↔ elements = [] := by
  cases elements <;> simp [DepictsAll]

theorem depictsAll_cons : DepictsAll (sketch :: rest) elements ↔
    ∃ element others, elements = element :: others ∧ sketch.Depicts element ∧ DepictsAll rest others := by
  cases elements <;> simp [DepictsAll]

def isNode : Sketch → Bool
  | .token .. => false
  | .node .. => true

/-- The nodes below a node are those that were sketched. -/
theorem children_of_depicts {n : Node} (depicts : DepictsAll row n.elements) :
    List.Forall₂ (fun sketch child => Depicts sketch (.node child)) (row.filter isNode) n.children := by
  rw [show n.children = n.elements.filterMap Element.node? from rfl]
  generalize n.elements = elements at depicts ⊢
  induction row generalizing elements with
  | nil =>
    rw [depictsAll_nil.mp depicts]
    exact .nil
  | cons sketch rest ih =>
    obtain ⟨element, others, rfl, here, later⟩ := depictsAll_cons.mp depicts
    cases sketch with
    | token kind text =>
      obtain ⟨l, rfl, -⟩ := depicts_token.mp here
      exact ih others later
    | node kind children =>
      obtain ⟨child, rfl, -⟩ := depicts_node.mp here
      exact .cons here (ih others later)

end Depicting

end Sketch

namespace Tree

variable {tree : Tree} {stream : TokenStream} {kind : Kind} {children : List Shape} {nodes tokens : Nat}

private theorem Built.text_leaf (built : tree.Built stream kind children)
    (single : ∀ token ∈ Shape.tokensAll children, token.2 = 1) {index : Nat}
    (inside : index < (Shape.tokensAll children).length) : (⟨tree, index⟩ : Leaf).text = stream.textAt index := by
  have merged (raw : Nat) (given : List (Kind × Nat)) (single : ∀ token ∈ given, token.2 = 1) (index : Nat)
      (inside : index < given.length) :
      ((BuildStep.mergedTokens stream raw given)[index]?).map Token.range = some (stream.tokenAt (raw + index)).range := by
    induction given generalizing raw index with
    | nil => cases inside
    | cons token rest ih =>
      obtain ⟨kind, count⟩ := token
      obtain rfl : count = 1 := single _ List.mem_cons_self
      cases index with
      | zero => simp [BuildStep.mergedTokens, BuildStep.mergedToken, Span.cover]
      | succ index =>
        have later := ih (raw + 1) (fun token member => single token (List.mem_cons_of_mem _ member)) index
          (Nat.lt_of_succ_lt_succ inside)
        simpa [BuildStep.mergedTokens, Nat.add_assoc, Nat.add_comm 1] using later
  have found := merged 0 _ single index inside
  rw [← built.leaves, List.getElem?_map, Option.map_map, Option.map_eq_some_iff] at found
  obtain ⟨record, here, range⟩ := found
  have place : (⟨tree, index⟩ : Leaf).record = record := by
    rw [Leaf.record, Array.getD_eq_getD_getElem?, ← Array.getElem?_toList, here, Option.getD_some]
  rw [Leaf.text, Leaf.textRange, place, TokenStream.textAt, ← built.text, ← Nat.zero_add index, ← range]
  rfl

/-- Where the tokens of a row read as sketched, the elements that show it are what was sketched. -/
theorem Shows.depicts {row : List Sketch} (shows : tree.Shows nodes tokens (Sketch.shapes row))
    (reads : ∀ index text, (Sketch.textsAll row)[index]? = some text → (⟨tree, tokens + index⟩ : Leaf).text = text) :
    Sketch.DepictsAll row ((Shape.childrenOf nodes tokens (Sketch.shapes row)).map (Child.element tree)) := by
  induction row using Sketch.row_induction generalizing nodes tokens with
  | nil => trivial
  | token kind text rest ih =>
    refine ⟨⟨?_, reads 0 text rfl⟩, ih shows.later fun index text here => ?_⟩
    · exact shows.leaves 0 (by simp [Sketch.shapes, Sketch.shape, Shape.leafKinds, Shape.tokensAll, Shape.tokens])
    · have there := reads (index + 1) text here
      rwa [← Nat.add_assoc, Nat.add_right_comm] at there
  | node kind children rest below ih =>
    refine ⟨⟨shows.record, ?_⟩, ih shows.later fun index text here => ?_⟩
    · have elements : (⟨tree, nodes + Shape.nodeCounts (Sketch.shapes children)⟩ : Node).elements =
          (Shape.childrenOf nodes tokens (Sketch.shapes children)).map (Child.element tree) := shows.records.elements
      rw [elements]
      refine below shows.below fun index text here => reads index text ?_
      exact List.getElem?_append_left (List.getElem?_eq_some_iff.mp here).1 ▸ here
    · rw [← Sketch.length_textsAll, Nat.add_assoc]
      refine reads _ text ?_
      rw [Sketch.textsAll, Sketch.texts, List.getElem?_append_right (Nat.le_add_right _ _), Nat.add_sub_cancel_left, here]

/-- The tree that is built of the shape of a sketch is the one that was sketched, if the tokens of the stream read so. -/
theorem Built.depicts {row : List Sketch} (built : tree.Built stream kind (Sketch.shapes row))
    (reads : ∀ index text, (Sketch.textsAll row)[index]? = some text → stream.textAt index = text) :
    (Sketch.node kind row).Depicts (.node tree.root) := by
  have shown : Sketch.DepictsAll [.node kind row] _ := Shows.depicts built.shows fun index text here => by
    have whole : Sketch.textsAll [.node kind row] = Sketch.textsAll row := List.append_nil _
    rw [whole] at here
    have inside := (List.getElem?_eq_some_iff.mp here).1
    rw [Nat.zero_add, built.text_leaf (Sketch.tokensAll_shapes row) (Sketch.length_textsAll row ▸ inside)]
    exact reads index text here
  have root : tree.root = ⟨tree, 0 + Shape.nodeCounts (Sketch.shapes row)⟩ := by
    rw [Tree.root, built.rootId, Nat.zero_add]
  rw [root]
  exact shown.1

end Tree

namespace TokenStream

variable {stream : TokenStream} {words front back : List (Kind × String)} {i j k : Nat}

def Reads (stream : TokenStream) : List (Kind × String) → Nat → Nat → Prop
  | [], i, j => i = j
  | word :: rest, i, j => stream.kindAt i = word.1 ∧ stream.textAt i = word.2 ∧ stream.Reads rest (i + 1) j

theorem reads_append : stream.Reads (front ++ back) i k ↔ ∃ j, stream.Reads front i j ∧ stream.Reads back j k := by
  induction front generalizing i with
  | nil => simp [Reads]
  | cons word front ih => simp [Reads, ih, and_assoc]

theorem Reads.stop (reads : stream.Reads words i j) : j = i + words.length := by
  induction words generalizing i with
  | nil => exact reads.symm
  | cons word words ih =>
    have later := ih reads.2.2
    simp only [List.length_cons]
    omega

theorem Reads.stands (reads : stream.Reads words i j) : stream.Stands (words.map Prod.fst) i j := by
  induction words generalizing i with
  | nil => exact reads
  | cons word words ih => exact ⟨reads.1, ih reads.2.2⟩

theorem Reads.text (reads : stream.Reads words i j) {index : Nat} {text : String}
    (here : (words.map Prod.snd)[index]? = some text) : stream.textAt (i + index) = text := by
  induction words generalizing i index with
  | nil => simp at here
  | cons word words ih =>
    cases index with
    | zero =>
      obtain rfl : word.2 = text := by simpa using here
      exact reads.2.1
    | succ index =>
      have later := ih reads.2.2 (by simpa using here)
      rwa [Nat.add_assoc, Nat.add_comm 1] at later

theorem reads_lex {text : String} (written : wordsOf text = words) : (TokenStream.lex text).Reads words 0 words.length := by
  have behind (index : Nat) (rest : List (Kind × String)) (same : words.drop index = rest) :
      (TokenStream.lex text).Reads rest index (index + rest.length) := by
    induction rest generalizing index with
    | nil => rfl
    | cons word rest ih =>
      have here : words[index]? = some word := by rw [← List.head?_drop, same, List.head?_cons]
      have found : (wordsOf text)[index]? = some word := by rw [written, here]
      rw [wordsOf, List.getElem?_map] at found
      obtain ⟨token, there, rfl⟩ := Option.map_eq_some_iff.mp found
      obtain ⟨inside, rfl⟩ := List.getElem?_eq_some_iff.mp there
      have later := ih (index + 1) (by rw [← List.drop_drop, same, List.drop_one, List.tail_cons])
      refine ⟨by rw [kindAt, tokenAt_lex inside], by rw [textAt, tokenAt_lex inside, text_lex], ?_⟩
      rwa [List.length_cons, ← Nat.add_assoc, Nat.add_right_comm]
  simpa using behind 0 words rfl

end TokenStream

/-- What a run of an entry point's rule has recorded as one node is the tree of its parse. -/
theorem EntryPoint.parse_of_emits {entry : EntryPoint} {text : String} {options : ParseOptions} {kind : Kind}
    {children : List Shape} {t : State}
    (ran : entry.rule.exec (textEnv text options) Grammar.rule {} = some (.ok ((), t)))
    (emits : Event.Emits t.events.toList (Shape.stepsAll [.node kind children])) :
    ∃ parse, entry.parse text options = .ok parse ∧ parse.diagnostics = t.diagnostics.toList ∧
      parse.state = (if t.recovery = .recovering then .normal else t.recovery) ∧
      parse.tree.Built (.lex text) kind children := by
  cases entry.settles text options with
  | gives ran' recorded =>
    cases ran.symm.trans ran'.exec_eq
    rcases recorded with ⟨one, -⟩ | ⟨-, -, two⟩
    · obtain ⟨kind', children', emits', proper, -, -⟩ := one.emits
      have whole : Event.Emits t.events.toList (Shape.stepsAll [.node kind' children']) := by
        simpa [Shape.stepsAll] using emits'
      cases row_eq_of_emits emits whole
      obtain ⟨tree, made, built⟩ := @Tree.toTree_ok (.lex text) _ _ proper
      refine ⟨⟨tree, t.diagnostics.toList, if t.recovery = .recovering then .normal else t.recovery, options.mode⟩, ?_, rfl,
        rfl, built⟩
      rw [EntryPoint.parse_eq, Parse.run]
      have here : entry.rule.exec { stream := .lex text, options } Grammar.rule {} = some (.ok ((), t)) := ran
      simp only [here, Parse.ofState, Event.buildSteps_of_emits emits', made]
    · obtain ⟨one, other, emits'⟩ := TwoTrees.emits two
      cases row_eq_of_emits emits emits'
  | halts ran' => cases ran.symm.trans ran'.exec_eq
  | sticks cause => cases ran.symm.trans (Grammar.exec_eq_none_of_sticks cause)

end LosslessJava
