import LosslessJava.Proofs.CleanParse
import LosslessJava.Proofs.TreeWalks

/-! Where the shapes that a tree shows stand in it. Every node of the tree shows a node of the shape,
and its elements are those of the shape. -/

namespace LosslessJava.Tree

open LosslessJava.Shape

def HoldsLeaves (tree : Tree) (tokens : Nat) (row : List Shape) : Prop :=
  ∀ index (inside : index < (leafKinds row).length), (⟨tree, tokens + index⟩ : Leaf).kind = (leafKinds row)[index]

structure Shows (tree : Tree) (nodes tokens : Nat) (row : List Shape) : Prop where
  records : tree.Holds nodes tokens row
  leaves : tree.HoldsLeaves tokens row

def Element.Shows : Element → Shape → Prop
  | .node n, .node kind children => ∃ nodes tokens rest,
    n.tree.Shows nodes tokens (.node kind children :: rest) ∧ n.id = nodes + nodeCounts children
  | .leaf l, .token kind _ => l.kind = kind
  | _, _ => False

variable {tree : Tree} {nodes tokens : Nat} {kind : Kind} {children row : List Shape}

namespace Shows

theorem below (shows : tree.Shows nodes tokens (.node kind children :: row)) : tree.Shows nodes tokens children where
  records := shows.records.below
  leaves index inside := by
    have split : leafKinds (.node kind children :: row) = leafKinds children ++ leafKinds row := by
      simp [leafKinds, tokensAll, Shape.tokens]
    have whole := shows.leaves index (by simp only [split, List.length_append]; omega)
    simpa only [split, List.getElem_append_left inside] using whole

theorem later {shape : Shape} (shows : tree.Shows nodes tokens (shape :: row)) :
    tree.Shows (nodes + shape.nodeCount) (tokens + shape.tokens.length) row where
  records := shows.records.later
  leaves index inside := by
    have split : leafKinds (shape :: row) = shape.tokens.map Prod.fst ++ leafKinds row := by
      simp [leafKinds, tokensAll]
    have whole := shows.leaves (shape.tokens.length + index) (by simp only [split, List.length_append, List.length_map]; omega)
    rw [← Nat.add_assoc] at whole
    simpa [split] using whole

theorem record (shows : tree.Shows nodes tokens (.node kind children :: row)) :
    (⟨tree, nodes + nodeCounts children⟩ : Node).kind = kind := by
  have found := shows.records (nodeCounts children) (by simp only [nodeCounts, Shape.nodeCount]; omega)
  simp only [recordsAll, Shape.records, List.append_assoc] at found
  rw [List.getElem?_append_right (by simp)] at found
  exact congrArg Row.kind (record_row (by simpa using found))

private theorem elements_row (shows : tree.Shows nodes tokens row) :
    List.Forall₂ Element.Shows ((Shape.childrenOf nodes tokens row).map (Child.element tree)) row := by
  induction row using row_induction generalizing nodes tokens with
  | nil => exact .nil
  | token kind rawCount row ih =>
    have here := shows.leaves 0 (by simp [leafKinds, tokensAll, Shape.tokens])
    exact .cons here (ih shows.later)
  | node kind children row _ ih => exact .cons ⟨nodes, tokens, row, shows, rfl⟩ (ih shows.later)

private theorem elements (shows : tree.Shows nodes tokens (.node kind children :: row)) :
    List.Forall₂ Element.Shows (⟨tree, nodes + nodeCounts children⟩ : Node).elements children := by
  rw [shows.records.elements]
  exact shows.below.elements_row

/-- Every node of a row shows one of the shape, which keeps its contract if all of the row do. -/
theorem find (shows : tree.Shows nodes tokens row) (sound : SoundAll row) (proper : ProperAll row) {index : Nat}
    (inside : index < nodeCounts row) :
    ∃ kind children, (Element.node ⟨tree, nodes + index⟩).Shows (.node kind children) ∧
      kind.Holds (outline children) ∧ SoundAll children ∧ ProperAll children := by
  induction row using row_induction generalizing nodes tokens index with
  | nil => simp [nodeCounts] at inside
  | token kind rawCount row ih =>
    have later := ih shows.later sound.2 proper.2 (by simpa [nodeCounts, Shape.nodeCount] using inside)
    simpa [Shape.nodeCount] using later
  | node kind children row below ih =>
    rcases Nat.lt_trichotomy index (nodeCounts children) with less | rfl | more
    · exact below shows.below sound.1.2 proper.1.2 less
    · exact ⟨kind, children, ⟨nodes, tokens, row, shows, rfl⟩, sound.1.1, sound.1.2, proper.1.2⟩
    · obtain ⟨past, rfl⟩ := Nat.exists_eq_add_of_lt more
      have small : past < nodeCounts row := by
        simp only [nodeCounts, Shape.nodeCount] at inside
        omega
      have later := ih shows.later sound.2 proper.2 small
      have place : nodes + (Shape.node kind children).nodeCount + past = nodes + (nodeCounts children + past + 1) := by
        simp only [Shape.nodeCount]
        omega
      rwa [place] at later

end Shows

namespace Element.Shows

variable {node : Node}

theorem kind_eq (shows : (Element.node node).Shows (.node kind children)) : node.kind = kind := by
  obtain ⟨nodes, tokens, rest, shows, place⟩ := shows
  have same := shows.record
  rwa [← place] at same

theorem elements (shows : (Element.node node).Shows (.node kind children)) :
    List.Forall₂ Element.Shows node.elements children := by
  obtain ⟨nodes, tokens, rest, shows, place⟩ := shows
  have same := shows.elements
  rwa [← place] at same

end Element.Shows

private theorem Element.Shows.kind_shape {element : Element} {shape : Shape} (shows : element.Shows shape) : element.kind = shape.kind := by
  cases element with
  | leaf l =>
    cases shape with
    | token => exact shows
    | node => exact shows.elim
  | node n =>
    cases shape with
    | token => exact shows.elim
    | node => exact shows.kind_eq

/-- Elements are of the kinds of the shapes that they show. -/
theorem kinds_of_shows {elements : List Element} (shows : List.Forall₂ Element.Shows elements row) :
    elements.map Element.kind = outline row :=
  List.forall₂_eq_eq_eq ▸ List.forall₂_map_left_iff.mpr (List.forall₂_map_right_iff.mpr (shows.imp fun _ _ => Element.Shows.kind_shape))

theorem map_kind_mergedTokens (stream : TokenStream) (raw : Nat) (given : List (Kind × Nat)) :
    (BuildStep.mergedTokens stream raw given).map Token.kind = given.map Prod.fst := by
  induction given generalizing raw with
  | nil => rfl
  | cons token rest ih => simp [BuildStep.mergedTokens, BuildStep.mergedToken, ih]

private theorem Built.kinds_leaves {stream : TokenStream} (built : tree.Built stream kind children) :
    tree.leaves.map Leaf.kind = Shape.leafKinds children := by
  have kinds := congrArg (List.map Token.kind) built.leaves
  rw [map_kind_mergedTokens, List.map_map] at kinds
  rw [Shape.leafKinds, ← kinds]
  refine List.ext_getElem (by simp [Tree.leaves, Tree.tokenCount]) fun index inside _ => ?_
  have small : index < tree.tokens.size := by simpa [Tree.leaves, Tree.tokenCount] using inside
  simp [Tree.leaves, Leaf.kind, Leaf.record, small]

theorem Built.kind_leaf {stream : TokenStream} (built : tree.Built stream kind children) {index : Nat}
    (inside : index < (leafKinds children).length) : (⟨tree, index⟩ : Leaf).kind = (leafKinds children)[index] := by
  have kinds := built.kinds_leaves
  have place : index < (tree.leaves.map Leaf.kind).length := by rw [kinds]; exact inside
  simp only [← kinds]
  simp [Tree.leaves]

theorem Built.length_leafKinds {stream : TokenStream} (built : tree.Built stream kind children) :
    (leafKinds children).length = tree.tokenCount := by
  rw [← built.kinds_leaves]
  simp [Tree.leaves]

theorem Built.shows {stream : TokenStream} (built : tree.Built stream kind children) :
    tree.Shows 0 0 [.node kind children] where
  records := built.holds
  leaves index inside := by
    have same : leafKinds [.node kind children] = leafKinds children := by
      simp [leafKinds, tokensAll, Shape.tokens]
    simp only [same, Nat.zero_add] at inside ⊢
    exact built.kind_leaf inside

/-- Every node of a sound tree shows a shape that keeps its contract. -/
theorem Sound.find {text : String} (sound : tree.Sound text kind children) {id : Nat} (inside : id < tree.nodeCount) :
    ∃ kind children, (Element.node ⟨tree, id⟩).Shows (.node kind children) ∧ kind.Holds (outline children) ∧
      SoundAll children ∧ ProperAll children := by
  have size := sound.built.nodeCount
  simpa using sound.built.shows.find sound.sound ⟨sound.proper, trivial⟩ (size ▸ inside)

end LosslessJava.Tree

namespace LosslessJava

open LosslessJava.Tree LosslessJava.Shape

/-- All nodes, in the order in which they were finished. -/
def Tree.allNodes (tree : Tree) : List Node := (List.range tree.nodeCount).map (Node.mk tree)

private theorem Shape.SoundAll.known {row : List Shape} (sound : SoundAll row) : ∀ kind ∈ leafKinds row, kind ≠ .unknown := by
  induction row using row_induction with
  | nil => simp [leafKinds, tokensAll]
  | token kind rawCount row ih =>
    have later := ih sound.2
    simp only [leafKinds, tokensAll, tokens, List.cons_append, List.nil_append, List.map_cons, List.mem_cons] at later ⊢
    rintro found (rfl | member)
    · exact sound.1
    · exact later found member
  | node kind children row below ih =>
    have split : leafKinds (.node kind children :: row) = leafKinds children ++ leafKinds row := by
      simp [leafKinds, tokensAll, tokens]
    rw [split]
    exact fun found member => (List.mem_append.mp member).elim (below sound.1.2 found) (ih sound.2 found)

variable {entry : EntryPoint} {text : String} {options : ParseOptions} {parse : Parse}

/-- Something in the result shows that the text is not as it should be. -/
def Parse.Faulty (parse : Parse) : Prop :=
  (∃ node ∈ parse.tree.allNodes, node.kind = .error) ∨ (∃ leaf ∈ parse.tree.leaves, leaf.kind = .unknown) ∨
    parse.state = .abandoned

/-- Nothing goes wrong without a diagnostic: a parse without any has no error nodes and no unknown tokens,
and has gone through to the end. -/
theorem Parse.faults_are_told (parsed : entry.parse text options = .ok parse) :
    (parse.Faulty → parse.diagnostics ≠ []) ∧
      (parse.diagnostics = [] → (∀ node ∈ parse.tree.allNodes, node.kind ≠ .error) ∧
        (∀ leaf ∈ parse.tree.leaves, leaf.kind ≠ .unknown) ∧ parse.state = .normal) := by
  have clean (none : parse.diagnostics = []) : (∀ node ∈ parse.tree.allNodes, node.kind ≠ .error) ∧
      (∀ leaf ∈ parse.tree.leaves, leaf.kind ≠ .unknown) ∧ parse.state = .normal := by
    obtain ⟨normal, kind, children, sound⟩ := Parse.sound_of_clean parsed none
    refine ⟨fun node member => ?_, fun leaf member => ?_, normal⟩
    · obtain ⟨id, inside, rfl⟩ := List.mem_map.mp member
      obtain ⟨_, _, shows, holds, -⟩ := sound.find (List.mem_range.mp inside)
      exact shows.kind_eq ▸ holds.sound
    · have known := sound.sound.1.2.known
      rw [← sound.built.kinds_leaves] at known
      exact known _ (List.mem_map_of_mem member)
  refine ⟨fun faulty none => ?_, clean⟩
  obtain ⟨nodes, leaves, normal⟩ := clean none
  rcases faulty with ⟨node, member, error⟩ | ⟨leaf, member, unknown⟩ | abandoned
  · exact nodes node member error
  · exact leaves leaf member unknown
  · cases normal.symm.trans abandoned

/-- A character that begins no token. -/
theorem Parse.faults_are_told_unknown :
    ∃ parse, EntryPoint.expression.parse "a # b" {} = .ok parse ∧ parse.Faulty ∧ parse.diagnostics ≠ [] := by
  have found : Parse.givesWithin 300 (fun parse => parse.tree.leaves.any (·.kind == .unknown)) Grammar.expressionRoot
      (.lex "a # b") {} = true := by decide +kernel
  obtain ⟨parse, ran, unknown⟩ := Parse.run_of_givesWithin found
  have faulty : parse.Faulty := .inr (.inl (by simpa using unknown))
  have parsed : EntryPoint.expression.parse "a # b" {} = .ok parse := ran
  exact ⟨parse, parsed, faulty, (Parse.faults_are_told parsed).1 faulty⟩

end LosslessJava
