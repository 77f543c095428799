import LosslessJava.Proofs.BalancedCalls
import LosslessJava.Proofs.WalkTermination

/-! What it means for a tree that its rows cover their tokens: a walk meets the tokens of a node one by one, and where
tokens stand in the order of the text, so do elements, within what holds them. -/

namespace LosslessJava.Tree

open Visit (entered)

namespace Element

/-- The tokens below an element are those from here on, … -/
def firstToken : Element → Nat
  | .node n => n.firstToken
  | .leaf l => l.index

/-- … up to, but not including, here. -/
def endToken : Element → Nat
  | .node n => n.endToken
  | .leaf l => l.index + 1

/-- There are tokens below the element. -/
def Filled (element : Element) : Prop := element.firstToken < element.endToken

end Element

/-- The tokens of a tree stand one behind the other. -/
structure Ascending (tokens : List Token) : Prop where
  apart : tokens.Pairwise fun one two => one.range.stop ≤ two.range.start
  forward : ∀ token ∈ tokens, token.range.start ≤ token.range.stop

variable {tree : Tree} {rows more : List Row} {first stop : Nat} {children : List Child}

section Rows

variable (table : tree.rows = rows ++ more)

include table

theorem row_of_front {id : Nat} {row : Row} (found : rows[id]? = some row) : tree.rows[id]? = some row := by
  rw [table, List.getElem?_append_left (List.getElem?_eq_some_iff.mp found).1, found]

variable (covered : ∀ row ∈ rows, row.Covered rows)

include covered

/-- Elements that cover tokens stand one behind the other, and within. -/
theorem Tiles.spans (tiles : Tiles rows first children stop) :
    first ≤ stop ∧
      (∀ child ∈ children, first ≤ (child.element tree).firstToken ∧ (child.element tree).endToken ≤ stop) ∧
      children.Pairwise fun one two => (one.element tree).endToken ≤ (two.element tree).firstToken := by
  induction tiles with
  | nil => exact ⟨Nat.le_refl _, nofun, .nil⟩
  | @token index rest stop _ ih =>
    obtain ⟨less, within, apart⟩ := ih
    have own : index ≤ index ∧ index + 1 ≤ stop := ⟨Nat.le_refl _, less⟩
    refine ⟨Nat.le_of_succ_le less, List.forall_mem_cons.mpr ⟨own, fun child found => ?_⟩,
      .cons (fun child found => (within child found).1) apart⟩
    exact ⟨Nat.le_of_succ_le (within child found).1, (within child found).2⟩
  | @node id row rest stop found _ ih =>
    obtain ⟨less, within, apart⟩ := ih
    have start : ((Child.node id).element tree).firstToken = row.firstToken := congrArg Row.firstToken (record_row (row_of_front table found))
    have last : ((Child.node id).element tree).endToken = row.endToken := congrArg Row.endToken (record_row (row_of_front table found))
    have ordered := (covered row (List.mem_of_getElem? found)).ordered
    refine ⟨Nat.le_trans ordered less, List.forall_mem_cons.mpr ⟨⟨start ▸ Nat.le_refl _, last ▸ less⟩, fun child found => ?_⟩,
      .cons (fun child found => last ▸ (within child found).1) apart⟩
    exact ⟨Nat.le_trans ordered (within child found).1, (within child found).2⟩

/-- A walk over elements that cover tokens meets just these, in order. -/
theorem Tours.leaves {elements : List Element} {visits : List (Visit Element)}
    (tours : Tours (fun _ => false) elements visits) (tiles : Tiles rows first children stop)
    (same : elements = children.map (Child.element tree)) :
    (entered visits).filterMap Element.leaf? = (List.range' first (stop - first)).map (Leaf.mk tree) := by
  induction tours generalizing children first stop with
  | nil =>
    cases tiles with
    | nil => simp
    | token => cases same
    | node => cases same
  | leaf _ ih =>
    cases tiles with
    | nil => cases same
    | node => cases same
    | token later =>
      obtain ⟨own, others⟩ := List.cons.inj same
      cases own
      have less := (Tiles.spans table covered later).1
      obtain ⟨count, rfl⟩ := Nat.exists_eq_add_of_le less
      simp only [Visit.entered_enter, Visit.entered_leave, List.filterMap_cons, ih later others]
      rw [Nat.add_sub_cancel_left, Nat.add_assoc, Nat.add_sub_cancel_left, Nat.add_comm 1, List.range'_succ]
      rfl
  | node tours _ inner ih =>
    cases tiles with
    | nil => cases same
    | token => cases same
    | @node id row _ _ found later =>
      obtain ⟨first, others⟩ := List.cons.inj same
      cases first
      have own := covered row (List.mem_of_getElem? found)
      have less := (Tiles.spans table covered later).1
      have below := inner own.tiles (by
        rw [← childrenOf_eq (row_of_front table found)]
        exact Node.elements_eq ⟨tree, id⟩)
      obtain ⟨count, last⟩ := Nat.exists_eq_add_of_le own.ordered
      obtain ⟨behind, rfl⟩ := Nat.exists_eq_add_of_le less
      simp only [Visit.entered_enter, Visit.entered_append, Visit.entered_leave, List.filterMap_cons,
        List.filterMap_append, ih later others, below, Element.leaf?]
      rw [Nat.add_sub_cancel_left, last, Nat.add_assoc, Nat.add_sub_cancel_left, Nat.add_sub_cancel_left,
        ← List.map_append, List.range'_append_1]

end Rows

/-- The tokens of a node are a stretch of those of the tree. -/
theorem Node.leaves_records {node : Node} (inside : node.endToken ≤ node.tree.tokenCount) :
    node.leaves.map (fun leaf => leaf.record.toToken) =
      ((node.tree.tokens.toList.map TokenRecord.toToken).drop node.firstToken).take (node.endToken - node.firstToken) := by
  have size : node.tree.tokenCount = node.tree.tokens.size := rfl
  refine List.ext_getElem (by simp [Node.leaves]; omega) fun index room _ => ?_
  have within : node.firstToken + index < node.tree.tokens.size := by
    simp only [Node.leaves, List.length_map, List.length_range'] at room
    omega
  simp [Node.leaves, Leaf.record, Array.getD, within]

section Ranges

variable {tokens : List Token} (held : tree.tokens.toList.map TokenRecord.toToken = tokens)

include held

private theorem textRange_leaf {index : Nat} (inside : index < tree.tokenCount) :
    ∃ token, tokens[index]? = some token ∧ (⟨tree, index⟩ : Leaf).textRange = token.range := by
  have there : tree.tokens[index]? = some tree.tokens[index] := Array.getElem?_eq_getElem inside
  refine ⟨tree.tokens[index].toToken, ?_, ?_⟩
  · rw [← held, List.getElem?_map, Array.getElem?_toList, there]
    rfl
  · rw [Leaf.textRange, Leaf.record, Array.getD_eq_getD_getElem?, there]
    rfl

variable (ascending : Ascending tokens)

include ascending

private theorem leaf_forward {index : Nat} (inside : index < tree.tokenCount) :
    (⟨tree, index⟩ : Leaf).textRange.start ≤ (⟨tree, index⟩ : Leaf).textRange.stop := by
  obtain ⟨token, found, same⟩ := textRange_leaf held inside
  rw [same]
  exact ascending.forward token (List.mem_of_getElem? found)

private theorem leaf_apart {index later : Nat} (less : index < later) (inside : later < tree.tokenCount) :
    (⟨tree, index⟩ : Leaf).textRange.stop ≤ (⟨tree, later⟩ : Leaf).textRange.start := by
  obtain ⟨one, found, same⟩ := textRange_leaf held (Nat.lt_trans less inside)
  obtain ⟨two, found', same'⟩ := textRange_leaf held inside
  obtain ⟨room, rfl⟩ := List.getElem?_eq_some_iff.mp found
  obtain ⟨room', rfl⟩ := List.getElem?_eq_some_iff.mp found'
  rw [same, same']
  exact List.pairwise_iff_getElem.mp ascending.apart index later room room' less

private theorem leaf_start_le {index later : Nat} (less : index ≤ later) (inside : later < tree.tokenCount) :
    (⟨tree, index⟩ : Leaf).textRange.start ≤ (⟨tree, later⟩ : Leaf).textRange.start := by
  rcases Nat.eq_or_lt_of_le less with rfl | less
  · exact Nat.le_refl _
  · exact Nat.le_trans (leaf_forward held ascending (Nat.lt_trans less inside)) (leaf_apart held ascending less inside)

private theorem leaf_stop_le {index later : Nat} (less : index ≤ later) (inside : later < tree.tokenCount) :
    (⟨tree, index⟩ : Leaf).textRange.stop ≤ (⟨tree, later⟩ : Leaf).textRange.stop := by
  rcases Nat.eq_or_lt_of_le less with rfl | less
  · exact Nat.le_refl _
  · exact Nat.le_trans (leaf_apart held ascending less inside) (leaf_forward held ascending inside)

omit held ascending

/-- The bytes of what has tokens are those from its first to its last token. -/
theorem textRange_of_filled {child : Child} (filled : (child.element tree).Filled) :
    (child.element tree).textRange = (⟨tree, (child.element tree).firstToken⟩ : Leaf).textRange.cover
      (⟨tree, (child.element tree).endToken - 1⟩ : Leaf).textRange := by
  cases child with
  | token index => rfl
  | node id =>
    have some : (⟨tree, id⟩ : Node).firstToken < (⟨tree, id⟩ : Node).endToken := filled
    simp only [Child.element, Element.textRange, Node.textRange, Node.firstLeaf?, Node.lastLeaf?, if_pos some]
    rfl

include held ascending

/-- What has tokens stands within a node that has these tokens too. -/
theorem textRange_within {child : Child} {outer : Node} (same : outer.tree = tree)
    (filled : (child.element tree).Filled) (first : outer.firstToken ≤ (child.element tree).firstToken)
    (last : (child.element tree).endToken ≤ outer.endToken) (inside : outer.endToken ≤ tree.tokenCount) :
    outer.textRange.start ≤ (child.element tree).textRange.start ∧
      (child.element tree).textRange.stop ≤ outer.textRange.stop := by
  subst same
  have filled' : ((Child.node outer.id).element outer.tree).Filled := Nat.lt_of_le_of_lt first (Nat.lt_of_lt_of_le filled last)
  have own : outer.textRange = (⟨outer.tree, outer.firstToken⟩ : Leaf).textRange.cover
      (⟨outer.tree, outer.endToken - 1⟩ : Leaf).textRange := textRange_of_filled filled'
  have some : (child.element outer.tree).firstToken < (child.element outer.tree).endToken := filled
  rw [own, textRange_of_filled filled]
  exact ⟨leaf_start_le held ascending first (by omega), leaf_stop_le held ascending (by omega) (by omega)⟩

/-- Of two elements one behind the other, the bytes are too. -/
theorem textRange_apart {one two : Child} (filled : (one.element tree).Filled) (filled' : (two.element tree).Filled)
    (less : (one.element tree).endToken ≤ (two.element tree).firstToken)
    (inside : (two.element tree).endToken ≤ tree.tokenCount) :
    (one.element tree).textRange.stop ≤ (two.element tree).textRange.start := by
  have some : (one.element tree).firstToken < (one.element tree).endToken := filled
  have some' : (two.element tree).firstToken < (two.element tree).endToken := filled'
  rw [textRange_of_filled filled, textRange_of_filled filled']
  exact leaf_apart held ascending (by omega) (by omega)

end Ranges

end LosslessJava.Tree
