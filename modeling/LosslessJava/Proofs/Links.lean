import LosslessJava.Proofs.BuilderCalls
import LosslessJava.Proofs.TreeWalks

/-! Parents and children. Each call to a builder keeps the two in step: an element has a node as its parent just if
the node lists it, and what no node lists yet is waiting, once. So it is in every finished tree, whatever the calls
that built it. -/

namespace LosslessJava.Tree

def parentOf (tree : Tree) : Child → Option Nat
  | .node id => (Node.mk tree id).record.parent
  | .token index => (Leaf.mk tree index).record.parent

def Stands (tree : Tree) : Child → Prop
  | .node id => id < tree.nodeCount
  | .token index => index < tree.tokenCount

structure Linked (tree : Tree) : Prop where
  parent_iff : ∀ {child id}, tree.parentOf child = some id ↔ child ∈ tree.childrenOf id
  stands : ∀ {child id}, child ∈ tree.childrenOf id → tree.Stands child
  before : ∀ {inner outer}, .node inner ∈ tree.childrenOf outer → inner < outer
  once : ∀ id, (tree.childrenOf id).Nodup

variable {tree : Tree}

theorem childrenOf_rows (id : Nat) : tree.childrenOf id = (tree.rows[id]?.map Row.children).getD [] := by
  by_cases inside : id < tree.rows.length
  · rw [childrenOf_eq (List.getElem?_eq_getElem inside), List.getElem?_eq_getElem inside]
    rfl
  · have outside : tree.nodes.size ≤ id := by simpa [rows] using inside
    rw [List.getElem?_eq_none (Nat.not_lt.mp inside), childrenOf, Array.getD_eq_getD_getElem?,
      Array.getElem?_eq_none outside]
    exact congrArg Array.toList Array.extract_zero

theorem childrenOf_outside {id : Nat} (outside : tree.nodeCount ≤ id) : tree.childrenOf id = [] := by
  rw [childrenOf_rows, List.getElem?_eq_none (by simpa [rows, nodeCount] using outside)]
  rfl

theorem parentOf_outside {child : Child} (outside : ¬ tree.Stands child) : tree.parentOf child = none := by
  cases child with
  | node id =>
    rw [parentOf, Node.record, Array.getD_eq_getD_getElem?, Array.getElem?_eq_none (Nat.not_lt.mp outside)]
    rfl
  | token index =>
    rw [parentOf, Leaf.record, Array.getD_eq_getD_getElem?, Array.getElem?_eq_none (Nat.not_lt.mp outside)]
    rfl

namespace Builder

variable {b c : Builder}

section Tables

variable {parent : Nat} {child other : Child}

private theorem parentOf_adopt (stands : (b.toTree 0).Stands child) :
    ((adopt parent b child).toTree 0).parentOf other =
      if other = child then some parent else (b.toTree 0).parentOf other := by
  cases child with
  | node id =>
    cases other with
    | token index => rfl
    | node place =>
      simp only [parentOf, Node.record, toTree, adopt, Array.getD_eq_getD_getElem?, Array.getElem?_modify,
        Child.node.injEq, eq_comm (a := id)]
      split
      · next same =>
        subst same
        have found : b.nodes[place]? = some b.nodes[place] := Array.getElem?_eq_getElem stands
        rw [found]
        rfl
      · rfl
  | token index =>
    cases other with
    | node id => rfl
    | token place =>
      simp only [parentOf, Leaf.record, toTree, adopt, Array.getD_eq_getD_getElem?, Array.getElem?_modify,
        Child.token.injEq, eq_comm (a := index)]
      split
      · next same =>
        subst same
        have found : b.tokens[place]? = some b.tokens[place] := Array.getElem?_eq_getElem stands
        rw [found]
        rfl
      · rfl

private theorem stands_adopt : ((adopt parent b child).toTree 0).Stands other ↔ (b.toTree 0).Stands other := by
  cases child <;> cases other <;> simp [Stands, toTree, adopt, nodeCount, tokenCount]

private theorem parentOf_adoptAll {children : List Child} (stand : ∀ child ∈ children, (b.toTree 0).Stands child) :
    ((children.foldl (adopt parent) b).toTree 0).parentOf other =
      if other ∈ children then some parent else (b.toTree 0).parentOf other := by
  induction children generalizing b with
  | nil => simp
  | cons child rest ih =>
    rw [List.foldl_cons, ih fun child found => stands_adopt.mpr (stand child (List.mem_cons_of_mem _ found)),
      parentOf_adopt (stand child List.mem_cons_self)]
    by_cases same : other = child <;> simp [same]

end Tables

private theorem parentOf_push {record : NodeRecord} (orphan : record.parent = none) (children : Array Child) (other : Child) :
    ((toTree { b with nodes := b.nodes.push record, children } 0).parentOf other) = (b.toTree 0).parentOf other := by
  cases other with
  | token index => rfl
  | node id =>
    simp only [parentOf, Node.record, toTree, Array.getD_eq_getD_getElem?, Array.getElem?_push]
    split
    · next same =>
      subst same
      rw [Array.getElem?_eq_none (Nat.le_refl _)]
      exact orphan
    · rfl

private theorem parentOf_finishNode {node : OpenNode} {outer : List OpenNode} (opened : b.opened = node :: outer)
    {inside : List Child} (drained : (b.pending.extract node.firstChild b.pending.size).toList = inside)
    (stand : ∀ child ∈ inside, (b.toTree 0).Stands child) (finished : b.finishNode = .ok c) (child : Child) :
    (c.toTree 0).parentOf child = if child ∈ inside then some b.nodes.size else (b.toTree 0).parentOf child := by
  let rest : Builder := { b with opened := outer, pending := b.pending.take node.firstChild }
  have adopted : ((inside.foldl (adopt b.nodes.size) rest).toTree 0).parentOf child =
      if child ∈ inside then some b.nodes.size else (b.toTree 0).parentOf child := parentOf_adoptAll stand
  unfold finishNode at finished
  simp only [opened, ← Array.foldl_toList, drained] at finished
  cases finished
  split <;> exact (parentOf_push rfl _ _).trans adopted

structure Takes (given : Token) (b c : Builder) : Prop where
  text : c.text = b.text
  rows : c.rows = b.rows
  bounded : c.Bounded
  leaves : c.leaves = b.leaves ++ [given]
  parents : ∀ child, (c.toTree 0).parentOf child = (b.toTree 0).parentOf child
  opened : c.opened = b.opened
  root : c.root = b.root
  pending : c.pending.toList = b.pending.toList ++ [.token b.tokens.size]

theorem takes_token (bounded : b.Bounded) {given : Token} (put : b.token given = .ok c) : Takes given b c := by
  unfold Builder.token at put
  split at put
  · cases put
    refine ⟨rfl, rfl, bounded, by simp [leaves], fun child => ?_, rfl, rfl, Array.toList_push⟩
    cases child with
    | node id => rfl
    | token index =>
      simp only [parentOf, Leaf.record, toTree, Array.getD_eq_getD_getElem?, Array.getElem?_push]
      split
      · next same =>
        rw [same, Array.getElem?_eq_none (Nat.le_refl _)]
        rfl
      · rfl
  · cases put

namespace Takes

variable {given : Token}

theorem tokens (takes : Takes given b c) : c.tokens.size = b.tokens.size + 1 := by
  rw [← length_leaves, takes.leaves, List.length_append, length_leaves]
  rfl

theorem nodes (takes : Takes given b c) : c.nodes.size = b.nodes.size := by
  rw [← length_rows, takes.rows, length_rows]

private theorem childrenOf (takes : Takes given b c) (id : Nat) : (c.toTree 0).childrenOf id = (b.toTree 0).childrenOf id := by
  have rows : (c.toTree 0).rows = (b.toTree 0).rows := takes.rows
  rw [childrenOf_rows, childrenOf_rows, rows]

private theorem stands (takes : Takes given b c) {child : Child} (stands : (b.toTree 0).Stands child) :
    (c.toTree 0).Stands child := by
  cases child with
  | node id => exact Nat.lt_of_lt_of_eq stands takes.nodes.symm
  | token index =>
    exact Nat.lt_of_lt_of_le stands (Nat.le_of_lt (Nat.lt_of_lt_of_eq (Nat.lt_succ_self _) takes.tokens.symm))

end Takes

/-- To finish a node is to enter it, as the parent of all that was put in since it was opened, and to put it into
the node around it, or to make it the root if there is none. -/
structure Finishes (node : OpenNode) (outer : List OpenNode) (before inside : List Child) (b c : Builder) : Prop where
  text : c.text = b.text
  rows : c.rows = b.rows ++ [OpenNode.finished node inside b.tokens.size]
  bounded : c.Bounded
  leaves : c.leaves = b.leaves
  parents : ∀ child, (c.toTree 0).parentOf child =
    if child ∈ inside then some b.nodes.size else (b.toTree 0).parentOf child
  opened : c.opened = outer
  outermost : outer = [] → c.root = some b.nodes.size ∧ c.pending.toList = before
  inner : outer ≠ [] → c.root = b.root ∧ c.pending.toList = before ++ [.node b.nodes.size]

theorem exists_finishNode (bounded : b.Bounded) {node : OpenNode} {outer : List OpenNode}
    (opened : b.opened = node :: outer) {before inside : List Child} (pending : b.pending.toList = before ++ inside)
    (first : node.firstChild = before.length) (stand : ∀ child ∈ inside, (b.toTree 0).Stands child) :
    ∃ c, b.finishNode = .ok c ∧ Finishes node outer before inside b c := by
  have drained : (b.pending.extract node.firstChild b.pending.size).toList = inside := by
    rw [first]
    exact extract_behind pending
  obtain ⟨d, text, rows, bounded', leaves, -, before', opened', root, finished⟩ :=
    finishNode_eq bounded opened pending first
  refine ⟨_, finished, ?_⟩
  have parents := parentOf_finishNode opened drained stand finished
  cases outer with
  | nil => exact ⟨text, rows, bounded', leaves, parents, opened', fun _ => ⟨rfl, before'⟩, fun some => absurd rfl some⟩
  | cons around outer =>
    have placed : (d.pending.push (.node b.nodes.size)).toList = before ++ [.node b.nodes.size] := by
      rw [Array.toList_push, before']
    exact ⟨text, rows, bounded', leaves, parents, opened', nofun, fun _ => ⟨root, placed⟩⟩

namespace Finishes

variable {node : OpenNode} {outer : List OpenNode} {before inside : List Child}

theorem nodes (finishes : Finishes node outer before inside b c) : c.nodes.size = b.nodes.size + 1 := by
  rw [← length_rows, finishes.rows, List.length_append, length_rows]
  rfl

theorem tokens (finishes : Finishes node outer before inside b c) : c.tokens.size = b.tokens.size := by
  rw [← length_leaves, finishes.leaves, length_leaves]

theorem childrenOf (finishes : Finishes node outer before inside b c) (id : Nat) :
    (c.toTree 0).childrenOf id = if id = b.nodes.size then inside else (b.toTree 0).childrenOf id := by
  have rows : (c.toTree 0).rows = (b.toTree 0).rows ++ [OpenNode.finished node inside b.tokens.size] := finishes.rows
  have size : (b.toTree 0).rows.length = b.nodes.size := length_rows b
  rw [childrenOf_rows, childrenOf_rows, rows, List.getElem?_append, size]
  rcases Nat.lt_trichotomy id b.nodes.size with old | rfl | new
  · rw [if_pos old, if_neg (Nat.ne_of_lt old)]
  · simp [OpenNode.finished]
  · rw [if_neg (by omega), if_neg (by omega), List.getElem?_eq_none (by simp; omega), List.getElem?_eq_none (by omega)]

theorem stands (finishes : Finishes node outer before inside b c) {child : Child} (stands : (b.toTree 0).Stands child) :
    (c.toTree 0).Stands child := by
  cases child with
  | node id => exact Nat.lt_of_lt_of_le stands (Nat.le_of_lt (Nat.lt_of_lt_of_eq (Nat.lt_succ_self _) finishes.nodes.symm))
  | token index => exact Nat.lt_of_lt_of_eq stands finishes.tokens.symm

end Finishes

/-- The elements of a new node get it as their parent, and all others keep what they have. -/
theorem Finishes.linked {node : OpenNode} {outer : List OpenNode} {before inside : List Child}
    (finishes : Finishes node outer before inside b c) (linked : (b.toTree 0).Linked)
    (stand : ∀ child ∈ inside, (b.toTree 0).Stands child)
    (orphans : ∀ child ∈ inside, (b.toTree 0).parentOf child = none) (apart : inside.Nodup) : (c.toTree 0).Linked := by
  have fresh : (b.toTree 0).childrenOf b.nodes.size = [] := childrenOf_outside (Nat.le_refl _)
  refine ⟨fun {child id} => ?_, fun {child id} found => ?_, fun {below id} found => ?_, fun id => ?_⟩
  · rw [finishes.parents, finishes.childrenOf]
    by_cases inner : child ∈ inside
    · have other : child ∉ (b.toTree 0).childrenOf id := fun listed =>
        nomatch (orphans child inner).symm.trans (linked.parent_iff.mpr listed)
      by_cases same : id = b.nodes.size
      · simp [inner, same]
      · simp [inner, same, other, eq_comm]
    · rw [if_neg inner, linked.parent_iff]
      by_cases same : id = b.nodes.size
      · simp [inner, same, fresh]
      · rw [if_neg same]
  · rw [finishes.childrenOf] at found
    split at found
    · exact finishes.stands (stand child found)
    · exact finishes.stands (linked.stands found)
  · rw [finishes.childrenOf] at found
    split at found
    · next same => exact same ▸ stand _ found
    · exact linked.before found
  · rw [finishes.childrenOf]
    split
    · exact apart
    · exact linked.once id

/-- What may still get a parent: the outermost node that was finished last, and what was put in since the nodes
that are open were opened. -/
def waiting (b : Builder) : List Child := (b.root.map Child.node).toList ++ b.pending.toList

def Stacked : List OpenNode → Nat → Prop
  | [], _ => True
  | node :: outer, size => node.firstChild ≤ size ∧ Stacked outer node.firstChild

theorem Stacked.mono {opened : List OpenNode} {size more : Nat} (stacked : Stacked opened size) (less : size ≤ more) :
    Stacked opened more := by
  cases opened with
  | nil => trivial
  | cons node outer => exact ⟨Nat.le_trans stacked.1 less, stacked.2⟩

structure Sound (b : Builder) : Prop where
  bounded : b.Bounded
  linked : (b.toTree 0).Linked
  stands : ∀ child ∈ b.waiting, (b.toTree 0).Stands child
  orphans : ∀ child ∈ b.waiting, (b.toTree 0).parentOf child = none
  apart : b.waiting.Nodup
  stacked : Stacked b.opened b.pending.size

namespace Sound

theorem ofText (text : String) : (ofText text).Sound where
  bounded _ found := absurd found List.not_mem_nil
  linked := by
    have empty id : ((Builder.ofText text).toTree 0).childrenOf id = [] := childrenOf_outside (Nat.zero_le id)
    refine ⟨fun {child id} => ?_, fun {child id} found => ?_, fun {inner outer} found => ?_, fun id => ?_⟩
    · rw [empty]
      cases child <;> exact ⟨nofun, nofun⟩
    · rw [empty] at found
      cases found
    · rw [empty] at found
      cases found
    · rw [empty]
      exact .nil
  stands _ found := absurd found List.not_mem_nil
  orphans _ found := absurd found List.not_mem_nil
  apart := .nil
  stacked := trivial

theorem startNode (sound : b.Sound) {kind : Kind} (started : b.startNode kind = .ok c) : c.Sound := by
  unfold Builder.startNode at started
  split at started
  · cases started
    exact ⟨sound.bounded, sound.linked, sound.stands, sound.orphans, sound.apart, Nat.le_refl _, sound.stacked⟩
  · cases started

theorem token (sound : b.Sound) {given : Token} (put : b.token given = .ok c) : c.Sound := by
  have takes := takes_token sound.bounded put
  have waiting : c.waiting = b.waiting ++ [.token b.tokens.size] := by
    rw [Builder.waiting, takes.root, takes.pending, ← List.append_assoc, Builder.waiting]
  have fresh : ¬ (b.toTree 0).Stands (.token b.tokens.size) := Nat.lt_irrefl _
  refine ⟨takes.bounded, ?_, fun child found => ?_, fun child found => ?_, ?_, ?_⟩
  · refine ⟨fun {child id} => ?_, fun found => takes.stands (sound.linked.stands (takes.childrenOf _ ▸ found)),
      fun found => sound.linked.before (takes.childrenOf _ ▸ found), fun id => takes.childrenOf id ▸ sound.linked.once id⟩
    rw [takes.parents, takes.childrenOf]
    exact sound.linked.parent_iff
  · rcases List.mem_append.mp (waiting ▸ found) with old | new
    · exact takes.stands (sound.stands child old)
    · rw [List.mem_singleton.mp new]
      exact Nat.lt_of_lt_of_eq (Nat.lt_succ_self _) takes.tokens.symm
  · rw [takes.parents]
    rcases List.mem_append.mp (waiting ▸ found) with old | new
    · exact sound.orphans child old
    · rw [List.mem_singleton.mp new]
      exact parentOf_outside fresh
  · rw [waiting]
    refine sound.apart.append (List.nodup_singleton _) fun child old new => ?_
    exact fresh (List.mem_singleton.mp new ▸ sound.stands child old)
  · rw [takes.opened]
    have size := congrArg List.length takes.pending
    simp only [Array.length_toList, List.length_append] at size
    exact sound.stacked.mono (by omega)

/-- A node can be finished only if one is open, and then all that is pending behind its mark goes into it. -/
theorem finishes (sound : b.Sound) (finished : b.finishNode = .ok c) :
    ∃ node outer before inside, b.opened = node :: outer ∧ b.pending.toList = before ++ inside ∧
      node.firstChild = before.length ∧ Finishes node outer before inside b c := by
  cases opened : b.opened with
  | nil => simp [Builder.finishNode, opened] at finished
  | cons node outer =>
    obtain ⟨room, -⟩ : Stacked (node :: outer) b.pending.size := opened ▸ sound.stacked
    let before := b.pending.toList.take node.firstChild
    let inside := b.pending.toList.drop node.firstChild
    have pending : b.pending.toList = before ++ inside := (List.take_append_drop _ _).symm
    have first : node.firstChild = before.length := by
      rw [List.length_take, Array.length_toList, Nat.min_eq_left room]
    have stand child (found : child ∈ inside) : (b.toTree 0).Stands child :=
      sound.stands child (List.mem_append_right _ (List.mem_of_mem_drop found))
    obtain ⟨d, same, finishes⟩ := exists_finishNode sound.bounded opened pending first stand
    cases finished.symm.trans same
    exact ⟨node, outer, before, inside, rfl, pending, first, finishes⟩

theorem finishNode (sound : b.Sound) (finished : b.finishNode = .ok c) : c.Sound := by
  obtain ⟨node, outer, before, inside, opened, pending, first, finishes⟩ := sound.finishes finished
  obtain ⟨-, stacked⟩ : Stacked (node :: outer) b.pending.size := opened ▸ sound.stacked
  let kept := (b.root.map Child.node).toList ++ before
  have waiting : b.waiting = kept ++ inside := by rw [Builder.waiting, pending, ← List.append_assoc]
  have apart := waiting ▸ sound.apart
  have stands child (found : child ∈ kept ++ inside) := sound.stands child (waiting ▸ found)
  have orphans child (found : child ∈ kept ++ inside) := sound.orphans child (waiting ▸ found)
  have fresh : ¬ (b.toTree 0).Stands (.node b.nodes.size) := Nat.lt_irrefl _
  have later : (kept ++ [Child.node b.nodes.size]).Nodup := by
    refine (List.nodup_append'.mp apart).1.append (List.nodup_singleton _) fun child old new => ?_
    exact fresh (List.mem_singleton.mp new ▸ stands child (List.mem_append_left _ old))
  -- Whether the node goes into another one or becomes the root, it waits along with what was kept.
  obtain ⟨waits, once, deep⟩ : (∀ child ∈ c.waiting, child ∈ kept ++ [Child.node b.nodes.size]) ∧ c.waiting.Nodup ∧
      node.firstChild ≤ c.pending.size := by
    cases outer with
    | nil =>
      obtain ⟨root, pending⟩ := finishes.outermost rfl
      have waiting : c.waiting = [.node b.nodes.size] ++ before := by rw [Builder.waiting, root, pending]; rfl
      have tail : (before ++ [Child.node b.nodes.size]).Sublist (kept ++ [Child.node b.nodes.size]) :=
        (List.sublist_append_right _ _).append_right _
      rw [waiting]
      refine ⟨fun child found => tail.subset (List.mem_append.mpr (List.mem_append.mp found).symm),
        List.nodup_append_comm.mp (later.sublist tail), ?_⟩
      rw [first, ← pending, Array.length_toList]
    | cons around outer =>
      obtain ⟨root, pending⟩ := finishes.inner (List.cons_ne_nil _ _)
      have waiting : c.waiting = kept ++ [Child.node b.nodes.size] := by
        rw [Builder.waiting, root, pending, ← List.append_assoc]
      rw [waiting]
      refine ⟨fun child found => found, later, ?_⟩
      rw [first, ← Array.length_toList, pending, List.length_append]
      exact Nat.le_add_right _ _
  refine ⟨finishes.bounded, ?_, fun child found => ?_, fun child found => ?_, once, ?_⟩
  · exact finishes.linked sound.linked (fun child found => stands child (List.mem_append_right _ found))
      (fun child found => orphans child (List.mem_append_right _ found)) (List.nodup_append'.mp apart).2.1
  · rcases List.mem_append.mp (waits child found) with old | new
    · exact finishes.stands (stands child (List.mem_append_left _ old))
    · rw [List.mem_singleton.mp new]
      exact Nat.lt_of_lt_of_eq (Nat.lt_succ_self _) finishes.nodes.symm
  · rw [finishes.parents]
    rcases List.mem_append.mp (waits child found) with old | new
    · rw [if_neg fun inner => List.disjoint_of_nodup_append apart old inner]
      exact orphans child (List.mem_append_left _ old)
    · obtain rfl := List.mem_singleton.mp new
      rw [if_neg fun inner => fresh (stands _ (List.mem_append_right _ inner))]
      exact parentOf_outside fresh
  · rw [finishes.opened]
    exact stacked.mono deep

theorem run (sound : b.Sound) {call : Call} (made : call.run b = .ok c) : c.Sound := by
  cases call with
  | start kind => exact sound.startNode made
  | token given => exact sound.token made
  | finish => exact sound.finishNode made

theorem runAll (sound : b.Sound) {calls : List Call} (made : Call.runAll b calls = .ok c) : c.Sound := by
  induction calls generalizing b with
  | nil =>
    cases made
    exact sound
  | cons call rest ih =>
    obtain ⟨d, first, later⟩ := Call.runAll_cons.mp made
    exact ih (sound.run first) later

end Sound

/-- How a tree is completed: as it is if all is in one node, and with an error node around what waits if not. -/
inductive Completes (b : Builder) : Tree → Prop where
  | whole {root : Nat} (outermost : b.root = some root) (nothing : b.pending.toList = []) : Completes b (b.toTree root)
  | wrapped {c : Builder} (stray : b.root = none ∨ b.pending.toList ≠ [])
    (finishes : Finishes ⟨.error, 0, 0⟩ [] [] b.waiting
      { b with pending := b.waiting.toArray, opened := [⟨.error, 0, 0⟩], root := none } c) :
    Completes b (c.toTree b.nodes.size)

theorem Sound.exists_finish (sound : b.Sound) (closed : b.opened = []) :
    ∃ tree, b.finish = .ok tree ∧ Completes b tree := by
  by_cases stray : b.root = none ∨ b.pending.toList ≠ []
  · let wrapper : OpenNode := { kind := .error, firstChild := 0, firstToken := 0 }
    let wrapped : Builder := { b with pending := b.waiting.toArray, opened := [wrapper], root := none }
    have bounded : wrapped.Bounded := sound.bounded
    have parts : wrapped.pending.toList = [] ++ b.waiting := rfl
    obtain ⟨c, finished, finishes⟩ := exists_finishNode bounded rfl parts rfl sound.stands
    refine ⟨c.toTree b.nodes.size, ?_, .wrapped stray finishes⟩
    have pending : (b.root.map Child.node).toArray ++ b.pending = b.waiting.toArray := by
      rw [Builder.waiting]
      cases b.root <;> simp
    have last : c.nodes.size - 1 = b.nodes.size := by
      rw [finishes.nodes]
      rfl
    unfold finish
    rw [closed, List.isEmpty_nil, if_pos rfl]
    split
    · next root nothing outermost empty =>
      rw [outermost, Array.isEmpty_iff.mp empty] at stray
      simp at stray
    · rw [pending, ← last]
      exact congrArg (Except.map fun b : Builder => b.toTree (b.nodes.size - 1)) finished
  · obtain ⟨some, nothing⟩ := not_or.mp stray
    obtain ⟨root, outermost⟩ := Option.ne_none_iff_exists'.mp some
    replace nothing := not_not.mp nothing
    refine ⟨b.toTree root, ?_, .whole outermost nothing⟩
    simp [finish, closed, outermost, Array.toList_eq_nil_iff.mp nothing]

theorem Completes.linked {tree : Tree} (completes : Completes b tree) (sound : b.Sound) : tree.Linked := by
  cases completes with
  | whole => exact ⟨sound.linked.parent_iff, sound.linked.stands, sound.linked.before, sound.linked.once⟩
  | wrapped stray finishes =>
    have linked := finishes.linked sound.linked sound.stands sound.orphans sound.apart
    exact ⟨linked.parent_iff, linked.stands, linked.before, linked.once⟩

/-- In every tree that is built parents and children agree. -/
theorem linked_of_build {text : String} {calls : List Call} {tree : Tree} (built : Call.build text calls = .ok tree) :
    tree.Linked := by
  obtain ⟨b, made, finished⟩ := bind_eq_ok.mp built
  have sound := (Sound.ofText text).runAll made
  by_cases closed : b.opened = []
  · obtain ⟨other, same, completes⟩ := sound.exists_finish closed
    cases same.symm.trans finished
    exact completes.linked sound
  · rw [finish, if_neg (by simpa using closed)] at finished
    cases finished

/-- From one builder to another some nodes were finished and some tokens put in, and those of before are still where
they were. -/
structure Grows (calls : List Call) (b c : Builder) : Prop where
  text : c.text = b.text
  rows : ∃ more, c.rows = b.rows ++ more ∧ more.length = Call.finished calls
  leaves : c.leaves = b.leaves ++ Call.tokens calls

theorem Sound.grows (sound : b.Sound) {calls : List Call} (made : Call.runAll b calls = .ok c) : Grows calls b c := by
  induction calls generalizing b with
  | nil =>
    cases made
    exact ⟨rfl, ⟨[], (List.append_nil _).symm, rfl⟩, (List.append_nil _).symm⟩
  | cons call rest ih =>
    obtain ⟨d, first, later⟩ := Call.runAll_cons.mp made
    obtain ⟨text, ⟨more, rows, length⟩, leaves⟩ := ih (sound.run first) later
    cases call with
    | start kind =>
      simp only [Call.run, Builder.startNode] at first
      split at first
      · cases first
        exact ⟨text, ⟨more, rows, length⟩, leaves⟩
      · cases first
    | token given =>
      have takes := takes_token sound.bounded first
      refine ⟨text.trans takes.text, ⟨more, takes.rows ▸ rows, length⟩, ?_⟩
      rw [leaves, takes.leaves, List.append_assoc]
      rfl
    | finish =>
      obtain ⟨node, outer, before, inside, -, -, -, finishes⟩ := sound.finishes first
      refine ⟨text.trans finishes.text, ⟨OpenNode.finished node inside b.tokens.size :: more, ?_, ?_⟩,
        leaves.trans (congrArg (· ++ _) finishes.leaves)⟩
      · rw [rows, finishes.rows, List.append_assoc]
        rfl
      · simp [length]

end Builder

end LosslessJava.Tree
