import LosslessJava.Proofs.Coverage

/-! The tree that legal calls build. Every node that was opened holds what was put into it, and covers the tokens from
its start to its finish; so a walk meets the tokens of a node, and in a text that goes on, elements stand within and
one behind the other. -/

namespace LosslessJava.Tree

open Visit (entered)

/-- From a node one comes up to others by asking for parents until there is none. -/
inductive Node.Climbs : Node → List Node → Prop where
  | top {node : Node} (last : node.parent? = none) : Climbs node [node]
  | step {node parent : Node} {above : List Node} (up : node.parent? = some parent) (later : Climbs parent above) :
      Climbs node (node :: above)

variable {tree : Tree}

namespace Linked

variable (linked : tree.Linked)

include linked

theorem lt_of_parent {id parent : Nat} (up : tree.parentOf (.node id) = some parent) :
    id < parent ∧ parent < tree.nodeCount := by
  have listed := linked.parent_iff.mp up
  refine ⟨linked.before listed, Nat.lt_of_not_le fun outside => ?_⟩
  rw [childrenOf_outside outside] at listed
  cases listed

/-- Parents come behind, so the way up ends while there is still room for more nodes. -/
theorem climbs_within {id limit : Nat} (inside : id < tree.nodeCount) (enough : tree.nodeCount ≤ id + limit) :
    (⟨tree, id⟩ : Node).Climbs (Node.ancestorsWithin limit ⟨tree, id⟩) := by
  induction limit generalizing id with
  | zero => omega
  | succ limit ih =>
    rw [Node.ancestorsWithin]
    cases up : (⟨tree, id⟩ : Node).parent? with
    | none => exact .top up
    | some parent =>
      obtain ⟨place, own, rfl⟩ := Option.map_eq_some_iff.mp up
      obtain ⟨less, inside⟩ := linked.lt_of_parent own
      exact .step up (ih inside (by omega))

private theorem climbs {id : Nat} (inside : id < tree.nodeCount) :
    (⟨tree, id⟩ : Node).Climbs (⟨tree, id⟩ : Node).ancestors :=
  linked.climbs_within inside (Nat.le_add_left _ _)

end Linked

namespace Builder

variable {b : Builder}

/-- Of a tree that is completed, the tables are those of the builder, with a row for the error node if there is one. -/
structure Tabled (b : Builder) (tree : Tree) : Prop where
  linked : tree.Linked
  leaves : tree.tokens.toList.map TokenRecord.toToken = b.leaves
  rows : ∃ more, tree.rows = b.rows ++ more ∧
    ∀ row ∈ more, row = { kind := .error, children := b.waiting, firstToken := 0, endToken := b.tokens.size }

theorem Completes.tabled (completes : Completes b tree) (sound : b.Sound) : Tabled b tree := by
  refine ⟨completes.linked sound, ?_, ?_⟩
  · cases completes with
    | whole => rfl
    | wrapped stray finishes => exact finishes.leaves
  · cases completes with
    | whole => exact ⟨[], (List.append_nil _).symm, nofun⟩
    | wrapped stray finishes => exact ⟨_, finishes.rows, fun row found => List.mem_singleton.mp found⟩

end Builder

open Builder

namespace Call

variable {calls : List Call}

/-- Legal calls can be made one after the other, and then the tree is completed. -/
theorem Legal.exists_completes (legal : Legal calls) (text : String) :
    ∃ b tree, runAll (.ofText text) calls = .ok b ∧ Stretch calls (.ofText text) b ∧ b.Sound ∧
      build text calls = .ok tree ∧ Completes b tree := by
  have sound := Sound.ofText text
  obtain ⟨b, made, stretch⟩ := sound.exists_stretch legal.balanced legal.proper
  have sound := sound.runAll made
  obtain ⟨tree, finished, completes⟩ := sound.exists_finish stretch.opened
  exact ⟨b, tree, made, stretch, sound, bind_eq_ok.mpr ⟨b, made, finished⟩, completes⟩

/-- A node that was opened holds what was put into it until it was finished. -/
theorem row_of_start {text : String} {b : Builder} {before inside after : List Call} {kind : Kind}
    (made : runAll (.ofText text) (before ++ .start kind :: (inside ++ .finish :: after)) = .ok b)
    (balanced : Balanced inside) (proper : ∀ call ∈ inside, call.Proper) :
    b.rows[finished (before ++ inside)]? =
      some { kind, children := appended (finished before) (tokens before).length 0 inside,
             firstToken := (tokens before).length, endToken := (tokens (before ++ inside)).length } := by
  obtain ⟨c, first, made⟩ := runAll_append.mp made
  obtain ⟨d, started, made⟩ := runAll_cons.mp made
  obtain ⟨e, within, made⟩ := runAll_append.mp made
  obtain ⟨f, finished, last⟩ := runAll_cons.mp made
  have sound := (Sound.ofText text).runAll first
  have begun := (Sound.ofText text).grows first
  have nodes : c.nodes.size = Call.finished before := by simpa [Builder.ofText] using begun.nodes
  have tokens : c.tokens.size = (Call.tokens before).length := by simpa [Builder.ofText] using begun.tokens
  obtain rfl : { c with opened := { kind, firstChild := c.pending.size, firstToken := c.tokens.size } :: c.opened } = d := by
    simp only [Call.run, Builder.startNode] at started
    split at started <;> cases started
    rfl
  have sound := sound.startNode started
  obtain ⟨e', same, stretch⟩ := sound.exists_stretch balanced proper
  cases within.symm.trans same
  have sound := sound.runAll within
  obtain ⟨node, outer, front, inner, opened, pending, mark, finishes⟩ := sound.finishes finished
  cases stretch.opened.symm.trans opened
  have gained : e.pending.toList = c.pending.toList ++ c.gains inside := (stretch.inner (List.cons_ne_nil _ _)).2
  obtain ⟨rfl, rfl⟩ := List.append_inj (gained.symm.trans pending) (Array.length_toList.trans mark)
  have place : e.rows.length = Call.finished (before ++ inside) := by
    rw [length_rows, stretch.grows.nodes, Call.finished_append, ← nodes]
  obtain ⟨more, rows, -⟩ := ((sound.finishNode finished).grows last).rows
  rw [rows, finishes.rows, List.append_assoc, List.getElem?_append_right (Nat.le_of_eq place), place, Nat.sub_self]
  simp [OpenNode.finished, gains, nodes, tokens, stretch.grows.tokens]

/-- What is waiting when all nodes are finished was put in outside of all of them. -/
theorem mem_gains_of_waiting {text : String} {b : Builder} (stretch : Stretch calls (.ofText text) b) {child : Child}
    (waits : child ∈ b.waiting) : child ∈ (Builder.ofText text).gains calls := by
  obtain ⟨root, pending⟩ := stretch.outermost rfl
  rcases List.mem_append.mp waits with last | stray
  · have none : (Builder.ofText text).root = none := rfl
    obtain ⟨id, found, rfl⟩ := List.mem_map.mp (Option.toList_map ▸ last)
    have outermost : id ∈ ((Builder.ofText text).gains calls).filterMap Child.node? := by
      rw [root, none, Option.or_none] at found
      exact List.mem_of_getLast? (Option.mem_toList.mp found)
    obtain ⟨child, member, same⟩ := List.mem_filterMap.mp outermost
    cases child with
    | token => cases same
    | node place =>
      cases same
      exact member
  · rw [pending] at stray
    exact (List.mem_filter.mp (by simpa [Builder.ofText] using stray)).1

end Call

structure Assembled (calls : List Call) (b : Builder) (tree : Tree) : Prop where
  tabled : Tabled b tree
  stretch : ∃ text, Stretch calls (.ofText text) b

private theorem Call.Legal.exists_assembled {calls : List Call} (legal : Call.Legal calls) (text : String) :
    ∃ b tree, Call.runAll (.ofText text) calls = .ok b ∧ Call.build text calls = .ok tree ∧ Assembled calls b tree := by
  obtain ⟨b, tree, made, stretch, sound, built, completes⟩ := legal.exists_completes text
  exact ⟨b, tree, made, built, completes.tabled sound, text, stretch⟩

namespace Assembled

variable {calls : List Call} {b : Builder} (assembled : Assembled calls b tree)

include assembled

theorem held : tree.tokens.toList.map TokenRecord.toToken = Call.tokens calls := by
  obtain ⟨text, stretch⟩ := assembled.stretch
  rw [assembled.tabled.leaves, stretch.grows.leaves]
  rfl

theorem tokenCount : tree.tokenCount = b.tokens.size := by
  have size := congrArg List.length assembled.tabled.leaves
  rw [length_leaves] at size
  simpa [Tree.tokenCount] using size

theorem covered {row : Row} (found : row ∈ b.rows) : row.Covered b.rows ∧ row.endToken ≤ b.tokens.size := by
  obtain ⟨text, stretch⟩ := assembled.stretch
  exact stretch.covered row found

/-- A row of the tree is one that was there before, or that of the error node. -/
theorem row_cases {id : Nat} {row : Row} (found : tree.rows[id]? = some row) :
    (row ∈ b.rows ∧ row.Covered b.rows ∧ row.endToken ≤ tree.tokenCount) ∨
      row = { kind := .error, children := b.waiting, firstToken := 0, endToken := tree.tokenCount } := by
  obtain ⟨more, table, wrapper⟩ := assembled.tabled.rows
  rcases List.mem_append.mp (table ▸ List.mem_of_getElem? found) with old | new
  · obtain ⟨covered, last⟩ := assembled.covered old
    exact .inl ⟨old, covered, assembled.tokenCount ▸ last⟩
  · exact .inr (assembled.tokenCount ▸ wrapper row new)

private theorem outermost : ∃ outermost : List Child, (∀ child ∈ b.waiting, child ∈ outermost) ∧
    ∀ child ∈ outermost, (child.element tree).endToken ≤ tree.tokenCount := by
  obtain ⟨more, table, -⟩ := assembled.tabled.rows
  obtain ⟨text, stretch⟩ := assembled.stretch
  have spans := stretch.tiles.spans table fun row found => (assembled.covered found).1
  refine ⟨_, fun child => Call.mem_gains_of_waiting stretch, fun child found => ?_⟩
  rw [assembled.tokenCount]
  exact (spans.2.1 child found).2

theorem spans (id : Nat) :
    (∀ child ∈ tree.childrenOf id, (⟨tree, id⟩ : Node).firstToken ≤ (child.element tree).firstToken ∧
      (child.element tree).endToken ≤ (⟨tree, id⟩ : Node).endToken) ∧
    (⟨tree, id⟩ : Node).endToken ≤ tree.tokenCount := by
  obtain ⟨more, table, -⟩ := assembled.tabled.rows
  cases found : tree.rows[id]? with
  | none =>
    have outside : tree.nodes.size ≤ id := by simpa [Tree.rows] using found
    refine ⟨fun child listed => ?_, ?_⟩
    · rw [childrenOf_outside outside] at listed
      cases listed
    · rw [Node.endToken, Node.record, Array.getD_eq_getD_getElem?, Array.getElem?_eq_none outside]
      exact Nat.zero_le _
  | some row =>
    have first : (⟨tree, id⟩ : Node).firstToken = row.firstToken := congrArg Row.firstToken (record_row found)
    have last : (⟨tree, id⟩ : Node).endToken = row.endToken := congrArg Row.endToken (record_row found)
    rw [childrenOf_eq found, first, last]
    rcases assembled.row_cases found with ⟨old, covered, less⟩ | rfl
    · exact ⟨(covered.tiles.spans table fun row found => (assembled.covered found).1).2.1, less⟩
    · obtain ⟨outermost, waits, less⟩ := assembled.outermost
      exact ⟨fun child found => ⟨Nat.zero_le _, less child (waits child found)⟩, Nat.le_refl _⟩

private theorem nodes_apart (id : Nat) : ((tree.childrenOf id).filterMap Child.node?).Pairwise fun one two =>
    (⟨tree, one⟩ : Node).endToken ≤ (⟨tree, two⟩ : Node).firstToken := by
  obtain ⟨more, table, -⟩ := assembled.tabled.rows
  cases found : tree.rows[id]? with
  | none =>
    rw [childrenOf_rows, found]
    exact .nil
  | some row =>
    rw [childrenOf_eq found]
    rcases assembled.row_cases found with ⟨old, covered, -⟩ | rfl
    · have apart := (covered.tiles.spans table fun row found => (assembled.covered found).1).2.2
      refine apart.filterMap Child.node? fun one two less inner own inner' own' => ?_
      cases one <;> cases own
      cases two <;> cases own'
      exact less
    · -- Outside of all nodes only tokens wait, but for one node that is remembered.
      obtain ⟨text, stretch⟩ := assembled.stretch
      have none : (b.pending.toList).filterMap Child.node? = [] := by
        rw [(stretch.outermost rfl).2]
        refine List.filterMap_eq_nil_iff.mpr fun child found => ?_
        have token := (List.mem_filter.mp (by simpa [Builder.ofText] using found)).2
        cases child with
        | node => cases token
        | token => rfl
      rw [Builder.waiting, List.filterMap_append, none, List.append_nil]
      cases b.root with
      | none => exact .nil
      | some root => exact List.pairwise_singleton _ _

end Assembled

def Element.parent? : Element → Option Node
  | .node n => n.parent?
  | .leaf l => l.parent?

private theorem Child.parent?_element (child : Child) : (child.element tree).parent? = (tree.parentOf child).map (Node.mk tree) := by
  cases child <;> rfl

/-- A node is just what was put in between its start and its finish, and is known to that as its parent. -/
structure Node.Collects (before : List Call) (kind : Kind) (inside : List Call) (node : Node) : Prop where
  stands : node.id < node.tree.nodeCount
  kind : node.kind = kind
  elements : node.elements =
    (Call.appended (Call.finished before) (Call.tokens before).length 0 inside).map (Child.element node.tree)
  parent : ∀ element ∈ node.elements, element.parent? = some node
  only : ∀ element ∈ node.elements, ∀ other, element ∈ (⟨node.tree, other⟩ : Node).elements → other = node.id
  firstToken : node.firstToken = (Call.tokens before).length
  endToken : node.endToken = (Call.tokens (before ++ inside)).length
  tokens : node.leaves.map (fun leaf => leaf.record.toToken) = Call.tokens inside
  leaves : (entered node.visits).filterMap Element.leaf? = node.leaves
  apart : Ascending (node.tree.tokens.toList.map TokenRecord.toToken) → node.elements.Pairwise fun one two =>
    one.Filled → two.Filled → one.textRange.stop ≤ two.textRange.start

/-- All that the tables of a tree say fits together, and with the calls that the tree was built by. -/
structure Wired (calls : List Call) (tree : Tree) : Prop where
  held : tree.tokens.toList.map TokenRecord.toToken = Call.tokens calls
  opened : ∀ before kind rest, calls = before ++ .start kind :: rest → ∃ inside after,
    rest = inside ++ .finish :: after ∧ Call.Balanced inside ∧
      Node.Collects before kind inside ⟨tree, Call.finished (before ++ inside)⟩
  upwards : ∀ id parent, (⟨tree, id⟩ : Node).parent? = some parent → id < parent.id
  climbs : ∀ id < tree.nodeCount, (⟨tree, id⟩ : Node).Climbs (⟨tree, id⟩ : Node).ancestors
  within : Ascending (Call.tokens calls) → ∀ id parent, (⟨tree, id⟩ : Node).parent? = some parent →
    (⟨tree, id⟩ : Node).firstToken < (⟨tree, id⟩ : Node).endToken →
      parent.textRange.start ≤ (⟨tree, id⟩ : Node).textRange.start ∧
        (⟨tree, id⟩ : Node).textRange.stop ≤ parent.textRange.stop
  apart : Ascending (Call.tokens calls) → ∀ id, (⟨tree, id⟩ : Node).children.Pairwise fun one two =>
    one.firstToken < one.endToken → two.firstToken < two.endToken → one.textRange.stop ≤ two.textRange.start

namespace Assembled

variable {calls : List Call} {b : Builder} (assembled : Assembled calls b tree)

include assembled

private theorem within (ascending : Ascending (Call.tokens calls)) {id : Nat} {parent : Node}
    (up : (⟨tree, id⟩ : Node).parent? = some parent) (filled : (⟨tree, id⟩ : Node).firstToken < (⟨tree, id⟩ : Node).endToken) :
    parent.textRange.start ≤ (⟨tree, id⟩ : Node).textRange.start ∧
      (⟨tree, id⟩ : Node).textRange.stop ≤ parent.textRange.stop := by
  obtain ⟨place, own, rfl⟩ := Option.map_eq_some_iff.mp up
  have listed : Child.node id ∈ tree.childrenOf place := assembled.tabled.linked.parent_iff.mp own
  obtain ⟨spans, last⟩ := assembled.spans place
  obtain ⟨first, less⟩ := spans _ listed
  have some : ((Child.node id).element tree).Filled := filled
  exact textRange_within assembled.held ascending rfl some first less last

private theorem apart (ascending : Ascending (Call.tokens calls)) (id : Nat) :
    (⟨tree, id⟩ : Node).children.Pairwise fun one two =>
      one.firstToken < one.endToken → two.firstToken < two.endToken → one.textRange.stop ≤ two.textRange.start := by
  have children : (⟨tree, id⟩ : Node).children = ((tree.childrenOf id).filterMap Child.node?).map (Node.mk tree) := by
    rw [Node.children, Node.elements_eq, List.filterMap_map, List.map_filterMap]
    refine List.filterMap_congr fun child _ => ?_
    cases child <;> rfl
  rw [children, List.pairwise_map]
  refine (assembled.nodes_apart id).imp_of_mem fun {one two} _ member less filled filled' => ?_
  have listed : Child.node two ∈ tree.childrenOf id := by
    obtain ⟨child, found, same⟩ := List.mem_filterMap.mp member
    cases child <;> cases same
    exact found
  obtain ⟨spans, last⟩ := assembled.spans id
  have some : ((Child.node one).element tree).Filled := filled
  have some' : ((Child.node two).element tree).Filled := filled'
  exact textRange_apart assembled.held ascending some some' less (Nat.le_trans (spans _ listed).2 last)

private theorem collects {text : String} {before inside after : List Call} {kind : Kind}
    (made : Call.runAll (.ofText text) calls = .ok b)
    (parts : calls = before ++ .start kind :: (inside ++ .finish :: after)) (balanced : Call.Balanced inside)
    (proper : ∀ call ∈ inside, call.Proper) :
    Node.Collects before kind inside ⟨tree, Call.finished (before ++ inside)⟩ := by
  have found := Call.row_of_start (parts ▸ made) balanced proper
  generalize Call.finished (before ++ inside) = id at found ⊢
  obtain ⟨more, table, -⟩ := assembled.tabled.rows
  have linked := assembled.tabled.linked
  have rows row (found : row ∈ b.rows) : row.Covered b.rows := (assembled.covered found).1
  obtain ⟨covered, less⟩ := assembled.covered (List.mem_of_getElem? found)
  rw [← assembled.tokenCount] at less
  have there := row_of_front table found
  have stands : id < tree.nodeCount := by
    have room := (List.getElem?_eq_some_iff.mp there).1
    rwa [Tree.rows, List.length_map, Array.length_toList] at room
  have first : (⟨tree, id⟩ : Node).firstToken = (Call.tokens before).length := congrArg Row.firstToken (record_row there)
  have last : (⟨tree, id⟩ : Node).endToken = (Call.tokens (before ++ inside)).length :=
    congrArg Row.endToken (record_row there)
  have elements := Node.elements_eq ⟨tree, id⟩
  refine ⟨stands, congrArg Row.kind (record_row there), ?_, fun element member => ?_, fun element member other again => ?_,
    first, last, ?_, ?_, fun ascending => ?_⟩
  · rw [elements, childrenOf_eq there]
  · rw [elements] at member
    obtain ⟨child, listed, rfl⟩ := List.mem_map.mp member
    rw [Child.parent?_element, linked.parent_iff.mpr listed]
    rfl
  · rw [elements] at member
    rw [Node.elements_eq] at again
    obtain ⟨child, listed, rfl⟩ := List.mem_map.mp member
    obtain ⟨child', listed', same⟩ := List.mem_map.mp again
    obtain rfl := Child.element_inj same
    exact Option.some.inj ((linked.parent_iff.mpr listed').symm.trans (linked.parent_iff.mpr listed))
  · have whole : tree.tokens.toList.map TokenRecord.toToken = Call.tokens before ++ (Call.tokens inside ++ Call.tokens after) := by
      rw [assembled.held, parts]
      simp
    rw [Node.leaves_records (Nat.le_trans (Nat.le_of_eq last) less), whole, first, last, Call.tokens_append,
      List.length_append, Nat.add_sub_cancel_left, List.drop_left, List.take_left]
  · obtain ⟨visits, tours, same, -⟩ := linked.walks stands fun _ => false
    rw [same]
    exact (tours.leaves table rows (.node found .nil) rfl).trans (by rw [Node.leaves, first, last])
  · rw [elements, List.pairwise_map]
    obtain ⟨-, spans, apart⟩ := covered.tiles.spans table rows
    rw [← childrenOf_eq there] at spans apart
    refine apart.imp_of_mem fun {one two} _ listed before filled filled' => ?_
    exact textRange_apart rfl ascending filled filled' before (Nat.le_trans (spans two listed).2 less)

end Assembled

/-- Legal calls build a tree, and all that its tables say fits together. -/
theorem Call.Legal.wired {calls : List Call} (legal : Call.Legal calls) (text : String) :
    ∃ tree, Call.build text calls = .ok tree ∧ tree.Wired calls := by
  obtain ⟨b, tree, made, built, assembled⟩ := legal.exists_assembled text
  have linked := assembled.tabled.linked
  refine ⟨tree, built, assembled.held, fun before kind rest parts => ?_, fun id parent up => ?_, fun id => linked.climbs,
    fun ascending id parent => assembled.within ascending, assembled.apart⟩
  · obtain ⟨depth, -, begun⟩ := Call.leads_append.mp (parts ▸ legal.balanced)
    obtain ⟨deeper, first, later⟩ := Call.leads_cons.mp begun
    cases first
    obtain ⟨inside, after, rfl, balanced, -⟩ := later.split (Nat.zero_le _)
    refine ⟨inside, after, rfl, balanced, assembled.collects made parts balanced fun call found => ?_⟩
    exact legal.proper call (by simp [parts, found])
  · obtain ⟨place, own, rfl⟩ := Option.map_eq_some_iff.mp up
    exact (linked.lt_of_parent own).1

theorem Call.Legal.wired_sum : Call.Legal Call.sum ∧ Ascending (Call.tokens Call.sum) ∧
    ∃ tree, Call.build "a+b" Call.sum = .ok tree ∧ tree.Wired Call.sum := by
  have legal : Call.Legal Call.sum := ⟨by decide, by decide⟩
  exact ⟨legal, ⟨by decide, by decide⟩, legal.wired "a+b"⟩

end LosslessJava.Tree
