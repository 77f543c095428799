import LosslessJava.Tree.Node

/-!
Walks: a node and all below it, each element entered, then what it holds, then left again. A walk
keeps the open nodes with a cursor into the elements of each, so it can be followed step by step and
cut short on the way.
-/
namespace LosslessJava.Tree

/-- Arrival at an element, or departure from it once all below it was visited. -/
inductive Visit (α : Type) where
  | enter (element : α)
  | leave (element : α)

namespace Visit

variable {α β : Type}

def element : Visit α → α
  | .enter a => a
  | .leave a => a

def isEnter : Visit α → Bool
  | .enter _ => true
  | .leave _ => false

/-- The visit, if `f` keeps the element. -/
def filterMap (f : α → Option β) : Visit α → Option (Visit β)
  | .enter a => (f a).map .enter
  | .leave a => (f a).map .leave

end Visit

/-- The node of an element that is one. -/
def Element.node? : Element → Option Node
  | .node n => some n
  | .leaf _ => none

/-- The token of an element that is one. -/
def Element.leaf? : Element → Option Leaf
  | .node _ => none
  | .leaf l => some l

/-- A walk under way. -/
structure Walk where
  tree : Tree
  /-- The node to begin with, as long as it was not entered. -/
  first : Option Nat
  /-- The open nodes, the innermost first, each with the position of its next element. -/
  opened : List (Nat × Nat) := []
  /-- The token that was entered last, as long as it was not left. -/
  leaf : Option Nat := none
  /-- Whether the rest of the innermost open node is to be left out. -/
  skipping : Bool := false

namespace Walk

/-- A walk over a node and all below it. -/
def start (node : Node) : Walk := { tree := node.tree, first := some node.id }

/-- Leaves out what is below the node entered last. -/
def skip (walk : Walk) : Walk := { walk with skipping := true }

/-- The open nodes after a request to skip: the cursor of the innermost one is set to its end. -/
def settled (walk : Walk) : List (Nat × Nat) :=
  match walk.skipping, walk.opened with
  | true, (id, _) :: outer => (id, (walk.tree.childrenOf id).length) :: outer
  | _, opened => opened

/-- The next visit below the open nodes, and the walk after it. -/
def proceed (walk : Walk) : List (Nat × Nat) → Option (Visit Element × Walk)
  | [] => none
  | (id, cursor) :: outer =>
    match (walk.tree.childrenOf id)[cursor]? with
    | some (.node child) =>
      some (.enter (.node ⟨walk.tree, child⟩),
        { walk with skipping := false, opened := (child, 0) :: (id, cursor + 1) :: outer })
    | some (.token index) =>
      some (.enter (.leaf ⟨walk.tree, index⟩),
        { walk with skipping := false, opened := (id, cursor + 1) :: outer, leaf := some index })
    | none => some (.leave (.node ⟨walk.tree, id⟩), { walk with skipping := false, opened := outer })

/-- The next visit, and the walk after it. A request to skip waits until an entered token was left. -/
def next? (walk : Walk) : Option (Visit Element × Walk) :=
  match walk.leaf, walk.first with
  | some index, _ => some (.leave (.leaf ⟨walk.tree, index⟩), { walk with leaf := none })
  | none, some id =>
    some (.enter (.node ⟨walk.tree, id⟩), { walk with first := none, opened := (id, 0) :: walk.opened })
  | none, none => walk.proceed walk.settled

/-- How many tokens may be entered or left before a node is: twice for each element in front of the innermost
cursor. -/
def leavesAhead (walk : Walk) : Nat :=
  (if walk.leaf.isSome then 1 else 0) +
    match walk.opened with
    | [] => 0
    | (id, cursor) :: _ => 2 * ((walk.tree.childrenOf id).length - cursor)

theorem leavesAhead_lt {walk rest : Walk} {leaf : Leaf} {visit : Visit Element} (goes : walk.next? = some (visit, rest))
    (tells : visit.element = .leaf leaf) : rest.leavesAhead < walk.leavesAhead := by
  unfold next? at goes
  split at goes
  · next waits =>
    cases goes
    simp only [leavesAhead, waits, Option.isSome_some, Option.isSome_none, if_true, Bool.false_eq_true,
      if_false]
    omega
  · cases goes
    cases tells
  · next none _ =>
    unfold proceed settled at goes
    split at goes
    · cases goes
    · next id cursor outer stands =>
      split at goes
      · cases goes
        cases tells
      · next index found =>
        cases goes
        have inside := (List.getElem?_eq_some_iff.mp found).1
        split at stands
        · cases stands
          omega
        · simp only [leavesAhead, stands, none, Option.isSome_some, Option.isSome_none, if_true] at inside ⊢
          simp only [Bool.false_eq_true, if_false]
          omega
      · cases goes
        cases tells

/-- The next visit of a node, and the walk after it. Tokens on the way there are passed over. -/
def nextNode? (walk : Walk) : Option (Visit Node × Walk) :=
  match _goes : walk.next? with
  | none => none
  | some (.enter (.node node), rest) => some (.enter node, rest)
  | some (.leave (.node node), rest) => some (.leave node, rest)
  | some (.enter (.leaf _), rest) => rest.nextNode?
  | some (.leave (.leaf _), rest) => rest.nextNode?
termination_by walk.leavesAhead
decreasing_by all_goals exact leavesAhead_lt _goes rfl

/-- The walk after a visit, cut short below a node that satisfies `skipped`. -/
def after (skipped : Node → Bool) (rest : Walk) : Visit Element → Walk
  | .enter (.node node) => if skipped node then rest.skip else rest
  | _ => rest

/-- Follows a walk for at most so many visits; below a node that satisfies `skipped`, nothing is
visited. -/
def follow (skipped : Node → Bool) : Nat → Walk → List (Visit Element)
  | 0, _ => []
  | limit + 1, walk =>
    match walk.next? with
    | none => []
    | some (visit, rest) => visit :: follow skipped limit (rest.after skipped visit)

/-- Follows a walk for at most so many visits of nodes. -/
def followNodes (skipped : Node → Bool) : Nat → Walk → List (Visit Node)
  | 0, _ => []
  | limit + 1, walk =>
    match walk.nextNode? with
    | none => []
    | some (.enter node, rest) =>
      .enter node :: followNodes skipped limit (rest.after skipped (.enter (.node node)))
    | some (.leave node, rest) => .leave node :: followNodes skipped limit rest

end Walk

namespace Node

/-- All visits of a walk over the node. Every node and token of the tree is entered and left at most
once, which bounds their number. -/
def visits (node : Node) (skipped : Node → Bool := fun _ => false) : List (Visit Element) :=
  (Walk.start node).follow skipped (2 * (node.tree.nodeCount + node.tree.tokenCount))

/-- The visits of nodes alone. -/
def nodeVisits (node : Node) (skipped : Node → Bool := fun _ => false) : List (Visit Node) :=
  (Walk.start node).followNodes skipped (2 * node.tree.nodeCount)

/-- The node and all nodes below it, each before those below it. -/
def descendants (node : Node) : List Node :=
  node.nodeVisits.filterMap fun
    | .enter node => some node
    | .leave _ => none

end Node

/-- What someone who listens to a walk is told. A token is one event. -/
inductive WalkEvent where
  | enter (node : Node)
  | exit (node : Node)
  | token (leaf : Leaf)

/-- What is told of a visit. That a token is left is not. -/
def Visit.told? : Visit Element → Option WalkEvent
  | .enter (.node node) => some (.enter node)
  | .leave (.node node) => some (.exit node)
  | .enter (.leaf leaf) => some (.token leaf)
  | .leave (.leaf _) => none

/-- The events of a walk over the node. -/
def Node.walkEvents (node : Node) : List WalkEvent := node.visits.filterMap Visit.told?

end LosslessJava.Tree
