import LosslessJava.Proofs.Building
import LosslessJava.Tree.Walk

/-! What a walk visits, told by recursion: an element is entered, what is below it is visited, and the element is
left. The walk that keeps a stack of cursors makes these visits, so over a tree that was built from a shape it visits
all elements of the shape. -/

namespace LosslessJava

namespace Tree

/-- What stands below a node, as one moves to it. -/
def Child.element (tree : Tree) : Child → Element
  | .node id => .node ⟨tree, id⟩
  | .token index => .leaf ⟨tree, index⟩

def Holds (tree : Tree) (nodes tokens : Nat) (row : List Shape) : Prop :=
  ∀ index < Shape.nodeCounts row,
    tree.rows[nodes + index]? = (Shape.recordsAll nodes tokens row)[index]?

theorem Node.elements_eq (node : Node) : node.elements = (node.tree.childrenOf node.id).map (Child.element node.tree) := by
  refine List.map_congr_left fun child _ => ?_
  cases child <;> rfl

theorem Node.mem_children {node child : Node} : child ∈ node.children ↔ .node child ∈ node.elements := by
  constructor
  · intro found
    obtain ⟨element, member, same⟩ := List.mem_filterMap.mp found
    cases element <;> cases same
    exact member
  · exact fun member => List.mem_filterMap.mpr ⟨_, member, rfl⟩

private theorem Child.of_drop {tree : Tree} {children : List Child} {cursor : Nat} {element : Element} {elements : List Element}
    (ahead : element :: elements = (children.drop cursor).map (Child.element tree)) :
    ∃ child, children[cursor]? = some child ∧ element = child.element tree ∧ cursor < children.length ∧
      elements = (children.drop (cursor + 1)).map (Child.element tree) := by
  have inside : cursor < children.length := by
    refine Nat.lt_of_not_le fun stop => ?_
    rw [List.drop_eq_nil_of_le stop] at ahead
    cases ahead
  rw [List.drop_eq_getElem_cons inside, List.map_cons, List.cons.injEq] at ahead
  exact ⟨children[cursor], List.getElem?_eq_getElem inside, ahead.1, inside, ahead.2⟩

variable {tree : Tree} {nodes tokens : Nat} {kind : Kind} {children rest : List Shape}

theorem Built.holds {stream : TokenStream} (built : tree.Built stream kind children) :
    tree.Holds 0 0 [.node kind children] := by
  intro index _
  rw [← built.rows, Nat.zero_add]

namespace Holds

theorem below (holds : tree.Holds nodes tokens (.node kind children :: rest)) :
    tree.Holds nodes tokens children := by
  intro index inside
  rw [holds index (by simp only [Shape.nodeCounts, Shape.nodeCount]; omega)]
  simp only [Shape.recordsAll, Shape.records, List.append_assoc]
  rw [List.getElem?_append_left (by simpa using inside)]

theorem later {shape : Shape} (holds : tree.Holds nodes tokens (shape :: rest)) :
    tree.Holds (nodes + shape.nodeCount) (tokens + shape.tokens.length) rest := by
  intro index inside
  rw [Nat.add_assoc, holds _ (by simp only [Shape.nodeCounts]; omega), Shape.recordsAll,
    List.getElem?_append_right (by rw [Shape.length_records]; omega), Shape.length_records,
    Nat.add_sub_cancel_left]

theorem elements (holds : tree.Holds nodes tokens (.node kind children :: rest)) :
    (⟨tree, nodes + Shape.nodeCounts children⟩ : Node).elements =
      (Shape.childrenOf nodes tokens children).map (Child.element tree) := by
  have found := holds (Shape.nodeCounts children) (by simp only [Shape.nodeCounts, Shape.nodeCount]; omega)
  simp only [Shape.recordsAll, Shape.records, List.append_assoc] at found
  rw [List.getElem?_append_right (by simp)] at found
  rw [Node.elements_eq, childrenOf_eq (by simpa using found)]

end Holds

variable {skipped : Node → Bool}

namespace Visit

/-- The element that a visit enters. -/
def entered? {α : Type} : Visit α → Option α
  | .enter element => some element
  | .leave _ => none

/-- The visits of nodes among others. -/
def ofNodes (visits : List (Visit Element)) : List (Visit Node) := visits.filterMap (filterMap Element.node?)

variable {visits : List (Visit Element)}

@[simp] theorem ofNodes_nil : ofNodes [] = [] := rfl

@[simp] theorem ofNodes_enter_leaf {leaf : Leaf} : ofNodes (.enter (.leaf leaf) :: visits) = ofNodes visits := rfl

@[simp] theorem ofNodes_leave_leaf {leaf : Leaf} : ofNodes (.leave (.leaf leaf) :: visits) = ofNodes visits := rfl

@[simp] theorem ofNodes_enter {node : Node} :
    ofNodes (.enter (.node node) :: visits) = .enter node :: ofNodes visits := rfl

@[simp] theorem ofNodes_leave {node : Node} :
    ofNodes (.leave (.node node) :: visits) = .leave node :: ofNodes visits := rfl

@[simp] theorem ofNodes_append {front back : List (Visit Element)} :
    ofNodes (front ++ back) = ofNodes front ++ ofNodes back := List.filterMap_append

end Visit

/-- What is visited of elements one after the other. Each is entered and left, and what it holds is visited between,
but for nodes that are skipped. -/
inductive Tours (skipped : Node → Bool) : List Element → List (Visit Element) → Prop where
  | nil : Tours skipped [] []
  | leaf {leaf rest later} (next : Tours skipped rest later) :
      Tours skipped (.leaf leaf :: rest) (.enter (.leaf leaf) :: .leave (.leaf leaf) :: later)
  | node {node rest below later} (inner : Tours skipped (if skipped node then [] else node.elements) below)
      (next : Tours skipped rest later) :
      Tours skipped (.node node :: rest) (.enter (.node node) :: (below ++ .leave (.node node) :: later))

theorem Tours.unique {elements : List Element} {visits others : List (Visit Element)}
    (tours : Tours skipped elements visits) (again : Tours skipped elements others) : visits = others := by
  induction tours generalizing others with
  | nil => cases again; rfl
  | leaf _ ih =>
    cases again with
    | leaf next => rw [ih next]
  | node _ _ inner ih =>
    cases again with
    | node below next => rw [inner below, ih next]

namespace Walk

/-- Followed to its end, a walk makes these visits. -/
inductive Runs (skipped : Node → Bool) : Walk → List (Visit Element) → Prop where
  | done {walk} (ends : walk.next? = none) : Runs skipped walk []
  | step {walk visit rest visits} (goes : walk.next? = some (visit, rest))
      (later : Runs skipped (rest.after skipped visit) visits) : Runs skipped walk (visit :: visits)

private theorem Runs.follow_eq {walk : Walk} {visits : List (Visit Element)} {limit : Nat} (runs : Runs skipped walk visits)
    (enough : visits.length ≤ limit) : walk.follow skipped limit = visits := by
  induction runs generalizing limit with
  | done ends =>
    cases limit with
    | zero => rfl
    | succ limit => simp only [follow, ends]
  | step goes _ ih =>
    cases limit with
    | zero => cases enough
    | succ limit =>
      simp only [follow, goes]
      rw [ih (Nat.le_of_succ_le_succ enough)]

/-- The next visit of a node is the next visit of all, or comes behind that. -/
theorem nextNode?_eq {walk rest : Walk} {visit : Visit Element} (goes : walk.next? = some (visit, rest)) :
    walk.nextNode? = (visit.filterMap Element.node?).elim rest.nextNode? fun found => some (found, rest) := by
  rw [nextNode?]
  split
  case h_1 stops => cases goes.symm.trans stops
  all_goals
    next stops =>
      cases goes.symm.trans stops
      rfl

private theorem nextNode?_eq_none {walk : Walk} (ends : walk.next? = none) : walk.nextNode? = none := by
  rw [nextNode?]
  split
  case h_1 => rfl
  all_goals next goes => cases ends.symm.trans goes

private theorem followNodes_congr {walk other : Walk} (same : walk.nextNode? = other.nextNode?) (limit : Nat) :
    walk.followNodes skipped limit = other.followNodes skipped limit := by
  cases limit with
  | zero => rfl
  | succ limit => simp only [followNodes, same]

/-- Followed to its end, a walk over nodes alone makes those of the visits that are of nodes. -/
theorem Runs.followNodes_eq {walk : Walk} {visits : List (Visit Element)} {limit : Nat} (runs : Runs skipped walk visits)
    (enough : (Visit.ofNodes visits).length ≤ limit) :
    walk.followNodes skipped limit = Visit.ofNodes visits := by
  induction runs generalizing limit with
  | done ends =>
    cases limit with
    | zero => rfl
    | succ limit => simp only [followNodes, nextNode?_eq_none ends, Visit.ofNodes_nil]
  | @step walk visit rest visits goes _ ih =>
    have next := nextNode?_eq goes
    cases visit with
    | enter element =>
      cases element with
      | leaf leaf => exact (followNodes_congr next limit).trans (ih enough)
      | node node =>
        cases limit with
        | zero => cases enough
        | succ limit =>
          simp only [followNodes, next]
          exact congrArg (Visit.enter node :: ·) (ih (Nat.le_of_succ_le_succ enough))
    | leave element =>
      cases element with
      | leaf leaf => exact (followNodes_congr next limit).trans (ih enough)
      | node node =>
        cases limit with
        | zero => cases enough
        | succ limit =>
          simp only [followNodes, next]
          exact congrArg (Visit.leave node :: ·) (ih (Nat.le_of_succ_le_succ enough))

def between (tree : Tree) (opened : List (Nat × Nat)) : Walk := { tree, first := none, opened }

section Steps

variable {id cursor : Nat} {outer : List (Nat × Nat)}

private theorem next?_node {child : Nat} (found : (tree.childrenOf id)[cursor]? = some (.node child)) :
    (between tree ((id, cursor) :: outer)).next? =
      some (.enter (.node ⟨tree, child⟩), between tree ((child, 0) :: (id, cursor + 1) :: outer)) := by
  simp only [next?, between, settled, proceed, found]

private theorem next?_leaf {index : Nat} (found : (tree.childrenOf id)[cursor]? = some (.token index)) :
    (between tree ((id, cursor) :: outer)).next? =
      some (.enter (.leaf ⟨tree, index⟩),
        { between tree ((id, cursor + 1) :: outer) with leaf := some index }) := by
  simp only [next?, between, settled, proceed, found]

private theorem next?_end (stop : (tree.childrenOf id).length ≤ cursor) :
    (between tree ((id, cursor) :: outer)).next? = some (.leave (.node ⟨tree, id⟩), between tree outer) := by
  have none : (tree.childrenOf id)[cursor]? = none := List.getElem?_eq_none_iff.mpr stop
  simp only [next?, between, settled, proceed, none]

private theorem next?_skip : (between tree ((id, cursor) :: outer)).skip.next? =
    some (.leave (.node ⟨tree, id⟩), between tree outer) := by
  simp only [next?, skip, between, settled, proceed, List.getElem?_eq_none (Nat.le_refl _)]

end Steps

end Walk

/-- The walk goes through the elements behind its innermost cursor as the recursion does, and then on behind them. -/
theorem Tours.runs {elements : List Element} {visits more : List (Visit Element)} (tours : Tours skipped elements visits)
    {id cursor : Nat} {outer : List (Nat × Nat)}
    (ahead : elements = ((tree.childrenOf id).drop cursor).map (Child.element tree))
    (inside : cursor ≤ (tree.childrenOf id).length)
    (rest : Walk.Runs skipped (.between tree ((id, (tree.childrenOf id).length) :: outer)) more) :
    Walk.Runs skipped (.between tree ((id, cursor) :: outer)) (visits ++ more) := by
  induction tours generalizing id cursor outer more with
  | nil =>
    have stop : (tree.childrenOf id).length ≤ cursor := by simpa using ahead
    obtain rfl := Nat.le_antisymm inside stop
    exact rest
  | @leaf leaf elements later _ ih =>
    obtain ⟨child, found, same, room, behind⟩ := Child.of_drop ahead
    cases child with
    | node => cases same
    | token index =>
      cases same
      exact .step (Walk.next?_leaf found) (.step rfl (ih behind room rest))
  | @node node elements below later tours _ inner ih =>
    obtain ⟨child, found, same, room, behind⟩ := Child.of_drop ahead
    cases child with
    | token => cases same
    | node child =>
      cases same
      have next := ih behind room rest
      rw [List.cons_append, List.append_assoc, List.cons_append]
      refine .step (Walk.next?_node found) ?_
      simp only [Walk.after]
      cases skips : skipped ⟨tree, child⟩ with
      | true =>
        rw [skips] at tours
        cases tours
        exact .step Walk.next?_skip next
      | false =>
        rw [skips] at inner
        exact inner (Node.elements_eq _) (Nat.zero_le _) (.step (Walk.next?_end (Nat.le_refl _)) next)

theorem Tours.runs_start {node : Node} {visits : List (Visit Element)} (tours : Tours skipped [.node node] visits) :
    Walk.Runs skipped (.start node) visits := by
  cases tours with
  | @node _ _ below _ inner next =>
    cases next
    have ends : Walk.Runs skipped (.between node.tree []) [] := .done rfl
    have first : (Walk.start node).next? = some (.enter (.node node), .between node.tree [(node.id, 0)]) := rfl
    refine .step first ?_
    simp only [Walk.after]
    cases skips : skipped node with
    | true =>
      rw [skips] at inner
      cases inner
      exact .step Walk.next?_skip ends
    | false =>
      rw [skips] at inner
      exact inner.runs (Node.elements_eq _) (Nat.zero_le _) (.step (Walk.next?_end (Nat.le_refl _)) ends)

/-- The walk of a node makes the visits of the recursion, if they are no more than there is room for. -/
theorem Tours.visits_eq {node : Node} {visits : List (Visit Element)} (tours : Tours skipped [.node node] visits)
    (enough : visits.length ≤ 2 * (node.tree.nodeCount + node.tree.tokenCount)) : node.visits skipped = visits :=
  tours.runs_start.follow_eq enough

theorem Tours.nodeVisits_eq {node : Node} {visits : List (Visit Element)} (tours : Tours skipped [.node node] visits)
    (enough : (Visit.ofNodes visits).length ≤ 2 * node.tree.nodeCount) :
    node.nodeVisits skipped = Visit.ofNodes visits :=
  tours.runs_start.followNodes_eq enough

private theorem Holds.tours {row : List Shape} (holds : tree.Holds nodes tokens row) :
    ∃ visits, Tours (fun _ => false) ((Shape.childrenOf nodes tokens row).map (Child.element tree)) visits ∧
      (Visit.ofNodes visits).length = 2 * Shape.nodeCounts row ∧
      ((Visit.ofNodes visits).filterMap Visit.entered?).length = Shape.nodeCounts row := by
  induction row using Shape.row_induction generalizing nodes tokens with
  | nil => exact ⟨[], .nil, rfl, rfl⟩
  | token kind rawCount row ih =>
    obtain ⟨visits, tours, counted, entered⟩ := ih holds.later
    refine ⟨_, .leaf tours, ?_, ?_⟩ <;> simpa [Shape.nodeCounts, Shape.nodeCount]
  | node kind children row below ih =>
    obtain ⟨later, tours, counted, entered⟩ := ih holds.later
    obtain ⟨inner, tours', counted', entered'⟩ := below holds.below
    rw [← holds.elements] at tours'
    refine ⟨_, .node tours' tours, ?_, ?_⟩
    · simp [counted, counted', Shape.nodeCounts, Shape.nodeCount]
      omega
    · simp [List.filterMap_cons, Visit.entered?, entered, entered', Shape.nodeCounts, Shape.nodeCount]
      omega

theorem Node.descendants_eq (node : Node) : node.descendants = node.nodeVisits.filterMap Visit.entered? := by
  unfold descendants
  congr 1
  funext visit
  cases visit <;> rfl

/-- Every node of a tree that was built from a shape is one below its root, or the root itself. -/
theorem Built.length_descendants {stream : TokenStream} (built : tree.Built stream kind children) :
    tree.root.descendants.length = tree.nodeCount := by
  obtain ⟨visits, tours, counted, entered⟩ := built.holds.tours
  have nodeCount := built.nodeCount
  have root : (Shape.childrenOf 0 0 [.node kind children]).map (Child.element tree) = [.node tree.root] := by
    simp [Shape.childrenOf, Child.element, Tree.root, built.rootId]
  rw [root] at tours
  have visited : tree.root.nodeVisits = Visit.ofNodes visits := by
    refine tours.nodeVisits_eq ?_
    rw [counted, ← nodeCount]
    exact Nat.le_refl _
  rw [Node.descendants_eq, visited, nodeCount, entered]

end Tree

end LosslessJava
