import LosslessJava.Proofs.Links
import LosslessJava.Tree.Dump
import Mathlib.Logic.Relation
import Mathlib.Data.List.Basic

/-! Walks over trees in which parents and children agree. Nodes come behind all below them, so the recursion that
visits a node comes to an end; what two elements of one node hold is apart, so it enters nothing twice. No more can
be entered than the tables hold, and a walk has room for that. -/

namespace LosslessJava.Tree

variable {tree : Tree} {skipped : Node → Bool}

/-- The elements that visits enter, in order. -/
def Visit.entered {α : Type} (visits : List (Visit α)) : List α := visits.filterMap entered?

namespace Visit

section Entered

variable {α : Type} {element : α} {visits later : List (Visit α)}

@[simp] theorem entered_nil : entered ([] : List (Visit α)) = [] := rfl

@[simp] theorem entered_enter : entered (.enter element :: visits) = element :: entered visits := rfl

@[simp] theorem entered_leave : entered (.leave element :: visits) = entered visits := rfl

@[simp] theorem entered_append : entered (visits ++ later) = entered visits ++ entered later := List.filterMap_append

end Entered

private theorem entered_ofNodes (visits : List (Visit Element)) :
    entered (ofNodes visits) = (entered visits).filterMap Element.node? := by
  induction visits with
  | nil => rfl
  | cons visit rest ih =>
    cases visit with
    | enter element => cases element <;> simp [ih, List.filterMap_cons, Element.node?]
    | leave element => cases element <;> simp [ih]

/-- Every element that is entered is left later, what is entered between being left between. -/
inductive Nested {α : Type} : List (Visit α) → Prop where
  | nil : Nested []
  | pair {element inner later} (below : Nested inner) (behind : Nested later) :
      Nested (.enter element :: (inner ++ .leave element :: later))

/-- Where the counter of open nodes is taken down, from `depth` at the beginning on, it is above zero. -/
def Afloat : Nat → List (Visit Element) → Prop
  | _, [] => True
  | depth, visit :: rest => (∀ node, visit = .leave (.node node) → 0 < depth) ∧ Afloat (depthAfter depth visit) rest

end Visit

open Visit (entered)

/-- A walk comes to an element: to the node that it starts from, and to what stands directly below a node that it
comes to and does not skip. -/
inductive Node.Reaches (skipped : Node → Bool) (node : Node) : Element → Prop where
  | start : Reaches skipped node (.node node)
  | child {outer : Node} {element : Element} (reached : Reaches skipped node (.node outer))
      (shown : skipped outer = false) (listed : element ∈ outer.elements) : Reaches skipped node element

namespace Tours

variable {elements : List Element} {visits : List (Visit Element)}

private theorem nested (tours : Tours skipped elements visits) : Visit.Nested visits := by
  induction tours with
  | nil => exact .nil
  | leaf _ ih => exact .pair .nil ih
  | node _ _ inner ih => exact .pair inner ih

private theorem length (tours : Tours skipped elements visits) : visits.length = 2 * (entered visits).length := by
  induction tours with
  | nil => rfl
  | leaf _ ih =>
    simp only [Visit.entered_enter, Visit.entered_leave, List.length_cons, ih]
    omega
  | node _ _ inner ih =>
    simp only [Visit.entered_enter, Visit.entered_append, Visit.entered_leave, List.length_cons, List.length_append,
      ih, inner]
    omega

private theorem length_ofNodes (tours : Tours skipped elements visits) :
    (Visit.ofNodes visits).length = 2 * (entered (Visit.ofNodes visits)).length := by
  induction tours with
  | nil => rfl
  | leaf _ ih => exact ih
  | node _ _ inner ih =>
    simp only [Visit.ofNodes_enter, Visit.ofNodes_append, Visit.ofNodes_leave, Visit.entered_enter,
      Visit.entered_append, Visit.entered_leave, List.length_cons, List.length_append, ih, inner]
    omega

private theorem afloat (tours : Tours skipped elements visits) {depth : Nat} {more : List (Visit Element)}
    (later : Visit.Afloat depth more) : Visit.Afloat depth (visits ++ more) := by
  induction tours generalizing depth more with
  | nil => exact later
  | leaf _ ih => exact ⟨nofun, nofun, ih later⟩
  | node _ _ inner ih =>
    rw [List.cons_append, List.append_assoc]
    exact ⟨nofun, inner ⟨fun _ _ => Nat.succ_pos _, ih later⟩⟩

private theorem entered_of_mem (tours : Tours skipped elements visits) {element : Element} (given : element ∈ elements) :
    element ∈ entered visits := by
  induction tours with
  | nil => cases given
  | leaf _ ih =>
    rcases List.mem_cons.mp given with rfl | later
    · exact List.mem_cons_self
    · exact List.mem_cons_of_mem _ (ih later)
  | node _ _ _ ih =>
    rcases List.mem_cons.mp given with rfl | later
    · exact List.mem_cons_self
    · simp only [Visit.entered_enter, Visit.entered_append, Visit.entered_leave]
      exact List.mem_cons_of_mem _ (List.mem_append_right _ (ih later))

/-- Of a node that is entered and not skipped, all elements are entered. -/
theorem entered_below (tours : Tours skipped elements visits) {outer : Node}
    (met : .node outer ∈ entered visits) (shown : skipped outer = false) {element : Element}
    (listed : element ∈ outer.elements) : element ∈ entered visits := by
  induction tours with
  | nil => cases met
  | leaf _ ih =>
    rcases List.mem_cons.mp met with same | later
    · cases same
    · exact List.mem_cons_of_mem _ (ih later)
  | node tours _ inner ih =>
    simp only [Visit.entered_enter, Visit.entered_append, Visit.entered_leave] at met ⊢
    rcases List.mem_cons.mp met with same | met
    · cases same
      rw [shown] at tours
      exact List.mem_cons_of_mem _ (List.mem_append_left _ (tours.entered_of_mem listed))
    · refine List.mem_cons_of_mem _ (List.mem_append.mpr ?_)
      exact (List.mem_append.mp met).imp inner ih

private theorem sublist (tours : Tours skipped elements visits) : elements.Sublist (entered visits) := by
  induction tours with
  | nil => exact .slnil
  | leaf _ ih => exact ih.cons_cons _
  | node _ _ _ ih =>
    simp only [Visit.entered_enter, Visit.entered_append, Visit.entered_leave]
    exact (ih.trans (List.sublist_append_right _ _)).cons_cons _

/-- Nodes are entered in order, each of them with the nodes directly below it. -/
theorem sublist_below (tours : Tours (fun _ => false) elements visits) :
    ((elements.filterMap Element.node?).flatMap fun node => node :: node.children).Sublist
      ((entered visits).filterMap Element.node?) := by
  induction tours with
  | nil => exact .slnil
  | leaf _ ih => exact ih
  | node inner _ _ ih =>
    simp only [Visit.entered_enter, Visit.entered_append, Visit.entered_leave, List.filterMap_cons, Element.node?,
      List.flatMap_cons, List.filterMap_append, List.cons_append]
    exact ((inner.sublist.filterMap Element.node?).append ih).cons_cons _

private theorem reaches (tours : Tours skipped elements visits) {node : Node}
    (reached : ∀ element ∈ elements, node.Reaches skipped element) : ∀ element ∈ entered visits, node.Reaches skipped element := by
  induction tours with
  | nil => exact nofun
  | leaf _ ih =>
    intro element found
    rcases List.mem_cons.mp found with rfl | later
    · exact reached _ List.mem_cons_self
    · exact ih (fun element given => reached element (List.mem_cons_of_mem _ given)) element later
  | @node outer _ _ _ _ _ inner ih =>
    have here : node.Reaches skipped (.node outer) := reached _ List.mem_cons_self
    intro element found
    simp only [Visit.entered_enter, Visit.entered_append, Visit.entered_leave] at found
    rcases List.mem_cons.mp found with rfl | found
    · exact here
    · rcases List.mem_append.mp found with below | later
      · refine inner (fun element listed => ?_) element below
        cases shown : skipped outer with
        | true => simp [shown] at listed
        | false => exact .child here shown (by simpa [shown] using listed)
      · exact ih (fun element given => reached element (List.mem_cons_of_mem _ given)) element later

/-- The walk over a node enters what can be reached from it, and nothing else. -/
theorem mem_entered {node : Node} (tours : Tours skipped [.node node] visits) (element : Element) :
    element ∈ entered visits ↔ node.Reaches skipped element := by
  refine ⟨tours.reaches (fun element given => List.mem_singleton.mp given ▸ .start) element, fun reached => ?_⟩
  induction reached with
  | start => exact tours.entered_of_mem List.mem_cons_self
  | child _ shown listed ih => exact tours.entered_below ih shown listed

end Tours

theorem Child.element_inj {child other : Child} (same : child.element tree = other.element tree) : child = other := by
  cases child <;> cases other <;> cases same <;> rfl

def Up (tree : Tree) (child parent : Child) : Prop := ∃ id, parent = .node id ∧ tree.parentOf child = some id

abbrev Under (tree : Tree) : Child → Child → Prop := Relation.ReflTransGen (Up tree)

def Apart (tree : Tree) (child other : Child) : Prop := ∀ place, Under tree place child → ¬ Under tree place other

private theorem up_unique : Relator.RightUnique (Up tree) := by
  rintro child parent other ⟨id, rfl, up⟩ ⟨id', rfl, up'⟩
  exact congrArg Child.node (Option.some.inj (up.symm.trans up'))

namespace Linked

variable (linked : tree.Linked)

include linked

private theorem le_of_under {id : Nat} {above : Child} (under : Under tree (.node id) above) : ∃ id', above = .node id' ∧ id ≤ id' := by
  induction under with
  | refl => exact ⟨id, rfl, Nat.le_refl id⟩
  | tail _ up ih =>
    obtain ⟨between, rfl, below⟩ := ih
    obtain ⟨above, rfl, parent⟩ := up
    exact ⟨above, rfl, Nat.le_trans below (Nat.le_of_lt (linked.before (linked.parent_iff.mp parent)))⟩

private theorem not_under {child : Child} {id : Nat} (parent : tree.parentOf child = some id) : ¬ Under tree (.node id) child := by
  intro under
  obtain ⟨inner, rfl, above⟩ := linked.le_of_under under
  exact Nat.not_lt.mpr above (linked.before (linked.parent_iff.mp parent))

private theorem eq_of_under {child other : Child} {id : Nat} (parent : tree.parentOf child = some id)
    (parent' : tree.parentOf other = some id) (under : Under tree child other) : child = other := by
  cases under.cases_head with
  | inl same => exact same
  | inr above =>
    obtain ⟨between, ⟨id', rfl, up⟩, under⟩ := above
    obtain rfl := Option.some.inj (up.symm.trans parent)
    exact absurd under (linked.not_under parent')

private theorem apart (id : Nat) : (tree.childrenOf id).Pairwise (Apart tree) := by
  refine (linked.once id).imp_of_mem fun listed listed' other place under under' => other ?_
  rcases Relation.ReflTransGen.total_of_right_unique up_unique under under' with inner | inner
  · exact linked.eq_of_under (linked.parent_iff.mpr listed) (linked.parent_iff.mpr listed') inner
  · exact (linked.eq_of_under (linked.parent_iff.mpr listed') (linked.parent_iff.mpr listed) inner).symm

private theorem stands_of_under {place above : Child} (under : Under tree place above) (stands : tree.Stands above) :
    tree.Stands place := by
  cases under.cases_head with
  | inl same => exact same ▸ stands
  | inr above =>
    obtain ⟨between, ⟨id, rfl, up⟩, -⟩ := above
    exact linked.stands (linked.parent_iff.mp up)

end Linked

private theorem shown_elements (id : Nat) : ∃ children : List Child, children.Sublist (tree.childrenOf id) ∧
    (if skipped ⟨tree, id⟩ then [] else (⟨tree, id⟩ : Node).elements) = children.map (Child.element tree) := by
  cases skipped ⟨tree, id⟩ with
  | true => exact ⟨[], List.nil_sublist _, rfl⟩
  | false => exact ⟨_, List.Sublist.refl _, Node.elements_eq _⟩

namespace Tours

variable {elements : List Element} {visits : List (Visit Element)}

theorem under (linked : tree.Linked) (tours : Tours skipped elements visits) {children : List Child}
    (same : elements = children.map (Child.element tree)) :
    ∀ element ∈ entered visits, ∃ child ∈ children, ∃ place, element = place.element tree ∧ Under tree place child := by
  induction tours generalizing children with
  | nil => exact nofun
  | leaf _ ih =>
    obtain ⟨child, rest, rfl, first, others⟩ := List.map_eq_cons_iff.mp same.symm
    intro element found
    rcases List.mem_cons.mp found with rfl | later
    · exact ⟨child, List.mem_cons_self, child, first.symm, .refl⟩
    · obtain ⟨above, member, under⟩ := ih others.symm element later
      exact ⟨above, List.mem_cons_of_mem _ member, under⟩
  | node _ _ inner ih =>
    obtain ⟨child, rest, rfl, first, others⟩ := List.map_eq_cons_iff.mp same.symm
    intro element found
    simp only [Visit.entered_enter, Visit.entered_append, Visit.entered_leave] at found
    rcases List.mem_cons.mp found with rfl | found
    · exact ⟨child, List.mem_cons_self, child, first.symm, .refl⟩
    rcases List.mem_append.mp found with below | later
    · cases child with
      | token => cases first
      | node id =>
        cases first
        obtain ⟨children, sub, shown⟩ := @shown_elements tree skipped id
        obtain ⟨above, member, place, same, under⟩ := inner shown element below
        exact ⟨.node id, List.mem_cons_self, place, same,
          under.tail ⟨id, rfl, linked.parent_iff.mpr (sub.subset member)⟩⟩
    · obtain ⟨above, member, under⟩ := ih others.symm element later
      exact ⟨above, List.mem_cons_of_mem _ member, under⟩

private theorem once (linked : tree.Linked) (tours : Tours skipped elements visits) {children : List Child}
    (same : elements = children.map (Child.element tree)) (apart : children.Pairwise (Apart tree)) :
    (entered visits).Nodup := by
  induction tours generalizing children with
  | nil => exact .nil
  | leaf next ih =>
    obtain ⟨child, rest, rfl, first, others⟩ := List.map_eq_cons_iff.mp same.symm
    obtain ⟨away, later⟩ := List.pairwise_cons.mp apart
    refine List.nodup_cons.mpr ⟨fun again => ?_, ih others.symm later⟩
    obtain ⟨other, member, place, met, under⟩ := next.under linked others.symm _ again
    obtain rfl := Child.element_inj (first.trans met)
    exact away other member child .refl under
  | node tours next inner ih =>
    obtain ⟨child, rest, rfl, first, others⟩ := List.map_eq_cons_iff.mp same.symm
    obtain ⟨away, later⟩ := List.pairwise_cons.mp apart
    cases child with
    | token => cases first
    | node id =>
      cases first
      obtain ⟨children, sub, shown⟩ := @shown_elements tree skipped id
      have below := tours.under linked shown
      have behind := next.under linked others.symm
      have up {above : Child} (member : above ∈ children) : tree.parentOf above = some id :=
        linked.parent_iff.mpr (sub.subset member)
      simp only [Visit.entered_enter, Visit.entered_append, Visit.entered_leave]
      refine List.nodup_cons.mpr ⟨fun again => ?_, (inner shown ((linked.apart id).sublist sub)).append
        (ih others.symm later) fun element early late => ?_⟩
      · rcases List.mem_append.mp again with early | late
        · obtain ⟨above, member, place, met, under⟩ := below _ early
          obtain rfl := Child.element_inj (show (Child.node id).element tree = place.element tree from met)
          exact linked.not_under (up member) under
        · obtain ⟨other, member, place, met, under⟩ := behind _ late
          obtain rfl := Child.element_inj (show (Child.node id).element tree = place.element tree from met)
          exact away other member (.node id) .refl under
      · obtain ⟨above, member, place, rfl, under⟩ := below _ early
        obtain ⟨other, member', place', met, under'⟩ := behind _ late
        obtain rfl := Child.element_inj met
        exact away other member' place (under.tail ⟨id, rfl, up member⟩) under'

end Tours

private theorem exists_tours_row {children : List Child} (below : ∀ id, .node id ∈ children →
      ∃ visits, Tours skipped (⟨tree, id⟩ : Node).elements visits) :
    ∃ visits, Tours skipped (children.map (Child.element tree)) visits := by
  induction children with
  | nil => exact ⟨[], .nil⟩
  | cons child rest ih =>
    obtain ⟨later, next⟩ := ih fun id found => below id (List.mem_cons_of_mem _ found)
    cases child with
    | token index => exact ⟨_, .leaf next⟩
    | node id =>
      obtain ⟨inner, tours⟩ :
          ∃ inner, Tours skipped (if skipped ⟨tree, id⟩ then [] else (⟨tree, id⟩ : Node).elements) inner := by
        cases skipped ⟨tree, id⟩ with
        | true => exact ⟨[], .nil⟩
        | false => exact below id List.mem_cons_self
      exact ⟨_, .node tours next⟩

namespace Linked

private theorem exists_tours_elements (linked : tree.Linked) (id : Nat) :
    ∃ visits, Tours skipped (⟨tree, id⟩ : Node).elements visits := by
  induction id using Nat.strong_induction_on with
  | _ id ih =>
    rw [Node.elements_eq]
    exact exists_tours_row fun inner found => ih inner (linked.before found)

private theorem exists_tours (linked : tree.Linked) (id : Nat) : ∃ visits, Tours skipped [.node ⟨tree, id⟩] visits :=
  @exists_tours_row tree skipped [.node id] fun inner _ => linked.exists_tours_elements inner

section Bounds

variable {id : Nat} {visits : List (Visit Element)}

private theorem nodup_entered (linked : tree.Linked) (tours : Tours skipped [.node ⟨tree, id⟩] visits) : (entered visits).Nodup :=
  tours.once linked (show _ = [Child.node id].map (Child.element tree) from rfl) (List.pairwise_singleton _ _)

private theorem stands_of_entered (linked : tree.Linked) (inside : id < tree.nodeCount)
    (tours : Tours skipped [.node ⟨tree, id⟩] visits) {element : Element} (met : element ∈ entered visits) :
    ∃ place : Child, element = place.element tree ∧ tree.Stands place := by
  obtain ⟨child, member, place, same, under⟩ :=
    tours.under linked (show _ = [Child.node id].map (Child.element tree) from rfl) element met
  obtain rfl := List.mem_singleton.mp member
  exact ⟨place, same, linked.stands_of_under under inside⟩

private theorem length_entered (linked : tree.Linked) (inside : id < tree.nodeCount)
    (tours : Tours skipped [.node ⟨tree, id⟩] visits) :
    (entered visits).length ≤ tree.nodeCount + tree.tokenCount := by
  let all := (List.range tree.nodeCount).map (fun id => Element.node ⟨tree, id⟩) ++
    (List.range tree.tokenCount).map fun index => Element.leaf ⟨tree, index⟩
  have within : entered visits ⊆ all := by
    intro element met
    obtain ⟨place, rfl, stands⟩ := linked.stands_of_entered inside tours met
    cases place with
    | node id => exact List.mem_append_left _ (List.mem_map.mpr ⟨id, List.mem_range.mpr stands, rfl⟩)
    | token index => exact List.mem_append_right _ (List.mem_map.mpr ⟨index, List.mem_range.mpr stands, rfl⟩)
  have fewer := ((linked.nodup_entered tours).subperm within).length_le
  simpa [all] using fewer

private theorem length_entered_ofNodes (linked : tree.Linked) (inside : id < tree.nodeCount)
    (tours : Tours skipped [.node ⟨tree, id⟩] visits) :
    (entered (Visit.ofNodes visits)).length ≤ tree.nodeCount := by
  have within : entered (Visit.ofNodes visits) ⊆ (List.range tree.nodeCount).map (Node.mk tree) := by
    intro node met
    rw [Visit.entered_ofNodes] at met
    obtain ⟨element, met, same⟩ := List.mem_filterMap.mp met
    obtain ⟨place, rfl, stands⟩ := linked.stands_of_entered inside tours met
    cases place with
    | node id =>
      cases same
      exact List.mem_map.mpr ⟨id, List.mem_range.mpr stands, rfl⟩
    | token index => cases same
  have once : (entered (Visit.ofNodes visits)).Nodup := by
    rw [Visit.entered_ofNodes]
    refine (linked.nodup_entered tours).filterMap fun one two node first second => ?_
    cases one <;> cases first
    cases two <;> cases second
    rfl
  have fewer := (once.subperm within).length_le
  simpa using fewer

end Bounds

/-- What the recursion visits is what a walk visits. -/
theorem walks (linked : tree.Linked) {id : Nat} (inside : id < tree.nodeCount) (skipped : Node → Bool) :
    ∃ visits, Tours skipped [.node ⟨tree, id⟩] visits ∧ (⟨tree, id⟩ : Node).visits skipped = visits ∧
      (⟨tree, id⟩ : Node).nodeVisits skipped = Visit.ofNodes visits := by
  obtain ⟨visits, tours⟩ := @exists_tours tree skipped linked id
  refine ⟨visits, tours, tours.visits_eq ?_, tours.nodeVisits_eq ?_⟩
  · rw [tours.length]
    exact Nat.mul_le_mul_left 2 (linked.length_entered inside tours)
  · rw [tours.length_ofNodes]
    exact Nat.mul_le_mul_left 2 (linked.length_entered_ofNodes inside tours)

theorem node_unique (linked : tree.Linked) {one other : Node} (here : one.tree = tree) (there : other.tree = tree)
    {element : Element} (listed : element ∈ one.elements) (again : element ∈ other.elements) : one = other := by
  obtain ⟨_, id⟩ := one
  obtain ⟨_, id'⟩ := other
  subst here
  cases there
  rw [Node.elements_eq] at listed again
  obtain ⟨child, member, rfl⟩ := List.mem_map.mp listed
  obtain ⟨child', member', same⟩ := List.mem_map.mp again
  obtain rfl := Child.element_inj same
  exact congrArg _ (Option.some.inj ((linked.parent_iff.mpr member).symm.trans (linked.parent_iff.mpr member')))

end Linked

structure Node.Covers (node : Node) : Prop where
  mem_iff : ∀ {below : Node}, below ∈ node.descendants ↔ node.Reaches (fun _ => false) (.node below)
  once : node.descendants.Nodup
  inside : ∀ below ∈ node.descendants, below.tree = node.tree ∧ below.id < node.tree.nodeCount
  inOrder : (node.children.flatMap fun child => child :: child.children).Sublist node.descendants

theorem Linked.covers (linked : tree.Linked) {id : Nat} (inside : id < tree.nodeCount) : (⟨tree, id⟩ : Node).Covers := by
  obtain ⟨visits, tours, -, nodes⟩ := linked.walks inside fun _ => false
  have all : (⟨tree, id⟩ : Node).descendants = (entered visits).filterMap Element.node? := by
    rw [Node.descendants_eq, nodes, ← Visit.entered_ofNodes]
    rfl
  have member {below : Node} : below ∈ (⟨tree, id⟩ : Node).descendants ↔ .node below ∈ entered visits := by
    rw [all, List.mem_filterMap]
    constructor
    · rintro ⟨element, met, same⟩
      cases element <;> cases same
      exact met
    · exact fun met => ⟨_, met, rfl⟩
  refine ⟨member.trans (tours.mem_entered _), ?_, fun below met => ?_, ?_⟩
  · rw [all]
    refine (linked.nodup_entered tours).filterMap fun one two node first second => ?_
    cases one <;> cases first
    cases two <;> cases second
    rfl
  · obtain ⟨place, same, stands⟩ := linked.stands_of_entered inside tours (member.mp met)
    cases place <;> cases same
    exact ⟨rfl, stands⟩
  · rw [all]
    cases tours with
    | node inner next =>
      cases next
      simp only [Visit.entered_enter, Visit.entered_append, Visit.entered_leave, Visit.entered_nil, List.append_nil,
        List.filterMap_cons, Element.node?]
      exact inner.sublist_below.cons _

/-- What is said of walks from a node: they make the visits of the recursion, step by step and to the end. The walk
over nodes and those who listen are told of the same visits. What is entered is left in turn, what can be reached is
entered once, and the counter of a dump is not taken below zero. -/
structure Node.Toured (node : Node) (skipped : Node → Bool) : Prop where
  visits_iff : ∀ visits, Tours skipped [.node node] visits ↔ visits = node.visits skipped
  runs : Walk.Runs skipped (.start node) (node.visits skipped)
  nodes : node.nodeVisits skipped = Visit.ofNodes (node.visits skipped)
  told : ∀ visits, Tours (fun _ => false) [.node node] visits → node.walkEvents = visits.filterMap Visit.told?
  nested : Visit.Nested (node.visits skipped)
  once : (entered (node.visits skipped)).Nodup
  reached : ∀ element, element ∈ entered (node.visits skipped) ↔ node.Reaches skipped element
  afloat : Visit.Afloat 0 node.visits

/-- In a tree that was built, walks make the visits of the recursion, from every node and whatever is skipped. -/
theorem Node.toured_of_build {text : String} {calls : List Call} {node : Node}
    (built : Call.build text calls = .ok node.tree) (inside : node.id < node.tree.nodeCount) (skipped : Node → Bool) :
    node.Toured skipped := by
  have linked := Builder.linked_of_build built
  obtain ⟨visits, tours, rfl, nodes⟩ := linked.walks inside skipped
  obtain ⟨all, whole, rfl, -⟩ := linked.walks inside fun _ => false
  refine ⟨fun visits => ⟨fun other => other.unique tours, fun same => same ▸ tours⟩, tours.runs_start, nodes,
    fun visits other => ?_, tours.nested, linked.nodup_entered tours, tours.mem_entered, ?_⟩
  · rw [Node.walkEvents, other.unique whole]
  · have ended : Visit.Afloat 0 ([] : List (Visit Element)) := trivial
    simpa using whole.afloat ended

/-- A sum of two names, as it is built from `a+b`. -/
def Call.sum : List Call :=
  [.start .binaryExpr, .start .nameExpr, .token { kind := .identifier, range := ⟨0, 1⟩ }, .finish,
    .token { kind := .plus, range := ⟨1, 2⟩ }, .start .nameExpr, .token { kind := .identifier, range := ⟨2, 3⟩ }, .finish,
    .finish]

theorem Node.toured_of_build_sum :
    ∃ node : Node, Call.build "a+b" Call.sum = .ok node.tree ∧ node.kind = .binaryExpr ∧
      node.Toured fun below => below.kind = .nameExpr := by
  have checked : (Call.build "a+b" Call.sum).toOption.any (fun tree =>
      decide (2 < tree.nodeCount) && decide ((⟨tree, 2⟩ : Node).kind = .binaryExpr)) = true := by decide +kernel
  cases built : Call.build "a+b" Call.sum with
  | error => simp [built, Except.toOption] at checked
  | ok tree =>
    obtain ⟨inside, kind⟩ : 2 < tree.nodeCount ∧ (⟨tree, 2⟩ : Node).kind = .binaryExpr := by
      simpa [built, Except.toOption] using checked
    let node : Node := ⟨tree, 2⟩
    have toured : node.Toured fun below => below.kind = .nameExpr := Node.toured_of_build built inside _
    exact ⟨node, rfl, kind, toured⟩

end LosslessJava.Tree
