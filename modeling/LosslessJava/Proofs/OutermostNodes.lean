import LosslessJava.Proofs.AssembledTrees

/-! What a tree loses of what was built. Of the nodes outside of all others only the last is kept, and where tokens
stand outside of it too, it comes before all of them. So a walk from the root meets all that was built, in order, just
if one node at most is outermost, and tokens come before it only if it has none of its own. -/

namespace LosslessJava.Tree

open Visit (entered)

/-- Nothing that was built is lost: a walk from the root comes to every node, and to the tokens in their order. -/
structure Complete (tree : Tree) : Prop where
  nodes : ∀ id < tree.nodeCount, .node ⟨tree, id⟩ ∈ entered tree.root.visits
  tokens : (entered tree.root.visits).filterMap Element.leaf? = tree.leaves

variable {tree : Tree}

/-- All nodes can be reached from one without a parent if no other is without. -/
theorem Linked.reaches_iff (linked : tree.Linked) {root : Nat} :
    (∀ id < tree.nodeCount, (⟨tree, root⟩ : Node).Reaches (fun _ => false) (.node ⟨tree, id⟩)) ↔
      ∀ id < tree.nodeCount, tree.parentOf (.node id) = none → id = root := by
  constructor
  · intro reached id stands orphan
    cases reached id stands with
    | start => rfl
    | child _ _ listed =>
      rw [Node.elements_eq] at listed
      obtain ⟨child, member, same⟩ := List.mem_map.mp listed
      cases child <;> cases same
      cases (linked.parent_iff.mpr member).symm.trans orphan
  · intro only id stands
    induction room : tree.nodeCount - id using Nat.strong_induction_on generalizing id with
    | _ bound ih =>
      cases up : tree.parentOf (.node id) with
      | none =>
        obtain rfl := only id stands up
        exact .start
      | some parent =>
        obtain ⟨behind, inside⟩ := linked.lt_of_parent up
        refine .child (ih (tree.nodeCount - parent) (by omega) parent inside rfl) rfl ?_
        rw [Node.elements_eq]
        exact List.mem_map.mpr ⟨.node id, linked.parent_iff.mp up, rfl⟩

private theorem Tours.split {skipped : Node → Bool} {front back : List Element} {visits : List (Visit Element)}
    (tours : Tours skipped (front ++ back) visits) :
    ∃ early late, visits = early ++ late ∧ Tours skipped front early ∧ Tours skipped back late := by
  induction front generalizing visits with
  | nil => exact ⟨[], visits, rfl, .nil, tours⟩
  | cons element rest ih =>
    cases tours with
    | leaf next =>
      obtain ⟨early, late, rfl, first, second⟩ := ih next
      exact ⟨_, late, rfl, .leaf first, second⟩
    | node inner next =>
      obtain ⟨early, late, rfl, first, second⟩ := ih next
      exact ⟨_, late, by simp, .node inner first, second⟩

private theorem Tiles.split {rows : List Row} {first stop : Nat} {front back : List Child}
    (tiles : Tiles rows first (front ++ back) stop) :
    ∃ middle, Tiles rows first front middle ∧ Tiles rows middle back stop := by
  induction front generalizing first with
  | nil => exact ⟨first, .nil, tiles⟩
  | cons child rest ih =>
    cases tiles with
    | token later =>
      obtain ⟨middle, early, late⟩ := ih later
      exact ⟨middle, .token early, late⟩
    | node found later =>
      obtain ⟨middle, early, late⟩ := ih later
      exact ⟨middle, .node found early, late⟩

namespace Call

variable {calls : List Call}

/-- One node at most is outermost, and tokens come before it only if it has none of its own. -/
inductive Gathered : List Call → Prop where
  | tokens (given : List Token) : Gathered (given.map .token)
  | node {kind : Kind} {inside : List Call} (before after : List Token) (balanced : Balanced inside)
      (first : before = [] ∨ Call.tokens inside = []) :
      Gathered (before.map .token ++ .start kind :: (inside ++ .finish :: after.map .token))

/-- Behind the outermost node that is finished last there are only tokens. -/
theorem Balanced.last_node (balanced : Balanced calls) : (∃ given : List Token, calls = given.map .token) ∨
    ∃ before kind inside, ∃ after : List Token, calls = before ++ .start kind :: (inside ++ .finish :: after.map .token) ∧
      Balanced before ∧ Balanced inside := by
  induction calls, balanced using Balanced.induction with
  | nil => exact .inl ⟨[], rfl⟩
  | token given rest _ ih =>
    rcases ih with ⟨more, rfl⟩ | ⟨before, kind, inside, after, rfl, first, below⟩
    · exact .inl ⟨given :: more, rfl⟩
    · exact .inr ⟨.token given :: before, kind, inside, after, rfl, first.token, below⟩
  | node kind inside rest below _ _ ih =>
    rcases ih with ⟨more, rfl⟩ | ⟨before, kind', inside', after, rfl, first, below'⟩
    · exact .inr ⟨[], kind, inside, more, rfl, rfl, below⟩
    · exact .inr ⟨.start kind :: (inside ++ .finish :: before), kind', inside', after, by simp, below.node first, below'⟩

@[simp] theorem tokens_map (given : List Token) : tokens (given.map .token) = given := by
  induction given with
  | nil => rfl
  | cons first rest ih => rw [List.map_cons, tokens_token, ih]

private theorem balanced_map (given : List Token) : Balanced (given.map .token) := by
  induction given with
  | nil => rfl
  | cons first rest ih => exact ih.token

private theorem appended_map (nodes count : Nat) (given : List Token) :
    appended nodes count 0 (given.map .token) = (List.range' count given.length).map .token := by
  induction given generalizing count with
  | nil => rfl
  | cons first rest ih => simp [appended, ih, List.range'_succ]

private theorem Balanced.tokens_of_appended (balanced : Balanced calls) {nodes count : Nat}
    (none : ∀ id, .node id ∉ appended nodes count 0 calls) : ∃ given : List Token, calls = given.map .token := by
  induction calls, balanced using Balanced.induction generalizing nodes count with
  | nil => exact ⟨[], rfl⟩
  | token given rest _ ih =>
    obtain ⟨more, rfl⟩ := @ih nodes (count + 1) fun id found => none id (List.mem_cons_of_mem _ found)
    exact ⟨given :: more, rfl⟩
  | node kind inside rest below _ _ _ =>
    rw [appended_node below] at none
    exact absurd List.mem_cons_self (none _)

end Call

namespace Builder.Completes

variable {b : Builder} (completes : Completes b tree) (sound : b.Sound)

include completes sound

theorem inside : tree.rootId < tree.nodeCount := by
  cases completes with
  | @whole root outermost nothing =>
    exact sound.stands (.node root) (by simp [Builder.waiting, outermost])
  | wrapped stray finishes => exact Nat.lt_of_lt_of_eq (Nat.lt_succ_self _) finishes.nodes.symm

/-- A walk from the root meets the tokens of what waits for a parent when the tree is completed. -/
theorem tours : ∃ visits, Tours (fun _ => false) (b.waiting.map (Child.element tree)) visits ∧
    (entered tree.root.visits).filterMap Element.leaf? = (entered visits).filterMap Element.leaf? := by
  obtain ⟨visits, tours, same, -⟩ := (completes.linked sound).walks (completes.inside sound) fun _ => false
  have walked : tree.root.visits = visits := same
  rw [walked]
  cases completes with
  | @whole root outermost nothing =>
    have waiting : b.waiting = [.node root] := by simp [Builder.waiting, outermost, nothing]
    exact ⟨visits, by rw [waiting]; exact tours, rfl⟩
  | @wrapped c stray finishes =>
    have children : (c.toTree b.nodes.size).childrenOf b.nodes.size = b.waiting :=
      (finishes.childrenOf b.nodes.size).trans (if_pos rfl)
    cases tours with
    | node inner next =>
      cases next
      have inner : Tours (fun _ => false) (⟨c.toTree b.nodes.size, b.nodes.size⟩ : Node).elements _ := inner
      rw [Node.elements_eq, children] at inner
      exact ⟨_, inner, by simp [List.filterMap_cons, Element.leaf?]⟩

omit sound in
/-- A node cannot be reached from the root if it was outermost and does not wait for a parent in the end. -/
theorem lost_iff {text : String} {calls : List Call} (stretch : Stretch calls (.ofText text) b)
    (balanced : Call.Balanced calls) (id : Nat) :
    (id < tree.nodeCount ∧ tree.parentOf (.node id) = none ∧ id ≠ tree.rootId) ↔
      .node id ∈ (Builder.ofText text).gains calls ∧ .node id ∉ b.waiting := by
  have fresh : ¬ ((Builder.ofText text).toTree 0).Stands (.node id) := Nat.not_lt_zero id
  have orphan (inside : id < b.nodes.size) := stretch.orphans (.node id) inside fresh
  have stands (gained : .node id ∈ (Builder.ofText text).gains calls) : id < b.nodes.size := by
    have there : (b.toTree 0).Stands (.node id) := (stretch.grows.fresh balanced gained).1
    exact there
  cases completes with
  | @whole root outermost nothing =>
    have waiting : .node id ∈ b.waiting ↔ id = root := by simp [Builder.waiting, outermost, nothing]
    rw [waiting]
    constructor
    · rintro ⟨inside, alone, other⟩
      exact ⟨(orphan inside).mp alone, other⟩
    · rintro ⟨gained, other⟩
      exact ⟨stands gained, (orphan (stands gained)).mpr gained, other⟩
  | @wrapped c stray finishes =>
    have size : (c.toTree b.nodes.size).nodeCount = b.nodes.size + 1 := finishes.nodes
    have parent : (c.toTree b.nodes.size).parentOf (.node id) =
        if .node id ∈ b.waiting then some b.nodes.size else (b.toTree 0).parentOf (.node id) := finishes.parents (.node id)
    rw [size, parent]
    constructor
    · rintro ⟨less, alone, other⟩
      have inside : id < b.nodes.size := Nat.lt_of_le_of_ne (Nat.le_of_lt_succ less) other
      split at alone
      · cases alone
      · next outside => exact ⟨(orphan inside).mp alone, outside⟩
    · rintro ⟨gained, outside⟩
      rw [if_neg outside]
      exact ⟨Nat.lt_succ_of_lt (stands gained), (orphan (stands gained)).mpr gained, Nat.ne_of_lt (stands gained)⟩

private theorem nodes_iff {text : String} {calls : List Call} (stretch : Stretch calls (.ofText text) b)
    (balanced : Call.Balanced calls) :
    (∀ id < tree.nodeCount, .node ⟨tree, id⟩ ∈ entered tree.root.visits) ↔
      ∀ id, .node id ∈ (Builder.ofText text).gains calls → .node id ∈ b.waiting := by
  have linked := completes.linked sound
  obtain ⟨visits, tours, same, -⟩ := linked.walks (completes.inside sound) fun _ => false
  have walked : tree.root.visits = visits := same
  have reached id : .node ⟨tree, id⟩ ∈ entered tree.root.visits ↔
      (⟨tree, tree.rootId⟩ : Node).Reaches (fun _ => false) (.node ⟨tree, id⟩) := walked ▸ tours.mem_entered _
  simp only [reached]
  rw [linked.reaches_iff]
  constructor
  · intro only id gained
    by_contra outside
    obtain ⟨inside, orphan, other⟩ := (completes.lost_iff stretch balanced id).mpr ⟨gained, outside⟩
    exact other (only id inside orphan)
  · intro waits id inside orphan
    by_contra other
    obtain ⟨gained, outside⟩ := (completes.lost_iff stretch balanced id).mp ⟨inside, orphan, other⟩
    exact outside (waits id gained)

end Builder.Completes

/-- The tokens of a node, and those before it and behind it, are all tokens in order just if there are none of the one
or of the other. -/
theorem range_moved_iff {first last count : Nat} (ordered : first ≤ last) (less : last ≤ count) :
    List.range' first (last - first) ++ (List.range' 0 first ++ List.range' last (count - last)) = List.range count ↔
      first = 0 ∨ last = first := by
  obtain ⟨own, rfl⟩ := Nat.exists_eq_add_of_le ordered
  obtain ⟨behind, rfl⟩ := Nat.exists_eq_add_of_le less
  rw [List.range_eq_range', Nat.add_sub_cancel_left, Nat.add_sub_cancel_left]
  constructor
  · intro same
    by_contra both
    obtain ⟨place, rfl⟩ := Nat.exists_eq_add_one_of_ne_zero (show own ≠ 0 by omega)
    have start := congrArg List.head? same
    simp [List.range'_succ, List.head?_range'] at start
    omega
  · have glued (front : Nat) : List.range' 0 front ++ List.range' front behind = List.range' 0 (front + behind) := by
      simpa using @List.range'_append_1 0 front behind
    rintro (rfl | empty)
    · simpa using glued own
    · obtain rfl : own = 0 := by omega
      simpa using glued first

namespace Assembled

variable {calls : List Call} {b : Builder} (assembled : Assembled calls b tree)

include assembled

theorem met {first stop : Nat} {children : List Child} {visits : List (Visit Element)}
    (tours : Tours (fun _ => false) (children.map (Child.element tree)) visits) (tiles : Tiles b.rows first children stop) :
    (entered visits).filterMap Element.leaf? = (List.range' first (stop - first)).map (Leaf.mk tree) := by
  obtain ⟨more, table, -⟩ := assembled.tabled.rows
  exact tours.leaves table (fun row found => (assembled.covered found).1) tiles rfl

end Assembled

private theorem leaves_eq_iff {places : List Nat} : places.map (Leaf.mk tree) = tree.leaves ↔ places = List.range tree.tokenCount :=
  (List.map_injective_iff.mpr fun _ _ same => congrArg Leaf.index same).eq_iff

namespace Call

open Builder

section Completed

variable {calls : List Call} {b : Builder} {text : String} (stretch : Stretch calls (.ofText text) b)

include stretch

/-- The outermost node that is finished last is the only one that is kept, before all tokens outside of it. -/
theorem waiting_of_last {before inside : List Call} {kind : Kind} {after : List Token} (balanced : Balanced before)
    (below : Balanced inside) (parts : calls = before ++ .start kind :: (inside ++ .finish :: after.map .token)) :
    ∃ behind : List Child, (∀ id, .node id ∉ behind) ∧
      (Builder.ofText text).gains calls = appended 0 0 0 before ++ .node (finished (before ++ inside)) :: behind ∧
      b.waiting = .node (finished (before ++ inside)) :: ((appended 0 0 0 before).filter Child.isToken ++ behind) := by
  let behind : List Child := (List.range' (tokens (before ++ inside)).length after.length).map .token
  have gained : (Builder.ofText text).gains calls =
      appended 0 0 0 before ++ .node (finished (before ++ inside)) :: behind := by
    rw [parts]
    refine (appended_append balanced).trans (congrArg (appended 0 0 0 before ++ ·) ?_)
    rw [appended_node below, appended_map]
    simp [behind, Builder.ofText]
  have strays : behind.filterMap Child.node? = [] ∧ behind.filter Child.isToken = behind := by
    constructor <;> simp [behind, List.filterMap_map, List.filter_map, Function.comp_def, Child.node?, Child.isToken]
  obtain ⟨root, pending⟩ := stretch.outermost rfl
  refine ⟨behind, fun id found => ?_, gained, ?_⟩
  · obtain ⟨index, -, same⟩ := List.mem_map.mp found
    cases same
  · have last : b.root = some (finished (before ++ inside)) := by
      rw [root, gained, List.filterMap_append, List.filterMap_cons_some (show Child.node? (.node _) = some _ from rfl), strays.1]
      simp
    have some : b.pending.toList = (appended 0 0 0 before).filter Child.isToken ++ behind := by
      rw [pending, gained, List.filter_append, List.filter_cons_of_neg (by simp [Child.isToken]), strays.2]
      rfl
    rw [Builder.waiting, last, some]
    rfl

variable (sound : b.Sound) (completes : Completes b tree)

include sound completes

private theorem complete_of_tokens {given : List Token} (parts : calls = given.map .token) : tree.Complete := by
  subst parts
  have assembled : Assembled _ b tree := ⟨completes.tabled sound, text, stretch⟩
  have gained : (Builder.ofText text).gains (given.map .token) = (List.range' 0 given.length).map .token :=
    appended_map _ _ given
  obtain ⟨root, pending⟩ := stretch.outermost rfl
  have waiting : b.waiting = (Builder.ofText text).gains (given.map .token) := by
    rw [Builder.waiting, root, pending, gained]
    simp [Builder.ofText, List.filterMap_map, Function.comp_def, Child.node?, Child.isToken, List.filter_map]
  refine ⟨(completes.nodes_iff sound stretch (balanced_map given)).mpr fun id found => waiting ▸ found, ?_⟩
  obtain ⟨visits, tours, same⟩ := completes.tours sound
  rw [same, assembled.met tours (waiting ▸ stretch.tiles), leaves_eq_iff, assembled.tokenCount, List.range_eq_range']
  rfl

private theorem complete_iff_of_node {before after : List Token} {inside : List Call} {kind : Kind} (below : Balanced inside)
    (proper : ∀ call ∈ inside, call.Proper) (made : runAll (.ofText text) calls = .ok b)
    (parts : calls = before.map .token ++ .start kind :: (inside ++ .finish :: after.map .token)) :
    tree.Complete ↔ before = [] ∨ tokens inside = [] := by
  have balanced : Balanced calls := parts ▸ (balanced_map before).append (below.node (balanced_map after))
  have assembled : Assembled calls b tree := ⟨completes.tabled sound, text, stretch⟩
  obtain ⟨behind, strays, gained, waiting⟩ := waiting_of_last stretch (balanced_map before) below parts
  have own := row_of_start (parts ▸ made) below proper
  generalize finished (before.map .token ++ inside) = root at gained waiting own
  let early : List Child := (List.range' 0 before.length).map .token
  have front : appended 0 0 0 (before.map .token) = early := appended_map 0 0 before
  have kept : early.filter Child.isToken = early := by
    simp [early, List.filter_map, Function.comp_def, Child.isToken]
  rw [front] at gained waiting
  rw [kept] at waiting
  have nodes : ∀ id, .node id ∈ (Builder.ofText text).gains calls → .node id ∈ b.waiting := by
    intro id found
    rw [waiting]
    rcases List.mem_append.mp (gained ▸ found) with stray | found
    · obtain ⟨index, -, same⟩ := List.mem_map.mp stray
      cases same
    · rcases List.mem_cons.mp found with same | stray
      · exact same ▸ List.mem_cons_self
      · exact absurd stray (strays id)
  have size : tree.tokenCount = before.length + (tokens inside).length + after.length := by
    rw [assembled.tokenCount, stretch.grows.tokens, parts]
    simp [Builder.ofText, Nat.add_assoc]
  have first : (tokens (before.map .token)).length = before.length := by rw [tokens_map]
  have last : (tokens (before.map .token ++ inside)).length = before.length + (tokens inside).length := by simp
  rw [first, last] at own
  obtain ⟨middle, tiles, later⟩ := (gained ▸ stretch.tiles).split
  cases later with
  | @node _ row _ _ found tiles' =>
    obtain rfl := Option.some.inj (found.symm.trans own)
    obtain ⟨visits, tours, same⟩ := completes.tours sound
    rw [waiting] at tours
    obtain ⟨inner, others, rfl, tour, tours⟩ := @Tours.split _ [.node ⟨tree, root⟩] _ _ tours
    rw [List.map_append] at tours
    obtain ⟨one, two, rfl, tour', tour''⟩ := tours.split
    have met : (entered tree.root.visits).filterMap Element.leaf? =
        (List.range' before.length (before.length + (tokens inside).length - before.length) ++
          (List.range' 0 before.length ++ List.range' (before.length + (tokens inside).length)
            (tree.tokenCount - (before.length + (tokens inside).length)))).map (Leaf.mk tree) := by
      rw [same, Visit.entered_append, Visit.entered_append, List.filterMap_append, List.filterMap_append,
        @Assembled.met tree calls b assembled _ _ [.node root] _ tour (.node found .nil), assembled.met tour' tiles,
        assembled.met tour'' tiles', assembled.tokenCount, List.map_append, List.map_append]
      rfl
    calc tree.Complete
      _ ↔ (entered tree.root.visits).filterMap Element.leaf? = tree.leaves :=
        ⟨Complete.tokens, fun tokens => ⟨(completes.nodes_iff sound stretch balanced).mpr nodes, tokens⟩⟩
      _ ↔ before.length = 0 ∨ before.length + (tokens inside).length = before.length := by
        rw [met, leaves_eq_iff, range_moved_iff (Nat.le_add_right _ _) (size ▸ Nat.le_add_right _ _)]
      _ ↔ before = [] ∨ tokens inside = [] := by simp

end Completed

/-- Legal calls build a tree, and nothing that was built is lost just if one node at most is outermost, and tokens come
before it only if it has none of its own. -/
theorem Legal.complete_iff {calls : List Call} (legal : Legal calls) (text : String) :
    ∃ tree, build text calls = .ok tree ∧ (tree.Complete ↔ Gathered calls) := by
  obtain ⟨b, tree, made, stretch, sound, built, completes⟩ := legal.exists_completes text
  refine ⟨tree, built, fun complete => ?_, fun gathered => ?_⟩
  · rcases legal.balanced.last_node with ⟨given, rfl⟩ | ⟨before, kind, inside, after, rfl, first, below⟩
    · exact .tokens given
    · -- An outermost node before the last one would be lost.
      have kept := (completes.nodes_iff sound stretch legal.balanced).mp complete.nodes
      obtain ⟨behind, strays, gained, waiting⟩ := waiting_of_last stretch first below rfl
      rw [gained, waiting] at kept
      obtain ⟨given, rfl⟩ := first.tokens_of_appended fun id found => by
        have less := (node_of_appended first found).2
        rcases List.mem_cons.mp (kept id (List.mem_append_left _ found)) with same | stray
        · cases same
          simp at less
        · rcases List.mem_append.mp stray with token | stray
          · cases (List.mem_filter.mp token).2
          · exact strays id stray
      have proper call (found : call ∈ inside) : call.Proper := legal.proper call (by simp [found])
      exact .node given after below ((complete_iff_of_node stretch sound completes below proper made rfl).mp complete)
  · cases gathered with
    | tokens given => exact complete_of_tokens stretch sound completes rfl
    | @node kind inside before after below first =>
      have proper call (found : call ∈ inside) : call.Proper := legal.proper call (by simp [found])
      exact (complete_iff_of_node stretch sound completes below proper made rfl).mpr first

/-- A name, and behind it a node that has no tokens. -/
def trailed : List Call := [.token { kind := .identifier, range := ⟨0, 1⟩ }, .start .modifierList, .finish]

theorem Legal.complete_iff_trailed : Legal trailed ∧ ∃ tree, build "x" trailed = .ok tree ∧ tree.Complete := by
  have legal : Legal trailed := ⟨by decide, by decide⟩
  have gathered : Gathered trailed := @Gathered.node _ [] [{ kind := .identifier, range := ⟨0, 1⟩ }] [] rfl (.inr rfl)
  obtain ⟨tree, built, complete⟩ := legal.complete_iff "x"
  exact ⟨legal, tree, built, complete.mpr gathered⟩

/-- A name, and behind it a node of another, as for `x y`. -/
def strayed : List Call :=
  [.token { kind := .identifier, range := ⟨0, 1⟩ }, .start .nameExpr, .token { kind := .identifier, range := ⟨2, 3⟩ }, .finish]

/-- A token before a node that has tokens is met behind them. -/
theorem strayed_incomplete : Legal strayed ∧ ∃ tree, build "x y" strayed = .ok tree ∧ ¬ tree.Complete := by
  have checked : (build "x y" strayed).toOption.any (fun tree =>
      decide (((entered tree.root.visits).filterMap Element.leaf?).map Leaf.index ≠ tree.leaves.map Leaf.index)) = true := by
    decide +kernel
  refine ⟨⟨by decide, by decide⟩, ?_⟩
  cases built : build "x y" strayed with
  | error => simp [built, Except.toOption] at checked
  | ok tree =>
    have moved : ((entered tree.root.visits).filterMap Element.leaf?).map Leaf.index ≠ tree.leaves.map Leaf.index := by
      simpa [built, Except.toOption] using checked
    exact ⟨tree, rfl, fun complete => moved (congrArg (List.map Leaf.index) complete.tokens)⟩

end Call

end LosslessJava.Tree
