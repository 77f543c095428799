import LosslessJava.Proofs.Accessors
import LosslessJava.Proofs.WalkTermination

/-! The names of a lambda's parameters. Where nothing is reported, a lambda has its parameters in front of the arrow,
each with its name as the last element, and there are no parameters elsewhere. A view of a lambda finds the names of all
lambdas below it, its own among them and in order; these are all just if no lambda inside declares any. -/

namespace LosslessJava.Ast

open LosslessJava.Tree LosslessJava.Shape
open Visit (entered)

/-- The parameters of a lambda itself: a single one, or those in its list. -/
def LambdaExpr.params (lambda : LambdaExpr) : List Node :=
  lambda.node.children.flatMap fun part =>
    if part.kind = .lambdaParam then [part]
    else if part.kind = .lambdaParamList then part.children.filter (·.kind == .lambdaParam)
    else []

/-- The names that a lambda declares itself. -/
def LambdaExpr.ownNames (lambda : LambdaExpr) : List Leaf := lambda.params.filterMap Ast.name?

/-- What the names are that a view of a lambda finds. -/
structure LambdaExpr.Named (lambda : LambdaExpr) : Prop where
  shape : ∃ params arrow body, lambda.node.elements = [.node params, .leaf arrow, .node body] ∧
    params.kind.isLambdaPart ∧ arrow.kind = .arrow
  declared : ∀ param ∈ lambda.params, ∃ name, param.elements.getLast? = some (.leaf name) ∧ name.kind = .identifier ∧
    Ast.name? param = some name
  inOrder : lambda.ownNames.Sublist lambda.paramNames
  once : lambda.paramNames.Nodup
  found : ∀ name, name ∈ lambda.paramNames ↔
    ∃ inner : LambdaExpr, inner.node ∈ lambda.node.descendants ∧ name ∈ inner.ownNames
  only : lambda.paramNames = lambda.ownNames ↔
    ∀ inner : LambdaExpr, inner.node ∈ lambda.node.descendants → inner.node ≠ lambda.node → inner.ownNames = []

private theorem tree_of_mem {node child : Node} (listed : child ∈ node.children) : child.tree = node.tree := by
  have found := Node.mem_children.mp listed
  rw [Node.elements_eq] at found
  obtain ⟨place, -, same⟩ := List.mem_map.mp found
  cases place <;> cases same
  rfl

private theorem mem_of_name? {node : Node} {name : Leaf} (named : Ast.name? node = some name) : .leaf name ∈ node.elements := by
  obtain ⟨element, member, same⟩ := List.mem_filterMap.mp (List.mem_of_find?_eq_some named)
  cases element <;> cases same
  exact member

private theorem LambdaExpr.mem_params {lambda : LambdaExpr} {param : Node} :
    param ∈ lambda.params ↔ param.kind = .lambdaParam ∧ (param ∈ lambda.node.children ∨
      ∃ list ∈ lambda.node.children, list.kind = .lambdaParamList ∧ param ∈ list.children) := by
  rw [params, List.mem_flatMap]
  constructor
  · rintro ⟨part, member, found⟩
    split at found
    · next same =>
      obtain rfl := List.mem_singleton.mp found
      exact ⟨same, .inl member⟩
    · split at found
      · next same =>
        obtain ⟨inside, kind⟩ := List.mem_filter.mp found
        exact ⟨by simpa using kind, .inr ⟨part, member, same, inside⟩⟩
      · cases found
  · rintro ⟨kind, member | ⟨list, member, same, inside⟩⟩
    · exact ⟨param, member, by simp [kind]⟩
    · exact ⟨list, member, by simp [same, inside, kind]⟩

section Rows

variable {elements : List Element} {kinds : List Kind}

private theorem Row.kinds_eq (row : Row elements kinds) : elements.map Element.kind = kinds := by
  obtain ⟨shapes, shows, rfl, -⟩ := row
  exact kinds_of_shows shows

theorem Row.isNode (row : Row elements kinds) {node : Node} (member : .node node ∈ elements) : node.kind.isNode = true := by
  obtain ⟨shapes, shows, -, -, proper⟩ := row
  induction shows with
  | nil => cases member
  | @cons element shape _ _ here _ ih =>
    rcases List.mem_cons.mp member with rfl | later
    · cases shape with
      | token => exact here.elim
      | node kind children => exact here.kind_eq ▸ proper.1.1
    · exact ih later proper.2

end Rows

structure Kept (tree : Tree) : Prop where
  linked : tree.Linked
  holds : ∀ id < tree.nodeCount, ∃ kinds, Row (⟨tree, id⟩ : Node).elements kinds ∧ (⟨tree, id⟩ : Node).kind.Holds kinds

namespace Kept

variable {tree : Tree} (kept : Kept tree) {node child : Node} {id : Nat}

include kept

private theorem hasLambdaPart (inside : id < tree.nodeCount) (listed : child ∈ (⟨tree, id⟩ : Node).children)
    (part : child.kind.isLambdaPart = true) : (⟨tree, id⟩ : Node).kind.hasLambdaPart = true := by
  obtain ⟨kinds, row, holds⟩ := kept.holds id inside
  by_contra other
  have apart := holds.apart (by simpa using other) child.kind (by
    rw [← row.kinds_eq]
    exact List.mem_map.mpr ⟨_, Node.mem_children.mp listed, rfl⟩)
  cases part.symm.trans apart

private theorem kind_of_list (inside : id < tree.nodeCount) (list : (⟨tree, id⟩ : Node).kind = .lambdaParamList)
    (listed : child ∈ (⟨tree, id⟩ : Node).children) : child.kind = .lambdaParam := by
  obtain ⟨kinds, row, holds⟩ := kept.holds id inside
  have admits := list ▸ holds.admits
  refine admits.2 child.kind ?_ (row.isNode (Node.mem_children.mp listed))
  rw [← row.kinds_eq]
  exact List.mem_map.mpr ⟨_, Node.mem_children.mp listed, rfl⟩

/-- A lambda has its parameters in front of the arrow, and its body behind. -/
theorem shape (inside : id < tree.nodeCount) (lambda : (⟨tree, id⟩ : Node).kind = .lambdaExpr) :
    ∃ params arrow body, (⟨tree, id⟩ : Node).elements = [.node params, .leaf arrow, .node body] ∧
      params.kind.isLambdaPart = true ∧ arrow.kind = .arrow ∧ body.kind.isLambdaPart = false := by
  obtain ⟨kinds, row, holds⟩ := kept.holds id inside
  obtain ⟨params, body, rfl, part, element⟩ := lambda ▸ holds.admits
  obtain ⟨params, _, same, rfl, row, -⟩ := row.node (Kind.isNode_of_isLambdaPart part)
  obtain ⟨arrow, _, rfl, named, row⟩ := row.leaf rfl
  obtain ⟨body, _, rfl, rfl, row, -⟩ := row.node (Kind.isNode_of_isElement element)
  obtain rfl := row.nil
  exact ⟨params, arrow, body, same, part, named, Kind.isLambdaPart_of_isLoose (Kind.isLoose_of_isElement element)⟩

private theorem declared (inside : id < tree.nodeCount) (param : (⟨tree, id⟩ : Node).kind = .lambdaParam) :
    ∃ name, (⟨tree, id⟩ : Node).elements.getLast? = some (.leaf name) ∧ name.kind = .identifier ∧
      Ast.name? ⟨tree, id⟩ = some name := by
  obtain ⟨kinds, row, holds⟩ := kept.holds id inside
  obtain ⟨front, rfl, unnamed⟩ := param ▸ holds.admits
  obtain ⟨early, last, same, rfl, final⟩ := List.map_eq_append_iff.mp row.kinds_eq
  obtain ⟨element, rfl, kind⟩ := List.map_eq_singleton_iff.mp final
  cases element with
  | node named =>
    have isNode : named.kind.isNode = true := row.isNode (by simp [same])
    rw [show named.kind = .identifier from kind] at isNode
    cases isNode
  | leaf name =>
    refine ⟨name, by simp [same], kind, ?_⟩
    have others : (early.filterMap Element.leaf?).find? (·.kind == .identifier) = none := by
      refine List.find?_eq_none.mpr fun leaf found named => unnamed ?_
      obtain ⟨element, member, same⟩ := List.mem_filterMap.mp found
      cases element <;> cases same
      exact List.mem_map.mpr ⟨_, member, show leaf.kind = .identifier from beq_iff_eq.mp named⟩
    have tokens : (⟨tree, id⟩ : Node).childTokens = early.filterMap Element.leaf? ++ [name] := by
      rw [show (⟨tree, id⟩ : Node).childTokens = (⟨tree, id⟩ : Node).elements.filterMap Element.leaf? from rfl, same,
        List.filterMap_append]
      rfl
    rw [Ast.name?, Node.tokenOfKind?, tokens, List.find?_append, others, Option.none_or]
    simp [show name.kind = .identifier from kind]

section Lambdas

variable {lambda inner : LambdaExpr} {param : Node}

private theorem lambda_unique (here : lambda.node.tree = tree) (there : inner.node.tree = tree)
    (mine : param ∈ lambda.params) (other : param ∈ inner.params) : lambda.node = inner.node := by
  have unique {one other child : Node} (here : one.tree = tree) (there : other.tree = tree) (listed : child ∈ one.children)
      (again : child ∈ other.children) : one = other :=
    kept.linked.node_unique here there (Node.mem_children.mp listed) (Node.mem_children.mp again)
  have apart {one : LambdaExpr} {list : Node} (same : one.node = list) (kind : list.kind = .lambdaParamList) : False := by
    have named := one.kind_eq
    rw [same, kind] at named
    cases named
  have tree_of {one child : Node} (here : one.tree = tree) (listed : child ∈ one.children) : child.tree = tree :=
    (tree_of_mem listed).trans here
  obtain ⟨-, direct | ⟨list, listed, kind, inside⟩⟩ := LambdaExpr.mem_params.mp mine <;>
    obtain ⟨-, direct' | ⟨list', listed', kind', inside'⟩⟩ := LambdaExpr.mem_params.mp other
  · exact unique here there direct direct'
  · exact (apart (unique here (tree_of there listed') direct inside') kind').elim
  · exact (apart (unique there (tree_of here listed) direct' inside) kind).elim
  · obtain rfl := unique (tree_of here listed) (tree_of there listed') inside inside'
    exact unique here there listed listed'

private theorem lambda_of_param (here : lambda.node.tree = tree) (within : lambda.node.id < tree.nodeCount)
    (found : param ∈ lambda.node.descendants) (kind : param.kind = .lambdaParam) :
    ∃ inner : LambdaExpr, inner.node ∈ lambda.node.descendants ∧ param ∈ inner.params := by
  subst here
  have covers := kept.linked.covers within
  -- What stands above a part of a lambda is a lambda, or a list of parameters in one.
  have above {part : Node} (found : part ∈ lambda.node.descendants) (isPart : part.kind.isLambdaPart = true) :
      ∃ outer ∈ lambda.node.descendants, part ∈ outer.children ∧
        (outer.kind = .lambdaExpr ∨ outer.kind = .lambdaParamList ∧ part.kind = .lambdaParam) := by
    cases covers.mem_iff.mp found with
    | start =>
      rw [lambda.kind_eq] at isPart
      cases isPart
    | @child outer _ reached _ listed =>
      have met := covers.mem_iff.mpr reached
      obtain ⟨same, inside⟩ := covers.inside outer met
      obtain ⟨_, id⟩ := outer
      cases same
      have has := kept.hasLambdaPart inside (Node.mem_children.mpr listed) isPart
      refine ⟨_, met, Node.mem_children.mpr listed, ?_⟩
      generalize same : (⟨lambda.node.tree, id⟩ : Node).kind = kind at has
      cases kind <;> cases has
      · exact .inl rfl
      · exact .inr ⟨rfl, kept.kind_of_list inside same (Node.mem_children.mpr listed)⟩
  obtain ⟨outer, met, listed, isLambda | ⟨isList, -⟩⟩ := above found (by rw [kind])
  · exact ⟨⟨outer, isLambda⟩, met, LambdaExpr.mem_params.mpr ⟨kind, .inl listed⟩⟩
  · obtain ⟨lambda', met', listed', isLambda | ⟨-, other⟩⟩ := above met (by rw [isList])
    · exact ⟨⟨lambda', isLambda⟩, met', LambdaExpr.mem_params.mpr ⟨kind, .inr ⟨outer, listed', isList, listed⟩⟩⟩
    · cases isList.symm.trans other

private theorem below_of_params (here : lambda.node.tree = tree) (within : lambda.node.id < tree.nodeCount)
    (met : inner.node ∈ lambda.node.descendants) (mine : param ∈ inner.params) : param ∈ lambda.node.descendants := by
  subst here
  have covers := kept.linked.covers within
  have step {outer child : Node} (met : outer ∈ lambda.node.descendants) (listed : child ∈ outer.children) :
      child ∈ lambda.node.descendants :=
    covers.mem_iff.mpr (.child (covers.mem_iff.mp met) rfl (Node.mem_children.mp listed))
  obtain ⟨-, direct | ⟨list, listed, -, inside⟩⟩ := LambdaExpr.mem_params.mp mine
  · exact step met direct
  · exact step (step met listed) inside

private theorem nodup_paramNames (here : lambda.node.tree = tree) (within : lambda.node.id < tree.nodeCount) :
    lambda.paramNames.Nodup := by
  subst here
  have covers := kept.linked.covers within
  have apart : (lambda.node.descendants.filter (·.kind == .lambdaParam)).Pairwise fun one other =>
      ∀ name ∈ Ast.name? one, ∀ again ∈ Ast.name? other, name ≠ again := by
    refine (covers.once.filter _).imp_of_mem fun {one other} met met' differ name named again named' same => differ ?_
    subst same
    exact kept.linked.node_unique (covers.inside one (List.mem_of_mem_filter met)).1
      (covers.inside other (List.mem_of_mem_filter met')).1 (mem_of_name? named) (mem_of_name? named')
  exact List.pairwise_filterMap.mpr apart

private theorem ownNames_sublist (here : lambda.node.tree = tree) (within : lambda.node.id < tree.nodeCount) :
    lambda.ownNames.Sublist lambda.paramNames := by
  subst here
  have covers := kept.linked.covers within
  have own (part : Node) : (if part.kind = .lambdaParam then [part]
      else if part.kind = .lambdaParamList then part.children.filter (·.kind == .lambdaParam)
      else []).Sublist (part :: part.children) := by
    split
    · exact (List.nil_sublist _).cons_cons _
    split
    · exact (List.filter_sublist).cons _
    · exact List.nil_sublist _
  have listed : lambda.params.Sublist (lambda.node.children.flatMap fun child => child :: child.children) :=
    .flatMap_right _ fun part _ => own part
  have kinds : lambda.params.filter (·.kind == .lambdaParam) = lambda.params :=
    List.filter_eq_self.mpr fun param mine => by simp [(LambdaExpr.mem_params.mp mine).1]
  have sorted := (listed.trans covers.inOrder).filter (·.kind == .lambdaParam)
  rw [kinds] at sorted
  exact sorted.filterMap _

private theorem mem_paramNames (here : lambda.node.tree = tree) (within : lambda.node.id < tree.nodeCount) (name : Leaf) :
    name ∈ lambda.paramNames ↔ ∃ inner : LambdaExpr, inner.node ∈ lambda.node.descendants ∧ name ∈ inner.ownNames := by
  constructor
  · intro found
    obtain ⟨param, member, named⟩ := List.mem_filterMap.mp found
    obtain ⟨below, kind⟩ := List.mem_filter.mp member
    obtain ⟨inner, met, mine⟩ := kept.lambda_of_param here within below (beq_iff_eq.mp kind)
    exact ⟨inner, met, List.mem_filterMap.mpr ⟨param, mine, named⟩⟩
  · rintro ⟨inner, met, found⟩
    obtain ⟨param, mine, named⟩ := List.mem_filterMap.mp found
    have kind := (LambdaExpr.mem_params.mp mine).1
    exact List.mem_filterMap.mpr
      ⟨param, List.mem_filter.mpr ⟨kept.below_of_params here within met mine, beq_iff_eq.mpr kind⟩, named⟩

/-- A view of a lambda finds only its own names just if no other lambda below it has any. -/
theorem paramNames_eq_iff (here : lambda.node.tree = tree) (within : lambda.node.id < tree.nodeCount) :
    lambda.paramNames = lambda.ownNames ↔
      ∀ inner : LambdaExpr, inner.node ∈ lambda.node.descendants → inner.node ≠ lambda.node → inner.ownNames = [] := by
  subst here
  have covers := kept.linked.covers within
  constructor
  · intro same inner met other
    refine List.eq_nil_iff_forall_not_mem.mpr fun name found => other ?_
    have own : name ∈ lambda.ownNames := same ▸ (kept.mem_paramNames rfl within name).mpr ⟨inner, met, found⟩
    obtain ⟨param, mine, named⟩ := List.mem_filterMap.mp own
    obtain ⟨param', mine', named'⟩ := List.mem_filterMap.mp found
    have place {outer : LambdaExpr} {param : Node} (met : outer.node ∈ lambda.node.descendants) (mine : param ∈ outer.params) :
        param.tree = lambda.node.tree :=
      (covers.inside param (kept.below_of_params rfl within met mine)).1
    obtain rfl := kept.linked.node_unique (place (covers.mem_iff.mpr .start) mine) (place met mine')
      (mem_of_name? named) (mem_of_name? named')
    exact kept.lambda_unique (covers.inside _ met).1 rfl mine' mine
  · intro none
    refine ((kept.ownNames_sublist rfl within).eq_of_length_le ?_).symm
    refine ((kept.nodup_paramNames rfl within).subperm fun name found => ?_).length_le
    obtain ⟨inner, met, own⟩ := (kept.mem_paramNames rfl within name).mp found
    by_cases same : inner.node = lambda.node
    · rwa [LambdaExpr.ownNames, LambdaExpr.params, same] at own
    · rw [none inner met same] at own
      cases own

/-- What the names are that a view of a lambda finds, where the tree keeps its contracts. -/
theorem named (here : lambda.node.tree = tree) (within : lambda.node.id < tree.nodeCount) : lambda.Named := by
  refine ⟨?_, fun param mine => ?_, kept.ownNames_sublist here within, kept.nodup_paramNames here within,
    kept.mem_paramNames here within, kept.paramNames_eq_iff here within⟩
  · subst here
    obtain ⟨params, arrow, body, elements, part, kind, -⟩ := kept.shape within lambda.kind_eq
    exact ⟨params, arrow, body, elements, part, kind⟩
  · subst here
    have covers := kept.linked.covers within
    obtain ⟨same, inside⟩ := covers.inside param (kept.below_of_params rfl within (covers.mem_iff.mpr .start) mine)
    obtain ⟨_, id⟩ := param
    cases same
    exact kept.declared inside (LambdaExpr.mem_params.mp mine).1

end Lambdas

end Kept

private theorem kept_of_clean {entry : EntryPoint} {text : String} {options : ParseOptions} {parse : Parse}
    (parsed : entry.parse text options = .ok parse) (clean : parse.diagnostics = []) : Kept parse.tree := by
  obtain ⟨-, kind, children, sound⟩ := Parse.sound_of_clean parsed clean
  refine ⟨?_, fun id inside => ?_⟩
  · rw [EntryPoint.parse_eq] at parsed
    obtain ⟨state, -, built⟩ := Parse.run_ok parsed
    obtain ⟨steps, tree, -, made, rfl⟩ := Parse.ofState_ok built
    rw [BuildStep.toTree_eq_build] at made
    exact Builder.linked_of_build made
  · obtain ⟨kind, children, shows, holds, sound, proper⟩ := sound.find inside
    exact ⟨outline children, ⟨children, shows.elements, rfl, sound, proper⟩, shows.kind_eq ▸ holds⟩

/-- In a tree that was parsed without a diagnostic, a view of a lambda finds the names that the lambda declares, and
those that lambdas below it do. -/
theorem lambda_named {entry : EntryPoint} {text : String} {options : ParseOptions} {parse : Parse}
    (parsed : entry.parse text options = .ok parse) (clean : parse.diagnostics = []) (lambda : LambdaExpr)
    (has : parse.tree.Has lambda.node) : lambda.Named :=
  (kept_of_clean parsed clean).named has.1 has.2

private theorem exists_view {tree : Tree} {kind : Kind} {holds : View kind → Bool}
    (found : (tree.allNodes.filterMap NodeView.ofNode?).any holds = true) :
    ∃ view : View kind, tree.Has view.node ∧ holds view = true := by
  obtain ⟨view, member, holds⟩ := List.any_eq_true.mp found
  obtain ⟨node, among, viewed⟩ := List.mem_filterMap.mp member
  obtain ⟨id, inside, rfl⟩ := List.mem_map.mp among
  simp only [NodeView.ofNode?] at viewed
  split at viewed
  · cases viewed
    exact ⟨_, ⟨rfl, List.mem_range.mp inside⟩, holds⟩
  · cases viewed

/-- A list of parameters in front of a body that has no lambda. -/
theorem lambda_named_list :
    ∃ (parse : Parse) (lambda : LambdaExpr), EntryPoint.expression.parse "(final A b, var c) -> b + c" {} = .ok parse ∧
      parse.diagnostics = [] ∧ parse.tree.Has lambda.node ∧ lambda.ownNames.length = 2 ∧ lambda.Named := by
  have found : Parse.givesWithin 900 (fun parse => parse.diagnostics.isEmpty &&
      (parse.tree.allNodes.filterMap NodeView.ofNode?).any fun lambda : LambdaExpr => lambda.ownNames.length == 2)
      Grammar.expressionRoot (.lex "(final A b, var c) -> b + c") {} = true := by decide +kernel
  obtain ⟨parse, ran, holds⟩ := Parse.run_of_givesWithin found
  have parsed : EntryPoint.expression.parse "(final A b, var c) -> b + c" {} = .ok parse := ran
  obtain ⟨clean, viewed⟩ := Bool.and_eq_true_iff.mp holds
  obtain ⟨lambda, has, count⟩ := exists_view viewed
  have clean : parse.diagnostics = [] := List.isEmpty_iff.mp clean
  exact ⟨parse, lambda, parsed, clean, has, beq_iff_eq.mp count, lambda_named parsed clean lambda has⟩

/-- The names that a lambda around another one is given are those of both. -/
theorem paramNames_nested :
    ∃ (parse : Parse) (lambda : LambdaExpr), EntryPoint.expression.parse "a -> b -> c" {} = .ok parse ∧
      parse.diagnostics = [] ∧ parse.tree.Has lambda.node ∧ lambda.ownNames.map Leaf.text = ["a"] ∧
      lambda.paramNames.map Leaf.text = ["a", "b"] := by
  have found : Parse.givesWithin 900 (fun parse => parse.diagnostics.isEmpty &&
      (parse.tree.allNodes.filterMap NodeView.ofNode?).any fun lambda : LambdaExpr =>
        lambda.ownNames.map Leaf.text == ["a"] && lambda.paramNames.map Leaf.text == ["a", "b"])
      Grammar.expressionRoot (.lex "a -> b -> c") {} = true := by decide +kernel
  obtain ⟨parse, ran, holds⟩ := Parse.run_of_givesWithin found
  obtain ⟨clean, viewed⟩ := Bool.and_eq_true_iff.mp holds
  obtain ⟨lambda, has, names⟩ := exists_view viewed
  obtain ⟨own, all⟩ := Bool.and_eq_true_iff.mp names
  exact ⟨parse, lambda, ran, List.isEmpty_iff.mp clean, has, beq_iff_eq.mp own, beq_iff_eq.mp all⟩

end LosslessJava.Ast
