import LosslessJava.Proofs.Elements
import LosslessJava.Proofs.Nesting
import LosslessJava.Proofs.SwitchSites
import LosslessJava.Ast.Expressions

/-! The sites of the nodes of a tree. What a shape leads from and to, the elements of the tree do that shows it, so
the labels of a switch block agree in their ends but for those of which an error tells. -/

namespace LosslessJava.Tree

open LosslessJava.Shape LosslessJava.Ast

def HoldsTokens (tree : Tree) (stream : TokenStream) (tokens raw : Nat) (row : List Shape) : Prop :=
  ∀ index < (tokensAll row).length,
    tree.tokens[tokens + index]?.map TokenRecord.toToken = (BuildStep.mergedTokens stream raw (tokensAll row))[index]?

/-- Elements lead from one site to another. A label that ends otherwise than the form of its block says is told of
where it ends. -/
inductive Leads (errors : Errors) (told : Span → Prop) : Site → List Element → Site → Prop where
  | nil {site last} (still : last = site ∨ last = site.settled) : Leads errors told site [] last
  | leaf {site leaf rest last} (hosts : site.settled.Hosts leaf.kind.isQuiet) (later : Leads errors told site.settled rest last) :
      Leads errors told site (.leaf leaf :: rest) last
  | ending {form leaf rest last} (ends : leaf.kind.endsLabel = true) (mixed : form.getD leaf.kind ≠ leaf.kind → told leaf.textRange)
      (later : Leads errors told (.ended (form.getD leaf.kind) leaf.kind) rest last) :
      Leads errors told (.label form) (.leaf leaf :: rest) last
  | node {site node inner inner' after rest last} (around : Site.Around errors site node.kind inner inner' after)
      (within : Leads errors told inner node.elements inner') (later : Leads errors told after rest last) :
      Leads errors told site (.node node :: rest) last

def Node.Stands (errors : Errors) (told : Span → Prop) (node : Node) : Prop :=
  ∃ site inner inner' after, Site.Around errors site node.kind inner inner' after ∧ Leads errors told inner node.elements inner'

variable {tree : Tree} {stream : TokenStream} {errors : Errors} {told : Span → Prop} {nodes tokens raw : Nat} {kind : Kind}
  {children row : List Shape} {site last : Site}

/-- Every node of a row is one of those at its top, or stands below another node of the row. -/
theorem Holds.held (holds : tree.Holds nodes tokens row) {index : Nat} (inside : index < nodeCounts row) :
    .node ⟨tree, nodes + index⟩ ∈ (Shape.childrenOf nodes tokens row).map (Child.element tree) ∨
      ∃ other < nodeCounts row, (⟨tree, nodes + index⟩ : Node) ∈ (⟨tree, nodes + other⟩ : Node).children := by
  induction row using row_induction generalizing nodes tokens index with
  | nil => simp [nodeCounts] at inside
  | token kind count row ih =>
    have later := ih holds.later (by simpa [nodeCounts, Shape.nodeCount] using inside)
    simp only [Shape.nodeCount, Nat.add_zero] at later
    refine later.imp (.tail _) ?_
    rintro ⟨other, less, below⟩
    exact ⟨other, by simpa [nodeCounts, Shape.nodeCount] using less, below⟩
  | node kind children row below ih =>
    simp only [nodeCounts, Shape.nodeCount] at inside ⊢
    rcases Nat.lt_trichotomy index (nodeCounts children) with less | rfl | more
    · refine .inr ?_
      rcases below holds.below less with top | ⟨other, small, under⟩
      · refine ⟨nodeCounts children, by omega, Node.mem_children.mpr ?_⟩
        rw [holds.elements]
        exact top
      · exact ⟨other, by omega, under⟩
    · exact .inl (.head _)
    · obtain ⟨past, rfl⟩ := Nat.exists_eq_add_of_lt more
      have small : past < nodeCounts row := by omega
      have place (other : Nat) : nodes + (nodeCounts children + 1) + other = nodes + (nodeCounts children + other + 1) := by omega
      have later := ih holds.later small
      simp only [Shape.nodeCount, place] at later
      refine later.imp (.tail _) ?_
      rintro ⟨other, less, under⟩
      exact ⟨nodeCounts children + other + 1, by omega, under⟩

namespace HoldsTokens

private theorem below (holds : tree.HoldsTokens stream tokens raw (.node kind children :: row)) :
    tree.HoldsTokens stream tokens raw children := by
  intro index inside
  have split : tokensAll (.node kind children :: row) = tokensAll children ++ tokensAll row := by simp [tokensAll, Shape.tokens]
  have whole := holds index (by simp only [split, List.length_append]; omega)
  rwa [split, BuildStep.mergedTokens_append, List.getElem?_append_left (by simpa using inside)] at whole

private theorem later {shape : Shape} (holds : tree.HoldsTokens stream tokens raw (shape :: row)) :
    tree.HoldsTokens stream (tokens + shape.tokens.length) (raw + width [shape]) row := by
  intro index inside
  have split : tokensAll (shape :: row) = shape.tokens ++ tokensAll row := by simp [tokensAll]
  have whole := holds (shape.tokens.length + index) (by simp only [split, List.length_append]; omega)
  have count : width [shape] = (shape.tokens.map Prod.snd).sum := by simp [width, tokensAll]
  rw [split, BuildStep.mergedTokens_append, List.getElem?_append_right (by simp), BuildStep.length_mergedTokens,
    Nat.add_sub_cancel_left, ← Nat.add_assoc, ← count] at whole
  exact whole

private theorem range (holds : tree.HoldsTokens stream tokens raw (.token kind 1 :: row)) :
    (⟨tree, tokens⟩ : Leaf).textRange = (stream.tokenAt raw).range := by
  have first := holds 0 (by simp [tokensAll, Shape.tokens])
  simp only [tokensAll, Shape.tokens, List.cons_append, List.nil_append, BuildStep.mergedTokens, List.getElem?_cons_zero,
    Nat.add_zero] at first
  obtain ⟨record, there, same⟩ := Option.map_eq_some_iff.mp first
  have own : (⟨tree, tokens⟩ : Leaf).record = record := by simp [Leaf.record, Array.getD_eq_getD_getElem?, there]
  rw [Leaf.textRange, own]
  have range : record.range = _ := congrArg Token.range same
  rw [range]
  simp [BuildStep.mergedToken, Span.cover]

end HoldsTokens

structure ShowsFrom (tree : Tree) (stream : TokenStream) (nodes tokens raw : Nat) (row : List Shape) : Prop
    extends tree.Shows nodes tokens row where
  made : tree.HoldsTokens stream tokens raw row

namespace ShowsFrom

theorem below (shows : tree.ShowsFrom stream nodes tokens raw (.node kind children :: row)) :
    tree.ShowsFrom stream nodes tokens raw children := ⟨shows.toShows.below, shows.made.below⟩

theorem later {shape : Shape} (shows : tree.ShowsFrom stream nodes tokens raw (shape :: row)) :
    tree.ShowsFrom stream (nodes + shape.nodeCount) (tokens + shape.tokens.length) (raw + width [shape]) row :=
  ⟨shows.toShows.later, shows.made.later⟩

theorem of_built (built : tree.Built stream kind children) : tree.ShowsFrom stream 0 0 0 [.node kind children] where
  toShows := built.shows
  made index inside := by
    have same : tokensAll [.node kind children] = tokensAll children := by simp [tokensAll, Shape.tokens]
    rw [same, ← built.leaves, List.getElem?_map, Nat.zero_add, Array.getElem?_toList]

private theorem leads (arranged : Shape.Arranged errors site raw row last)
    (tells : ∀ index, errors.told index → told (stream.tokenAt index).range)
    (shows : tree.ShowsFrom stream nodes tokens raw row) :
    Leads errors told site ((Shape.childrenOf nodes tokens row).map (Child.element tree)) last := by
  induction arranged generalizing nodes tokens with
  | nil still => exact .nil still
  | @token site kind count raw rest last hosts later ih =>
    have here : (⟨tree, tokens⟩ : Leaf).kind = kind := shows.leaves 0 (by simp [leafKinds, tokensAll, Shape.tokens])
    have after := shows.later
    rw [width_token, width_nil, Nat.add_zero] at after
    exact .leaf (here ▸ hosts) (ih after)
  | @ending form kind raw rest last ends mixed later ih =>
    have here : (⟨tree, tokens⟩ : Leaf).kind = kind := shows.leaves 0 (by simp [leafKinds, tokensAll, Shape.tokens])
    have after := shows.later
    rw [width_token, width_nil, Nat.add_zero] at after
    subst here
    exact .ending ends (fun other => shows.made.range ▸ tells _ (mixed other)) (ih after)
  | node around within later inner ih =>
    have here := shows.record
    have after := shows.later
    rw [width_node, width_nil, Nat.add_zero] at after
    refine .node (here ▸ around) ?_ (ih after)
    rw [shows.records.elements]
    exact inner shows.below

/-- Every node that is shown stands where it does in the row. -/
theorem stands (arranged : Shape.Arranged errors site raw row last)
    (tells : ∀ index, errors.told index → told (stream.tokenAt index).range)
    (shows : tree.ShowsFrom stream nodes tokens raw row) {index : Nat} (inside : index < nodeCounts row) :
    (⟨tree, nodes + index⟩ : Node).Stands errors told := by
  induction arranged generalizing nodes tokens index with
  | nil => simp [nodeCounts] at inside
  | token _ _ ih | ending _ _ _ ih =>
    have after := shows.later
    rw [width_token, width_nil, Nat.add_zero] at after
    have later := ih after (by simpa [nodeCounts, Shape.nodeCount] using inside)
    simpa [Shape.nodeCount] using later
  | @node site kind first last' next raw children rest last around within later inner ih =>
    rcases Nat.lt_trichotomy index (nodeCounts children) with less | rfl | more
    · exact inner shows.below less
    · refine ⟨_, _, _, _, shows.record ▸ around, ?_⟩
      rw [shows.records.elements]
      exact shows.below.leads within tells
    · obtain ⟨past, rfl⟩ := Nat.exists_eq_add_of_lt more
      have after := shows.later
      rw [width_node, width_nil, Nat.add_zero] at after
      have small : past < nodeCounts rest := by
        simp only [nodeCounts, Shape.nodeCount] at inside
        omega
      have place : nodes + (Shape.node kind children).nodeCount + past = nodes + (nodeCounts children + past + 1) := by
        simp only [Shape.nodeCount]
        omega
      have stands := ih after small
      rwa [place] at stands

end ShowsFrom

end LosslessJava.Tree
