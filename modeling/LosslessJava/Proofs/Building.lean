import LosslessJava.Proofs.Steps
import LosslessJava.Tree.Node

/-! What building a row of shapes puts into the tables of a tree. A node enters its table behind all
nodes below it, so where it stands there follows from how many there are. -/

namespace LosslessJava

open LosslessJava.Tree

namespace Tree

/-- What a row of the node table says, with the children themselves and without the parent, which is entered
only when the parent is finished. -/
structure Row where
  kind : Kind
  children : List Child
  firstToken : Nat
  endToken : Nat

def NodeRecord.row (children : Array Child) (record : NodeRecord) : Row :=
  { kind := record.kind, children := (children.extract record.firstChild record.endChild).toList,
    firstToken := record.firstToken, endToken := record.endToken }

def rows (tree : Tree) : List Row := tree.nodes.toList.map (NodeRecord.row tree.children)

theorem record_row {tree : Tree} {id : Nat} {row : Row} (found : tree.rows[id]? = some row) :
    (Node.mk tree id).record.row tree.children = row := by
  rw [rows, List.getElem?_map] at found
  obtain ⟨record, there, same⟩ := Option.map_eq_some_iff.mp found
  rw [Array.getElem?_toList] at there
  rw [Node.record, Array.getD_eq_getD_getElem?, there, ← same]
  rfl

theorem childrenOf_eq {tree : Tree} {id : Nat} {row : Row} (found : tree.rows[id]? = some row) : tree.childrenOf id = row.children :=
  congrArg Row.children (record_row found)

end Tree

namespace Shape

def childrenOf (nodes tokens : Nat) : List Shape → List Child
  | [] => []
  | .token _ _ :: rest => .token tokens :: childrenOf nodes (tokens + 1) rest
  | .node _ children :: rest =>
    .node (nodes + nodeCounts children) ::
      childrenOf (nodes + nodeCounts children + 1) (tokens + (tokensAll children).length) rest

mutual

def records (nodes tokens : Nat) : Shape → List Row
  | .token _ _ => []
  | .node kind children =>
    recordsAll nodes tokens children ++
      [{ kind, children := childrenOf nodes tokens children, firstToken := tokens,
         endToken := tokens + (tokensAll children).length }]

def recordsAll (nodes tokens : Nat) : List Shape → List Row
  | [] => []
  | shape :: rest =>
    shape.records nodes tokens ++
      recordsAll (nodes + shape.nodeCount) (tokens + shape.tokens.length) rest

end

mutual

theorem length_records (nodes tokens : Nat) (shape : Shape) :
    (shape.records nodes tokens).length = shape.nodeCount := by
  cases shape with
  | token kind rawCount => rfl
  | node kind children => simp [records, nodeCount, length_recordsAll]

@[simp] theorem length_recordsAll (nodes tokens : Nat) (row : List Shape) :
    (recordsAll nodes tokens row).length = nodeCounts row := by
  cases row with
  | nil => rfl
  | cons shape rest => simp [recordsAll, nodeCounts, length_records, length_recordsAll]

end

private theorem recordsAll_append (nodes tokens : Nat) (front back : List Shape) :
    recordsAll nodes tokens (front ++ back) = recordsAll nodes tokens front ++
      recordsAll (nodes + nodeCounts front) (tokens + (tokensAll front).length) back := by
  induction front generalizing nodes tokens with
  | nil => rfl
  | cons shape rest ih => simp [recordsAll, nodeCounts, tokensAll, ih, Nat.add_assoc]

private theorem childrenOf_append (nodes tokens : Nat) (front back : List Shape) :
    childrenOf nodes tokens (front ++ back) = childrenOf nodes tokens front ++
      childrenOf (nodes + nodeCounts front) (tokens + (tokensAll front).length) back := by
  induction front generalizing nodes tokens with
  | nil => rfl
  | cons shape rest ih =>
    cases shape with
    | token kind rawCount =>
      simp [childrenOf, nodeCounts, nodeCount, tokensAll, Shape.tokens, ih, Nat.add_assoc, Nat.add_comm 1]
    | node kind children =>
      simp [childrenOf, nodeCounts, nodeCount, tokensAll, Shape.tokens, ih, Nat.add_assoc]

mutual

/-- For each token of a shape the place of the node it stands in, `owner` for a token by itself, the
table of nodes being of this size before. -/
def ownersOf (owner : Option Nat) (nodes : Nat) : Shape → List (Option Nat)
  | .token _ _ => [owner]
  | .node _ children => owners (some (nodes + nodeCounts children)) nodes children

def owners (owner : Option Nat) (nodes : Nat) : List Shape → List (Option Nat)
  | [] => []
  | shape :: rest => shape.ownersOf owner nodes ++ owners owner (nodes + shape.nodeCount) rest

end

@[simp] theorem length_owners (owner : Option Nat) (nodes : Nat) (row : List Shape) :
    (owners owner nodes row).length = (tokensAll row).length := by
  induction row using row_induction generalizing owner nodes with
  | nil => rfl
  | token kind rawCount rest ih => simp [owners, ownersOf, tokensAll, Shape.tokens, ih]
  | node kind children rest below ih => simp [owners, ownersOf, tokensAll, Shape.tokens, ih, below]

private theorem owners_append (owner : Option Nat) (nodes : Nat) (front back : List Shape) :
    owners owner nodes (front ++ back) =
      owners owner nodes front ++ owners owner (nodes + nodeCounts front) back := by
  induction front generalizing nodes with
  | nil => rfl
  | cons shape rest ih => simp [owners, nodeCounts, ih, Nat.add_assoc]

end Shape

namespace BuildStep

/-- Tree tokens that are made one after the other, `raw` tokens of the stream being used up before. -/
def mergedTokens (stream : TokenStream) (raw : Nat) : List (Kind × Nat) → List Token
  | [] => []
  | (kind, rawCount) :: rest =>
    mergedToken stream kind raw rawCount :: mergedTokens stream (raw + rawCount) rest

theorem mergedTokens_append (stream : TokenStream) (raw : Nat) (front back : List (Kind × Nat)) :
    mergedTokens stream raw (front ++ back) =
      mergedTokens stream raw front ++ mergedTokens stream (raw + (front.map Prod.snd).sum) back := by
  induction front generalizing raw with
  | nil => rfl
  | cons token rest ih => simp [mergedTokens, ih, Nat.add_assoc]

@[simp] theorem length_mergedTokens (stream : TokenStream) (raw : Nat) (tokens : List (Kind × Nat)) :
    (mergedTokens stream raw tokens).length = tokens.length := by
  induction tokens generalizing raw with
  | nil => rfl
  | cons token rest ih => simp [mergedTokens, ih]

end BuildStep

namespace Tree

namespace Builder

def rows (b : Builder) : List Row := b.nodes.toList.map (NodeRecord.row b.children)

def Bounded (b : Builder) : Prop := ∀ record ∈ b.nodes.toList, record.endChild ≤ b.children.size

def leaves (b : Builder) : List Token := b.tokens.toList.map TokenRecord.toToken

def owners (b : Builder) : List (Option Nat) := b.tokens.toList.map TokenRecord.parent

def adoptOwner (parent : Nat) (owners : List (Option Nat)) : Child → List (Option Nat)
  | .node _ => owners
  | .token index => owners.set index (some parent)

private theorem owners_adopt (parent : Nat) (b : Builder) (child : Child) :
    (adopt parent b child).owners = adoptOwner parent b.owners child := by
  cases child with
  | node id => rfl
  | token index =>
    refine List.ext_getElem (by simp [owners, adopt, adoptOwner]) fun other _ _ => ?_
    simp only [owners, adopt, adoptOwner, List.getElem_map, Array.getElem_toList, Array.getElem_modify,
      List.getElem_set]
    split <;> rfl

private theorem owners_adoptAll (parent : Nat) (children : List Child) (b : Builder) :
    (children.foldl (adopt parent) b).owners = children.foldl (adoptOwner parent) b.owners := by
  induction children generalizing b with
  | nil => rfl
  | cons child rest ih => rw [List.foldl_cons, ih, owners_adopt, List.foldl_cons]

/-- A node that gets the elements of a row becomes the parent of the row's own tokens. -/
theorem adoptOwner_childrenOf (parent nodes : Nat) (front : List (Option Nat)) (row : List Shape) :
    (Shape.childrenOf nodes front.length row).foldl (adoptOwner parent) (front ++ Shape.owners none nodes row) =
      front ++ Shape.owners (some parent) nodes row := by
  induction row using Shape.row_induction generalizing nodes front with
  | nil => rfl
  | token kind rawCount rest ih =>
    have later := ih nodes (front ++ [some parent])
    simpa [Shape.childrenOf, Shape.owners, Shape.ownersOf, Shape.nodeCount, adoptOwner] using later
  | node kind children rest _ ih =>
    have later := ih (nodes + Shape.nodeCounts children + 1)
      (front ++ Shape.owners (some (nodes + Shape.nodeCounts children)) nodes children)
    simpa [Shape.childrenOf, Shape.owners, Shape.ownersOf, Shape.nodeCount, adoptOwner, Nat.add_assoc] using later

private theorem map_modify {α β : Type} {f : α → β} {g : α → α} (same : ∀ a, f (g a) = f a) (table : Array α)
    (index : Nat) : (table.modify index g).toList.map f = table.toList.map f := by
  refine List.ext_getElem (by simp) fun other _ _ => ?_
  simp only [List.getElem_map, Array.getElem_toList, Array.getElem_modify]
  split <;> simp [same]

structure Alike (b c : Builder) : Prop where
  text : c.text = b.text
  rows : ∀ table, c.nodes.toList.map (NodeRecord.row table) = b.nodes.toList.map (NodeRecord.row table)
  ends : c.nodes.toList.map NodeRecord.endChild = b.nodes.toList.map NodeRecord.endChild
  leaves : c.leaves = b.leaves
  children : c.children = b.children
  pending : c.pending = b.pending
  opened : c.opened = b.opened
  root : c.root = b.root

private theorem alike_adopt (parent : Nat) (b : Builder) (child : Child) : Alike b (adopt parent b child) := by
  cases child with
  | node id =>
    have rows table := map_modify (f := NodeRecord.row table) (g := fun r => { r with parent := some parent })
      (fun _ => rfl) b.nodes id
    have ends := map_modify (f := NodeRecord.endChild) (g := fun r => { r with parent := some parent })
      (fun _ => rfl) b.nodes id
    exact ⟨rfl, rows, ends, rfl, rfl, rfl, rfl, rfl⟩
  | token index =>
    have same := map_modify (f := TokenRecord.toToken) (g := fun r => { r with parent := some parent })
      (fun _ => rfl) b.tokens index
    exact ⟨rfl, fun _ => rfl, rfl, same, rfl, rfl, rfl, rfl⟩

theorem alike_adoptAll (parent : Nat) (children : List Child) (b : Builder) :
    Alike b (children.foldl (adopt parent) b) := by
  induction children generalizing b with
  | nil => exact ⟨rfl, fun _ => rfl, rfl, rfl, rfl, rfl, rfl, rfl⟩
  | cons child rest ih =>
    have first := alike_adopt parent b child
    have later := ih (adopt parent b child)
    exact ⟨later.text.trans first.text, fun table => (later.rows table).trans (first.rows table),
      later.ends.trans first.ends, later.leaves.trans first.leaves, later.children.trans first.children,
      later.pending.trans first.pending, later.opened.trans first.opened, later.root.trans first.root⟩

/-- From one builder to another a row of shapes was put into the innermost open node, `raw` tokens of
the stream being used up before. -/
structure Puts (stream : TokenStream) (raw : Nat) (row : List Shape) (b c : Builder) : Prop where
  text : c.text = b.text
  rows : c.rows = b.rows ++ Shape.recordsAll b.rows.length b.leaves.length row
  bounded : c.Bounded
  leaves : c.leaves = b.leaves ++ BuildStep.mergedTokens stream raw (Shape.tokensAll row)
  owners : c.owners = b.owners ++ Shape.owners none b.rows.length row
  pending : c.pending.toList = b.pending.toList ++ Shape.childrenOf b.rows.length b.leaves.length row
  opened : c.opened = b.opened
  root : c.root = b.root

theorem length_rows (b : Builder) : b.rows.length = b.nodes.size := by simp [rows]

theorem length_leaves (b : Builder) : b.leaves.length = b.tokens.size := by simp [leaves]

private theorem length_owners (b : Builder) : b.owners.length = b.leaves.length := by simp [owners, leaves]

variable {stream : TokenStream} {raw : Nat}

private theorem token_puts {b : Builder} (bounded : b.Bounded) {kind : Kind} (proper : kind.isToken) (rawCount : Nat) :
    ∃ c, b.token (BuildStep.mergedToken stream kind raw rawCount) = .ok c ∧
      Puts stream raw [.token kind rawCount] b c := by
  have isToken : (BuildStep.mergedToken stream kind raw rawCount).kind.isToken := proper
  refine ⟨_, if_pos isToken, rfl, by simp [rows, Shape.recordsAll, Shape.records], bounded, ?_,
    by simp [owners, Shape.owners, Shape.ownersOf], by simp [Shape.childrenOf, length_leaves], rfl, rfl⟩
  simp [leaves, Shape.tokensAll, Shape.tokens, BuildStep.mergedTokens]

theorem startNode_ok {b : Builder} {kind : Kind} (node : kind.isNode) :
    b.startNode kind =
      .ok { b with opened := { kind, firstChild := b.pending.size, firstToken := b.tokens.size } :: b.opened } :=
  if_pos node

def OpenNode.finished (node : OpenNode) (children : List Child) (endToken : Nat) : Row :=
  { kind := node.kind, children, firstToken := node.firstToken, endToken }

private theorem extract_append {α : Type} (table more : Array α) {first stop : Nat} (inside : stop ≤ table.size) :
    ((table ++ more).extract first stop).toList = (table.extract first stop).toList := by
  rw [Array.extract_append, Nat.sub_eq_zero_of_le inside]
  simp

private theorem Bounded.rows_append {b : Builder} (bounded : b.Bounded) (more : Array Child) :
    b.nodes.toList.map (NodeRecord.row (b.children ++ more)) = b.rows := by
  refine List.map_congr_left fun record found => ?_
  simp only [NodeRecord.row, extract_append _ _ (bounded record found)]

private theorem Alike.bounded {b c : Builder} (alike : Alike b c) (bounded : b.Bounded) : c.Bounded := by
  intro record found
  have stands : record.endChild ∈ b.nodes.toList.map NodeRecord.endChild :=
    alike.ends ▸ List.mem_map_of_mem found
  obtain ⟨other, found', same⟩ := List.mem_map.mp stands
  rw [← same, alike.children]
  exact bounded other found'

theorem extract_behind {α : Type} {table : Array α} {before inside : List α} (parts : table.toList = before ++ inside) :
    (table.extract before.length table.size).toList = inside := by
  have size : table.size = before.length + inside.length := by
    rw [← Array.length_toList, parts, List.length_append]
  simp [parts, size]

/-- To finish a node is to enter it with the elements that were put in since it was opened, and to put it where
it belongs. -/
theorem finishNode_eq {c : Builder} (bounded : c.Bounded) {node : OpenNode} {outer : List OpenNode}
    (opened : c.opened = node :: outer) {before inside : List Child} (pending : c.pending.toList = before ++ inside)
    (first : node.firstChild = before.length) :
    ∃ d : Builder, d.text = c.text ∧ d.rows = c.rows ++ [OpenNode.finished node inside c.tokens.size] ∧ d.Bounded ∧
      d.leaves = c.leaves ∧ d.owners = inside.foldl (adoptOwner c.nodes.size) c.owners ∧
      d.pending.toList = before ∧ d.opened = outer ∧ d.root = c.root ∧
      c.finishNode = .ok (if outer.isEmpty then { d with root := some c.nodes.size }
        else { d with pending := d.pending.push (.node c.nodes.size) }) := by
  let rest : Builder := { c with opened := outer, pending := c.pending.take node.firstChild }
  let drained := c.pending.extract node.firstChild c.pending.size
  obtain rfl : drained.toList = inside := by
    simp only [drained, first]
    exact extract_behind pending
  have kept : rest.pending.toList = before := by simp [rest, pending, first]
  have alike := alike_adoptAll c.nodes.size drained.toList rest
  have adopted := owners_adoptAll c.nodes.size drained.toList rest
  have still := alike.bounded (show rest.Bounded from bounded)
  generalize made : drained.toList.foldl (adopt c.nodes.size) rest = e at alike adopted still
  have size : e.tokens.size = c.tokens.size := by
    rw [← length_leaves, alike.leaves]
    exact length_leaves c
  let record : NodeRecord :=
    { kind := node.kind, firstChild := e.children.size, endChild := e.children.size + drained.size,
      firstToken := node.firstToken, endToken := e.tokens.size }
  have row : record.row (e.children ++ drained) = OpenNode.finished node drained.toList c.tokens.size := by
    simp [record, NodeRecord.row, OpenNode.finished, size]
  have rows : e.rows = c.rows := (alike.rows e.children).trans (by rw [alike.children]; rfl)
  refine ⟨{ e with nodes := e.nodes.push record, children := e.children ++ drained }, alike.text, ?_, ?_, alike.leaves,
    adopted, (congrArg Array.toList alike.pending).trans kept, alike.opened, alike.root, ?_⟩
  · rw [← rows, ← still.rows_append drained, ← row]
    simp only [Builder.rows, Array.toList_push, List.map_append, List.map_cons, List.map_nil]
  · intro found there
    rw [Array.toList_push, List.mem_append, List.mem_singleton] at there
    have grown : (e.children ++ drained).size = e.children.size + drained.size := Array.size_append
    rcases there with old | rfl
    · exact Nat.le_trans (still found old) (by rw [grown]; omega)
    · exact Nat.le_of_eq grown.symm
  · simp only [finishNode, opened, ← Array.foldl_toList]
    rw [show c.pending.take node.firstChild = rest.pending from rfl, show c.pending.extract _ _ = drained from rfl, made]

/-- A node that was opened, into which a row was put, and which is finished inside of another one. -/
theorem finishNode_puts {b c : Builder} {kind : Kind} {row : List Shape} {top : OpenNode}
    {outer : List OpenNode} (opened : b.opened = top :: outer)
    (puts : Puts stream raw row
      { b with opened := { kind, firstChild := b.pending.size, firstToken := b.tokens.size } :: b.opened } c) :
    ∃ d, c.finishNode = .ok d ∧ Puts stream raw [.node kind row] b d := by
  have leaves : c.leaves = b.leaves ++ BuildStep.mergedTokens stream raw (Shape.tokensAll row) := puts.leaves
  have rows : c.rows = b.rows ++ Shape.recordsAll b.rows.length b.leaves.length row := puts.rows
  have owners : c.owners = b.owners ++ Shape.owners none b.rows.length row := puts.owners
  have waiting : c.pending.toList = b.pending.toList ++ Shape.childrenOf b.rows.length b.leaves.length row :=
    puts.pending
  obtain ⟨d, text, rows', bounded, leaves', owners', pending, opened', root, finished⟩ :=
    finishNode_eq puts.bounded puts.opened waiting (Array.length_toList).symm
  have tokens : c.tokens.size = b.leaves.length + (Shape.tokensAll row).length := by
    rw [← length_leaves, leaves, List.length_append, BuildStep.length_mergedTokens]
  have nodes : c.nodes.size = b.rows.length + Shape.nodeCounts row := by
    rw [← length_rows, rows, List.length_append, Shape.length_recordsAll]
  refine ⟨_, finished, ?_⟩
  rw [opened, List.isEmpty_cons, if_neg Bool.false_ne_true]
  refine ⟨text.trans puts.text, ?_, bounded, ?_, ?_, ?_, opened', root.trans puts.root⟩
  · refine rows'.trans ?_
    rw [rows]
    simp [Shape.recordsAll, Shape.records, OpenNode.finished, tokens, length_leaves]
  · refine leaves'.trans ?_
    rw [leaves]
    simp [Shape.tokensAll, Shape.tokens]
  · have adopted := adoptOwner_childrenOf c.nodes.size b.rows.length b.owners row
    rw [length_owners] at adopted
    have whole : d.owners = b.owners ++ Shape.owners (some c.nodes.size) b.rows.length row := by
      rw [owners', owners]
      exact adopted
    rw [nodes] at whole
    simp only [Shape.owners, Shape.ownersOf, List.append_nil]
    exact whole
  · simp [pending, Shape.childrenOf, nodes]

private theorem Puts.append {front back : List Shape} {b c d : Builder} (first : Puts stream raw front b c)
    (second : Puts stream (raw + ((Shape.tokensAll front).map Prod.snd).sum) back c d) :
    Puts stream raw (front ++ back) b d := by
  have nodes : c.rows.length = b.rows.length + Shape.nodeCounts front := by
    rw [first.rows, List.length_append, Shape.length_recordsAll]
  have tokens : c.leaves.length = b.leaves.length + (Shape.tokensAll front).length := by
    rw [first.leaves, List.length_append, BuildStep.length_mergedTokens]
  refine ⟨second.text.trans first.text, ?_, second.bounded, ?_, ?_, ?_, second.opened.trans first.opened,
    second.root.trans first.root⟩
  · rw [second.rows, nodes, tokens, first.rows, Shape.recordsAll_append, List.append_assoc]
  · rw [second.leaves, first.leaves, Shape.tokensAll_append, BuildStep.mergedTokens_append,
      List.append_assoc]
  · rw [second.owners, first.owners, nodes, Shape.owners_append, List.append_assoc]
  · rw [second.pending, first.pending, nodes, tokens, Shape.childrenOf_append, List.append_assoc]

/-- To carry out the steps of a row is to put it into the innermost open node. -/
theorem runAll_row {row : List Shape} (proper : Shape.ProperAll row) {b : Builder} (bounded : b.Bounded)
    {top : OpenNode} {outer : List OpenNode} (opened : b.opened = top :: outer) (raw : Nat) (rest : List BuildStep) :
    ∃ c, BuildStep.runAll stream (Shape.stepsAll row ++ rest) raw b =
        BuildStep.runAll stream rest (raw + ((Shape.tokensAll row).map Prod.snd).sum) c ∧
      Puts stream raw row b c := by
  induction row using Shape.row_induction generalizing b top outer raw rest with
  | nil =>
    exact ⟨b, rfl, rfl, by simp [Shape.recordsAll], bounded, by simp [Shape.tokensAll, BuildStep.mergedTokens],
      by simp [Shape.owners], by simp [Shape.childrenOf], rfl, rfl⟩
  | token kind rawCount row ih =>
    obtain ⟨c, made, puts⟩ := @token_puts stream raw b bounded kind proper.1 rawCount
    obtain ⟨d, ran, later⟩ := ih proper.2 puts.bounded (puts.opened.trans opened) (raw + rawCount) rest
    refine ⟨d, ?_, puts.append later⟩
    calc BuildStep.runAll stream (.token kind rawCount :: (Shape.stepsAll row ++ rest)) raw b
      _ = BuildStep.runAll stream (Shape.stepsAll row ++ rest) (raw + rawCount) c := by
        rw [BuildStep.runAll, made]
        rfl
      _ = _ := by rw [ran, Nat.add_assoc]; rfl
  | node kind children row below ih =>
    let started : Builder :=
      { b with opened := { kind, firstChild := b.pending.size, firstToken := b.tokens.size } :: b.opened }
    obtain ⟨c, ran, puts⟩ :=
      below proper.1.2 (b := started) bounded rfl raw (.finish :: (Shape.stepsAll row ++ rest))
    obtain ⟨d, finished, puts⟩ := finishNode_puts opened puts
    obtain ⟨e, ran', later⟩ := ih proper.2 puts.bounded (puts.opened.trans opened)
      (raw + ((Shape.tokensAll children).map Prod.snd).sum) rest
    have tokens : Shape.tokensAll [.node kind children] = Shape.tokensAll children := by
      simp [Shape.tokensAll, Shape.tokens]
    refine ⟨e, ?_, puts.append (by rwa [tokens])⟩
    have split : Shape.stepsAll (.node kind children :: row) ++ rest =
        .start kind :: (Shape.stepsAll children ++ .finish :: (Shape.stepsAll row ++ rest)) := by
      simp [Shape.stepsAll, Shape.steps]
    have tokens : Shape.tokensAll (.node kind children :: row) =
        Shape.tokensAll children ++ Shape.tokensAll row := by simp [Shape.tokensAll, Shape.tokens]
    rw [split, tokens, List.map_append, List.sum_append, ← Nat.add_assoc, ← ran']
    rw [BuildStep.runAll, startNode_ok proper.1.1]
    refine ran.trans ?_
    rw [BuildStep.runAll, finished]
    rfl

end Builder

/-- A tree that shows one shape around all tokens made of a stream. -/
structure Built (tree : Tree) (stream : TokenStream) (kind : Kind) (children : List Shape) : Prop where
  text : tree.text = stream.text
  rows : tree.rows = Shape.recordsAll 0 0 [.node kind children]
  leaves : tree.tokens.toList.map TokenRecord.toToken =
    BuildStep.mergedTokens stream 0 (Shape.tokensAll children)
  owners : tree.tokens.toList.map TokenRecord.parent = Shape.owners (some (Shape.nodeCounts children)) 0 children
  rootId : tree.rootId = Shape.nodeCounts children

theorem Built.nodeCount {tree : Tree} {stream : TokenStream} {kind : Kind} {children : List Shape}
    (built : tree.Built stream kind children) : tree.nodeCount = Shape.nodeCounts [.node kind children] := by
  have length := congrArg List.length built.rows
  simpa [Tree.nodeCount, Tree.rows] using length

theorem toTree_ok {stream : TokenStream} {kind : Kind} {children : List Shape}
    (proper : (Shape.node kind children).Proper) :
    ∃ tree, BuildStep.toTree stream (Shape.node kind children).steps = .ok tree ∧
      tree.Built stream kind children := by
  let started : Builder := { text := stream.text, opened := [{ kind, firstChild := 0, firstToken := 0 }] }
  have empty : started.Bounded := fun _ found => absurd found (List.not_mem_nil)
  obtain ⟨c, ran, puts⟩ := @Builder.runAll_row stream children proper.2 started empty _ _ rfl 0 [.finish]
  obtain ⟨d, text, rows, -, leaves, owners, pending, opened, root, finished⟩ :=
    Builder.finishNode_eq puts.bounded puts.opened puts.pending rfl
  have size : c.nodes.size = Shape.nodeCounts children := by
    rw [← Builder.length_rows, puts.rows]
    simp [started, Builder.rows]
  have tokens : c.tokens.size = (Shape.tokensAll children).length := by
    rw [← Builder.length_leaves, puts.leaves]
    simp [started, Builder.leaves]
  refine ⟨({ d with root := some c.nodes.size } : Builder).toTree c.nodes.size, ?_,
    text.trans puts.text, ?_, ?_, ?_, size⟩
  · have first : BuildStep.runAll stream (Shape.node kind children).steps 0 (.ofText stream.text) =
        .ok { d with root := some c.nodes.size } := by
      rw [Shape.steps, BuildStep.runAll, Builder.startNode_ok proper.1]
      refine ran.trans ?_
      rw [BuildStep.runAll, finished]
      rfl
    have none : d.pending = #[] := by simpa [started] using pending
    simp [BuildStep.toTree, first, bind, Except.bind, Builder.finish, opened, none]
  · refine rows.trans ?_
    rw [puts.rows]
    simp [started, Builder.rows, Builder.leaves, Shape.recordsAll, Shape.records, Builder.OpenNode.finished, tokens]
  · refine leaves.trans ?_
    rw [puts.leaves]
    simp [started, Builder.leaves]
  · refine owners.trans ?_
    rw [puts.owners, size]
    simpa [started, Builder.rows, Builder.leaves, Builder.owners] using
      Builder.adoptOwner_childrenOf (Shape.nodeCounts children) 0 [] children

end Tree

end LosslessJava
