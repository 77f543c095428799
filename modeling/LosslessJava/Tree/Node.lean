import LosslessJava.Text.Quoted
import LosslessJava.Tree

/-!
Moving through a tree: parents, children and neighbours of nodes and tokens, and the text they
cover.
-/
namespace LosslessJava.Tree

namespace Leaf

def record (leaf : Leaf) : TokenRecord := leaf.tree.tokens.getD leaf.index default

def kind (leaf : Leaf) : Kind := leaf.record.kind

/-- The token's bytes without trivia. -/
def textRange (leaf : Leaf) : Span := leaf.record.range

/-- The token's bytes with its trivia. -/
def fullRange (leaf : Leaf) : Span := leaf.record.toToken.fullRange

def text (leaf : Leaf) : String := leaf.textRange.slice leaf.tree.text

def fullText (leaf : Leaf) : String := leaf.fullRange.slice leaf.tree.text

def leading (leaf : Leaf) : Trivia := leaf.record.leading

def trailing (leaf : Leaf) : Trivia := leaf.record.trailing

def parent? (leaf : Leaf) : Option Node := leaf.record.parent.map (Node.mk leaf.tree)

def previous? (leaf : Leaf) : Option Leaf :=
  if leaf.index = 0 then none else some ⟨leaf.tree, leaf.index - 1⟩

def next? (leaf : Leaf) : Option Leaf := leaf.tree.leaf? (leaf.index + 1)

/-- Kind, range and quoted text. -/
def describe (leaf : Leaf) : String :=
  leaf.kind.name ++ "@" ++ leaf.textRange.describe ++ " " ++ Text.quote leaf.text

end Leaf

namespace Node

def record (node : Node) : NodeRecord := node.tree.nodes.getD node.id default

def kind (node : Node) : Kind := node.record.kind

def firstToken (node : Node) : Nat := node.record.firstToken

def endToken (node : Node) : Nat := node.record.endToken

def firstLeaf? (node : Node) : Option Leaf :=
  if node.firstToken < node.endToken then some ⟨node.tree, node.firstToken⟩ else none

def lastLeaf? (node : Node) : Option Leaf :=
  if node.firstToken < node.endToken then some ⟨node.tree, node.endToken - 1⟩ else none

/-- Every token below the node, in the order of the text. -/
def leaves (node : Node) : List Leaf :=
  (List.range' node.firstToken (node.endToken - node.firstToken)).map (Leaf.mk node.tree)

/-- The bytes from the first to the last token, without the trivia outside. A node without tokens
sits at the start of the token that follows it. -/
def textRange (node : Node) : Span :=
  match node.firstLeaf?, node.lastLeaf? with
  | some first, some last => first.textRange.cover last.textRange
  | _, _ =>
    match node.tree.leaf? node.firstToken with
    | some next => .empty next.textRange.start
    | none => .empty node.tree.text.utf8ByteSize

/-- The bytes of the node with the trivia before its first and after its last token. -/
def fullRange (node : Node) : Span :=
  match node.firstLeaf?, node.lastLeaf? with
  | some first, some last => first.fullRange.cover last.fullRange
  | _, _ => node.textRange

def text (node : Node) : String := node.textRange.slice node.tree.text

def fullText (node : Node) : String := node.fullRange.slice node.tree.text

def parent? (node : Node) : Option Node := node.record.parent.map (Node.mk node.tree)

def ancestorsWithin : Nat → Node → List Node
  | 0, _ => []
  | limit + 1, node =>
    node :: match node.parent? with
      | some parent => ancestorsWithin limit parent
      | none => []

/-- The node, its parent and so on up to a node without parent. -/
def ancestors (node : Node) : List Node := ancestorsWithin node.tree.nodeCount node

/-- What stands directly below the node, in the order of the text. -/
def elements (node : Node) : List Element :=
  (node.tree.childrenOf node.id).map fun
    | .node id => .node ⟨node.tree, id⟩
    | .token index => .leaf ⟨node.tree, index⟩

/-- The nodes directly below the node. -/
def children (node : Node) : List Node :=
  node.elements.filterMap fun
    | .node child => some child
    | .leaf _ => none

/-- The tokens directly below the node. -/
def childTokens (node : Node) : List Leaf :=
  node.elements.filterMap fun
    | .node _ => none
    | .leaf leaf => some leaf

def firstChild? (node : Node) : Option Node := node.children.head?

/-- The first child node of a kind. -/
def childOfKind? (node : Node) (kind : Kind) : Option Node :=
  node.children.find? (·.kind == kind)

/-- The first child token of a kind. -/
def tokenOfKind? (node : Node) (kind : Kind) : Option Leaf :=
  node.childTokens.find? (·.kind == kind)

def foldWithin {α : Type} (f : Node → List α → α) : Nat → Node → α
  | 0, node => f node []
  | limit + 1, node => f node (node.children.map (foldWithin f limit))

/-- Combines what `f` gives for the children of each node, from the bottom up. -/
def fold {α : Type} (f : Node → List α → α) (node : Node) : α :=
  foldWithin f node.tree.nodeCount node

/-- Kind and range. -/
def describe (node : Node) : String := node.kind.name ++ "@" ++ node.textRange.describe

end Node

/-- The token's parent and all nodes above it. -/
def Leaf.ancestors (leaf : Leaf) : List Node :=
  match leaf.parent? with
  | some parent => parent.ancestors
  | none => []

namespace Element

def kind : Element → Kind
  | .node n => n.kind
  | .leaf l => l.kind

def textRange : Element → Span
  | .node n => n.textRange
  | .leaf l => l.textRange

def describe : Element → String
  | .node n => n.describe
  | .leaf l => l.describe

end Element

end LosslessJava.Tree
