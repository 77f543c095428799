import LosslessJava.Token

/-!
Syntax trees. A tree keeps its nodes and tokens in two tables; nodes and tokens refer to each other
by their positions there. `Tree.Node` and `Tree.Leaf` are a tree together with such a position, and
they are what one moves through a tree with.
-/
namespace LosslessJava

namespace Tree

/-- What stands directly below a node. -/
inductive Child where
  | node (id : Nat)
  | token (index : Nat)
  deriving DecidableEq, Repr, Inhabited

/-- A row of the node table. What stands directly below the node are the entries of the table of children
from `firstChild` up to, but not including, `endChild`; the tokens below it are likewise those from
`firstToken` to `endToken`. -/
structure NodeRecord where
  kind : Kind
  parent : Option Nat := none
  firstChild : Nat := 0
  endChild : Nat := 0
  firstToken : Nat := 0
  endToken : Nat := 0
  deriving Repr, Inhabited

/-- A row of the token table. -/
structure TokenRecord extends Token where
  parent : Option Nat := none
  deriving Repr, Inhabited

end Tree

/-- A syntax tree of `text`. Nodes stand in their table in the order in which they were finished,
so children come before their parents; tokens stand in the order of the text. The children of all nodes
share one table. -/
structure Tree where
  text : String
  nodes : Array Tree.NodeRecord
  tokens : Array Tree.TokenRecord
  children : Array Tree.Child
  /-- Position of the root among the nodes. -/
  rootId : Nat
  deriving Repr

namespace Tree

/-- A node of a tree. -/
structure Node where
  tree : Tree
  id : Nat

/-- A token of a tree. -/
structure Leaf where
  tree : Tree
  index : Nat

/-- A node or a token. -/
inductive Element where
  | node (node : Node)
  | leaf (leaf : Leaf)

/-- What stands directly below the node of an id. -/
def childrenOf (tree : Tree) (id : Nat) : List Child :=
  let record := tree.nodes.getD id default
  (tree.children.extract record.firstChild record.endChild).toList

def root (tree : Tree) : Node := ⟨tree, tree.rootId⟩

def nodeCount (tree : Tree) : Nat := tree.nodes.size

def tokenCount (tree : Tree) : Nat := tree.tokens.size

/-- The token at a position in the table. -/
def leaf? (tree : Tree) (index : Nat) : Option Leaf :=
  if index < tree.tokenCount then some ⟨tree, index⟩ else none

/-- All tokens, in the order of the text. -/
def leaves (tree : Tree) : List Leaf := (List.range tree.tokenCount).map (Leaf.mk tree)

/-- Sizes of the tree, written out for debugging. -/
def dump (tree : Tree) : String :=
  "SyntaxTree \x7b text_len: " ++ toString tree.text.utf8ByteSize ++ ", nodes: "
    ++ toString tree.nodeCount ++ ", tokens: " ++ toString tree.tokenCount ++ ", .. \x7d"

end Tree

end LosslessJava
