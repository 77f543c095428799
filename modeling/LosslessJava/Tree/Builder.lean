import LosslessJava.Tree

/-!
Building trees: nodes are opened and finished and tokens put between, in the order of the text. A
node enters the table when it is finished, behind all below it.
-/
namespace LosslessJava.Tree

/-- A node that was opened and not yet finished. -/
structure OpenNode where
  kind : Kind
  /-- How many elements were waiting for a parent when the node was opened. Those behind them are put
  into the node. -/
  firstChild : Nat
  firstToken : Nat
  deriving DecidableEq, Repr

/-- A tree under construction. -/
structure Builder where
  text : String
  nodes : Array NodeRecord := #[]
  tokens : Array TokenRecord := #[]
  children : Array Child := #[]
  /-- Elements without parent, but for outermost nodes. -/
  pending : Array Child := #[]
  /-- Open nodes, the innermost first. -/
  opened : List OpenNode := []
  /-- The outermost node that was finished last. -/
  root : Option Nat := none
  deriving Repr

/-- Misuse of a builder. -/
inductive BuildError where
  /-- A node was opened with a kind that is not a node's. -/
  | notNode (kind : Kind)
  /-- A token was put in with a kind that is not a token's. -/
  | notToken (kind : Kind)
  /-- The tree was asked for while these nodes were open, the outermost first. -/
  | unfinished (opened : List OpenNode)
  /-- A node was finished though none was open. -/
  | unmatched
  /-- The builder was given up while nodes were open. -/
  | dropped
  deriving Repr

namespace BuildError

def dumpOpen (node : OpenNode) : String :=
  "Opened \x7b kind: " ++ node.kind.name ++ ", first_child: " ++ toString node.firstChild
    ++ ", first_token: " ++ toString node.firstToken ++ " \x7d"

def message : BuildError → String
  | .notNode kind => kind.name ++ " is not a node kind"
  | .notToken kind => kind.name ++ " is not a token kind"
  | .unfinished opened => "unfinished nodes: [" ++ ", ".intercalate (opened.map dumpOpen) ++ "]"
  | .unmatched => "`finish_node` called without a matching `start_node`"
  | .dropped => "you should call `Builder::finish()`"

end BuildError

namespace Builder

def ofText (text : String) : Builder := { text }

/-- Opens a node; what follows goes into it until it is finished. -/
def startNode (b : Builder) (kind : Kind) : Except BuildError Builder :=
  if kind.isNode then
    .ok { b with opened := { kind, firstChild := b.pending.size, firstToken := b.tokens.size } :: b.opened }
  else
    .error (.notNode kind)

/-- Puts a token into the innermost open node. -/
def token (b : Builder) (token : Token) : Except BuildError Builder :=
  if token.kind.isToken then
    .ok { b with
      tokens := b.tokens.push { toToken := token }, pending := b.pending.push (.token b.tokens.size) }
  else
    .error (.notToken token.kind)

/-- Enters `parent` as the parent of an element. -/
def adopt (parent : Nat) (b : Builder) : Child → Builder
  | .node id => { b with nodes := b.nodes.modify id fun r => { r with parent := some parent } }
  | .token index =>
    { b with tokens := b.tokens.modify index fun r => { r with parent := some parent } }

/-- Finishes the innermost open node. An outermost one becomes the root, in place of any before. -/
def finishNode (b : Builder) : Except BuildError Builder :=
  match b.opened with
  | [] => .error .unmatched
  | top :: rest =>
    let id := b.nodes.size
    let children := b.pending.extract top.firstChild b.pending.size
    let b := children.foldl (adopt id) { b with opened := rest, pending := b.pending.take top.firstChild }
    let finished : NodeRecord :=
      { kind := top.kind, firstChild := b.children.size, endChild := b.children.size + children.size,
        firstToken := top.firstToken, endToken := b.tokens.size }
    let b := { b with nodes := b.nodes.push finished, children := b.children ++ children }
    .ok (if rest.isEmpty then { b with root := some id } else { b with pending := b.pending.push (.node id) })

def toTree (b : Builder) (rootId : Nat) : Tree := ⟨b.text, b.nodes, b.tokens, b.children, rootId⟩

/-- The finished tree. Without an outermost node, or with tokens outside of it, everything is put
into an error node, which then is the root. -/
def finish (b : Builder) : Except BuildError Tree :=
  if b.opened.isEmpty then
    match b.root, b.pending.isEmpty with
    | some root, true => .ok (b.toTree root)
    | previous, _ =>
      let pending := (previous.map Child.node).toArray ++ b.pending
      let wrapper : OpenNode := { kind := .error, firstChild := 0, firstToken := 0 }
      let b := { b with pending, opened := [wrapper], root := none }
      b.finishNode.map fun b => b.toTree (b.nodes.size - 1)
  else
    .error (.unfinished b.opened.reverse)

/-- Gives a builder up, which is allowed only while no node is open. -/
def drop (b : Builder) : Except BuildError Unit :=
  if b.opened.isEmpty then .ok () else .error .dropped

end Builder

end LosslessJava.Tree
