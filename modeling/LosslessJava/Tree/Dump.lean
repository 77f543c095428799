import LosslessJava.Tree.Walk

/-!
Dumps: a tree as text, one element on a line, each indented by two spaces below the node that holds
it.
-/
namespace LosslessJava.Tree

def indentation (depth : Nat) : String := String.join (List.replicate depth "  ")

/-- How many nodes are open after a visit. -/
def depthAfter (depth : Nat) : Visit Element → Nat
  | .enter (.node _) => depth + 1
  | .leave (.node _) => depth - 1
  | .enter (.leaf _) => depth
  | .leave (.leaf _) => depth

/-- The line for a visit made below `depth` open nodes. -/
def dumpLine? (depth : Nat) : Visit Element → Option String
  | .enter (.node node) => some (indentation depth ++ node.kind.name)
  | .enter (.leaf leaf) => some (indentation depth ++ leaf.kind.name ++ " " ++ Text.quote leaf.text)
  | .leave _ => none

/-- The lines for visits made below `depth` open nodes. -/
def dumpLines (depth : Nat) : List (Visit Element) → List String
  | [] => []
  | visit :: rest => (dumpLine? depth visit).toList ++ dumpLines (depthAfter depth visit) rest

/-- The node and all below it; every line ends in a line break. -/
def Node.dump (node : Node) : String := String.join ((dumpLines 0 node.visits).map (· ++ "\n"))

end LosslessJava.Tree
