/-
# Listing a tree

One line per node, indented by two spaces a level: its kind, its detail and its first line
in brackets.
-/
import SpecOutline.Tree.Traversal

namespace SpecOutline.Tree

/-- The line of a node at a level. -/
def dumpLine (level : Nat) (node : Node) : String :=
  String.ofList (List.replicate (2 * level) ' ') ++ node.kind.label ++ node.kind.detail
    ++ " [" ++ toString node.span.startLine ++ "]\n"

/-- The lines of a node and of those at most `depth - 1` levels below it. -/
def dumpLines (t : Tree) : (depth level : Nat) → NodeId → List String
  | 0, _, _ => []
  | depth + 1, level, id =>
    match t.get? id with
    | none => []
    | some node =>
      dumpLine level node :: node.children.flatMap (dumpLines t depth (level + 1))

/-- The listing of a whole tree. -/
def dump (t : Tree) : String := String.join (t.dumpLines t.size 0 root)

end SpecOutline.Tree
