/-
# Going through a tree

`descendants` lists a node and all below it in document order: a node stands before its
children, and the subtrees of its children follow in order.  Links to unknown nodes are
passed over.
-/
import SpecOutline.Tree.Basic

namespace SpecOutline.Tree

/-- The nodes at most `depth - 1` levels below a node, that node first. -/
def preorder (t : Tree) : (depth : Nat) → NodeId → List NodeId
  | 0, _ => []
  | depth + 1, id =>
    match t.get? id with
    | none => []
    | some node => id :: node.children.flatMap (preorder t depth)

/-- A node and all nodes below it, in document order.  A downward path without repetition has
at most as many nodes as the table. -/
def descendants (t : Tree) (id : NodeId) : List NodeId := t.preorder t.size id

/-- The nodes of the file whose kind satisfies `p`, in document order. -/
def findAll (t : Tree) (p : Kind → Bool) : List NodeId :=
  (t.descendants root).filter fun id => (t.kind? id).any p

/-- The calls of the file, in document order. -/
def calls (t : Tree) : List NodeId := t.findAll Kind.isCall

/-- The classes and objects of the file, in document order. -/
def classes (t : Tree) : List NodeId := t.findAll Kind.isClass

end SpecOutline.Tree
