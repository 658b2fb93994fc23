/-
# Trees as tables of nodes

A tree is a table of nodes that name each other by their place in it, parents and children
both ways.  Place zero is the file.  A table read from a file may hold links that lead
nowhere; every question about an unknown node has an answer all the same.
-/
import SpecOutline.Source.Language
import SpecOutline.Source.Span
import SpecOutline.Tree.Kind

namespace SpecOutline

/-! ## 1. Nodes and trees -/

/-- A node's place in its table. -/
abbrev NodeId := Nat

/-- A node and its links. -/
structure Node where
  kind : Kind
  parent? : Option NodeId := none
  children : List NodeId := []
  span : Span := {}
deriving Repr, DecidableEq

/-- The tree of one source file. -/
structure Tree where
  path? : Option String := none
  language : Language
  nodes : Array Node
  errorRegions : List Span := []
deriving Repr, DecidableEq

namespace Tree

/-- The place of the file node. -/
def root : NodeId := 0

/-- The number of nodes. -/
def size (t : Tree) : Nat := t.nodes.size

/-- The node at a place. -/
def get? (t : Tree) (id : NodeId) : Option Node := t.nodes[id]?

/-- The kind of the node at a place. -/
def kind? (t : Tree) (id : NodeId) : Option Kind := (t.get? id).map (·.kind)

/-- The parent of the node at a place. -/
def parent? (t : Tree) (id : NodeId) : Option NodeId := (t.get? id).bind (·.parent?)

/-- The children of the node at a place. -/
def children (t : Tree) (id : NodeId) : List NodeId :=
  match t.get? id with
  | some node => node.children
  | none => []

/-- The span of the node at a place. -/
def span (t : Tree) (id : NodeId) : Span :=
  match t.get? id with
  | some node => node.span
  | none => {}

/-! ## 2. The whole file -/

/-- The package that the file declares. -/
def package? (t : Tree) : Option String :=
  match t.kind? root with
  | some (.file package?) => package?
  | _ => none

/-- The imports of the file, in the order of the table. -/
def imports (t : Tree) : List Import :=
  t.nodes.toList.filterMap fun node =>
    match node.kind with
    | .importing directive => some directive
    | _ => none

end Tree

end SpecOutline
