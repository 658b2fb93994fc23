/-
# Looking at a tree

The analyses look at a tree only through a `View`: the kind, parent, children and span of a
node.  A view also says how far up its parent chains may be followed, so that a chain that
runs in a circle is cut and every question has an answer; chains shorter than that are
followed to their end.
-/
import SpecOutline.Tree.Basic

namespace SpecOutline

/-! ## 1. Views -/

/-- What an analysis may ask about a node.  Parent chains are followed for `height` steps. -/
structure View where
  kind? : NodeId → Option Kind
  parent? : NodeId → Option NodeId
  children : NodeId → List NodeId
  span : NodeId → Span
  height : Nat

/-- The first `n` links of the chain that `next` makes from `id`. -/
def chain (next : NodeId → Option NodeId) : (n : Nat) → (id : NodeId) → List NodeId
  | 0, _ => []
  | n + 1, id =>
    match next id with
    | none => []
    | some p => p :: chain next n p

namespace View

/-! ## 2. Steps -/

/-- Whether the node at a place is of a kind that satisfies `p`. -/
def kindIs (v : View) (p : Kind → Bool) (id : NodeId) : Bool := (v.kind? id).any p

/-- The parent, if it is of a kind that satisfies `p`. -/
def parentIf? (v : View) (id : NodeId) (p : Kind → Bool) : Option NodeId :=
  (v.parent? id).filter (v.kindIs p)

/-- The first child. -/
def firstChild? (v : View) (id : NodeId) : Option NodeId := (v.children id).head?

/-- The children of a kind that satisfies `p`. -/
def childrenWhere (v : View) (id : NodeId) (p : Kind → Bool) : List NodeId :=
  (v.children id).filter (v.kindIs p)

/-! ## 3. Upward -/

/-- The proper ancestors, nearest first. -/
def ancestors (v : View) (id : NodeId) : List NodeId := chain v.parent? v.height id

/-- The nearest class or object around a node, whatever functions and lambdas lie between. -/
def enclosingClass? (v : View) (id : NodeId) : Option NodeId :=
  (v.ancestors id).find? (v.kindIs Kind.isClass)

/-- The parent chain of a node ends within the height of the view. -/
def EndsFrom (v : View) (id : NodeId) : Prop :=
  ∃ n < v.height, (chain v.parent? (n + 1) id).length ≤ n

/-- Every parent chain ends within the height of the view. -/
def Grounded (v : View) : Prop := ∀ id, v.EndsFrom id

end View

/-- A tree as a view.  A chain without repetition has at most as many links as the table has
nodes, so none is cut. -/
def Tree.view (t : Tree) : View where
  kind? := t.kind?
  parent? := t.parent?
  children := t.children
  span := t.span
  height := t.size + 1

end SpecOutline
