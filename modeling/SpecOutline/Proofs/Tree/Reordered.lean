/-
# Trees with their children in another order

`Reordered t u` says that `u` has the nodes of `t`, with the same kinds and parents, and that each
node has the same children in some order.

* What is found on the way up does not depend on the order: the ancestors of a node are the same in
  both trees (`Reordered.ancestors_eq`).
* What is found on the way down comes in another order, but it is the same: the descendants of a
  node are permuted (`Reordered.descendants_perm`), and with them all that is searched among them
  (`Reordered.findAll_perm`).
* The package and the imports are read off the table, where each node keeps its place.

Nothing is asked of the links: they need not even agree with each other.
-/
import Mathlib.Data.List.Perm.Basic
import SpecOutline.Proofs.Tree.Walks

namespace SpecOutline.Tree

/-- The nodes of `u` are those of `t`, but for the order of their children. -/
structure Reordered (t u : Tree) : Prop where
  size_eq : u.size = t.size
  kind?_eq : ∀ id, u.kind? id = t.kind? id
  parent?_eq : ∀ id, u.parent? id = t.parent? id
  children_perm : ∀ id, (u.children id).Perm (t.children id)

namespace Reordered

variable {t u : Tree} (h : t.Reordered u)
include h

/-! ## 1. Downward -/

/-- **The nodes below a node are permuted**, however many levels are listed. -/
theorem preorder_perm (depth : Nat) (id : NodeId) :
    (u.preorder depth id).Perm (t.preorder depth id) := by
  induction depth generalizing id with
  | zero => exact .refl _
  | succ depth ih =>
    rw [preorder_succ, preorder_succ, h.size_eq]
    split
    · exact ((h.children_perm id).flatMap fun c _ => ih c).cons id
    · exact .refl _

theorem descendants_perm (id : NodeId) : (u.descendants id).Perm (t.descendants id) := by
  rw [descendants, descendants, h.size_eq]
  exact h.preorder_perm t.size id

/-- **A search finds the same nodes.** -/
theorem findAll_perm (p : Kind → Bool) : (u.findAll p).Perm (t.findAll p) := by
  simp only [findAll, h.kind?_eq]
  exact (h.descendants_perm root).filter _

theorem classes_perm : u.classes.Perm t.classes := h.findAll_perm Kind.isClass

/-! ## 2. Upward -/

/-- **The ancestors of a node are the same.** -/
theorem ancestors_eq (id : NodeId) : u.view.ancestors id = t.view.ancestors id :=
  ancestors_congr h.size_eq h.parent?_eq id

/-! ## 3. The table -/

theorem imports_eq : u.imports = t.imports := by
  have himport : u.import? = t.import? := by
    funext id
    rw [import?, import?, h.kind?_eq]
  rw [imports_eq_filterMap, imports_eq_filterMap, h.size_eq, himport]

theorem package?_eq : u.package? = t.package? := by
  rw [package?, package?, h.kind?_eq]

end Reordered

end SpecOutline.Tree
