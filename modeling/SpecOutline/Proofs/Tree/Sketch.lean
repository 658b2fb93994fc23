/-
# Sketches

A `Sketch` is a call with a string and a trailing lambda, around more such calls, whatever the
called names mean.  It is a shape (`Sketch.shape`), and it can be built with steps: one block call
after the other, each inside the body of the call around it (`Sketch.buildAll`).  A block call can
be grafted before what stands in its body (`Tree.graft_blockCall`), so both make the same tree
(`Sketch.buildAll_eq`).
-/
import SpecOutline.Proofs.Tree.Linked

namespace SpecOutline

/-! ## 1. Sketches, as shapes and built -/

/-- The call `name("description") { body }`, whatever the name means. -/
inductive Sketch where
  | block (name description : String) (body : List Sketch)

namespace Sketch

mutual

/-- The call that a sketch stands for. -/
def shape : Sketch → Shape
  | .block name description body => .blockCall name description (shapes body)

/-- The calls of a row of sketches. -/
def shapes : List Sketch → List Shape
  | [] => []
  | o :: os => shape o :: shapes os

end

mutual

/-- Adds a sketch inside a body: its call, and inside the body of the call what it holds. -/
def build (t : Tree) (body : NodeId) : Sketch → Except Tree.BuildError Tree
  | .block name description inner => do
    let (t, answers) ← t.perform (.addBlockCall body name description)
    buildAll t (answers.getLastD body) inner

/-- Adds a row of sketches inside a body. -/
def buildAll (t : Tree) (body : NodeId) : List Sketch → Except Tree.BuildError Tree
  | [] => .ok t
  | o :: os => do
    let t ← build t body o
    buildAll t body os

end

theorem shapes_append (os os' : List Sketch) : shapes (os ++ os') = shapes os ++ shapes os' := by
  induction os with
  | nil => rw [shapes]; rfl
  | cons o os ih => rw [List.cons_append, shapes, shapes, ih, List.cons_append]

end Sketch

/-! ## 2. Building is grafting -/

namespace Tree

/-- Statements that are items of a lambda are grafted below its block. -/
theorem graftItems_statements (t : Tree) (literal block : NodeId) (ss : List Shape) :
    t.graftItems literal block (ss.map .statement) = t.graftAll block ss := by
  induction ss generalizing t with
  | nil => rw [List.map_nil, graftItems, graftAll]
  | cons s ss ih => rw [List.map_cons, graftItems, graftAll, ih]

/-- **A block call can be grafted before what stands in its body.** -/
theorem graft_blockCall (t : Tree) (parent : NodeId) (name description : String)
    (ss : List Shape) :
    (t.graft parent (.blockCall name description [])).size = t.size + 8 ∧
      t.graft parent (.blockCall name description ss) =
        (t.graft parent (.blockCall name description [])).graftAll (t.size + 7) ss := by
  simp only [Shape.blockCall, Shape.leaf, Shape.stringArgument, Shape.trailingLambda, graft,
    graftAll, graftItems, graftItems_statements, List.map_nil, size_append, and_self]

end Tree

namespace Sketch

mutual

/-- **Building a sketch call by call is grafting it.** -/
theorem build_eq (t : Tree) {body : NodeId} (hb : body < t.size) :
    ∀ o : Sketch, build t body o = .ok (t.graft body o.shape)
  | .block name description inner => by
    obtain ⟨hsize, hgraft⟩ := Tree.graft_blockCall t body name description (shapes inner)
    rw [build, Tree.perform_of_growth? rfl (Nat.le_of_lt hb), shape, hgraft]
    exact buildAll_eq _ (by rw [hsize]; exact Nat.lt_succ_self _) inner

theorem buildAll_eq (t : Tree) {body : NodeId} (hb : body < t.size) :
    ∀ os : List Sketch, buildAll t body os = .ok (t.graftAll body (shapes os))
  | [] => by rw [buildAll, shapes, Tree.graftAll]
  | o :: os => by
    rw [buildAll, build_eq t hb o, shapes, Tree.graftAll]
    exact buildAll_eq _ (Nat.lt_trans hb (Tree.size_lt_graft t body o.shape)) os

end

end Sketch

end SpecOutline
