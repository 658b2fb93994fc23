/-
# Outlines

An `Outline` is a block of a suite as one writes it down: a block function, a description, and
the blocks in its body.  By the names of its functions it is a `Sketch`.  The module gives three
readings of a row of outlines.

* As a list of paths: `trailsAmong` lists, block by block in document order, the segments from
  the block up to the outermost one.
* As a run of the builder: `buildSuite` makes a file with two imports and one spec class, and
  adds one block call for each outline, inside the body of the call around it.
* As a part of a tree: `IsSuite` says which nodes a tree has, whatever their places and
  whatever the order in which they were added.

The builder makes what the third reading describes (`isSuite_of_buildSuite`), and then some
lists of nodes are known: those at and below a block call (`BlockCallAt.descendants_eq`), a spec
class (`SpecClassAt.descendants_eq`), and the whole file (`SuiteAt.descendants_root`).
-/
import SpecOutline.Proofs.Tree.Sketch
import SpecOutline.Proofs.Tree.Standing
import SpecOutline.Proofs.Tree.Walks
import SpecOutline.Suite.Path

namespace SpecOutline

/-! ## 1. Outlines and their paths -/

namespace Suite

/-- The functions that open blocks. -/
inductive BlockFunction where
  | describe
  | context
  | given
  | on
  | it
deriving Repr, DecidableEq

namespace BlockFunction

/-- The name of a function. -/
def name : BlockFunction → String
  | .describe => "describe"
  | .context => "context"
  | .given => "given"
  | .on => "on"
  | .it => "it"

/-- What a function opens. -/
def kind : BlockFunction → BlockKind
  | .it => .test
  | _ => .group

/-- The segment of a block that a function opens. -/
def segment (f : BlockFunction) (description : String) : BlockSegment :=
  ⟨f.kind, f.name ++ " " ++ description⟩

end BlockFunction

/-- A block with the blocks in its body. -/
inductive Outline where
  | block (function : BlockFunction) (description : String) (body : List Outline)

namespace Outline

mutual

/-- The segments of a block and of the blocks in it, in document order, each with those of the
blocks around it; `outer` are the segments around the outline, innermost first. -/
def trails (outer : List BlockSegment) : Outline → List (List BlockSegment)
  | .block function description body =>
    (function.segment description :: outer) ::
      trailsAmong (function.segment description :: outer) body

/-- The segments of the blocks of a row of outlines. -/
def trailsAmong (outer : List BlockSegment) : List Outline → List (List BlockSegment)
  | [] => []
  | o :: os => trails outer o ++ trailsAmong outer os

end

/-! ## 2. Outlines as trees -/

mutual

/-- The call of an outline, by the name of its function. -/
def sketch : Outline → Sketch
  | .block function description body => .block function.name description (sketches body)

/-- The calls of a row of outlines. -/
def sketches : List Outline → List Sketch
  | [] => []
  | o :: os => sketch o :: sketches os

end

end Outline

open Outline

/-- The import of the marker class. -/
def markerImport : Import := { path := "org.jetbrains.spek.api.Spek" }

/-- The import of all of the vocabulary. -/
def vocabularyImport : Import := { path := "org.jetbrains.spek.api.dsl", star := true }

/-- The head of a class below the marker class. -/
def suiteHead (className : String) : ClassHead := { name := className, supertypes := ["Spek"] }

/-- Makes a file with a spec class that holds a row of outlines. -/
def buildSuite (package className : String) (forest : List Outline) :
    Except Tree.BuildError Tree := do
  let (t, _) ← (Tree.inPackage (some package)).perform (.addImport markerImport)
  let (t, _) ← t.perform (.addImport vocabularyImport)
  let (t, answers) ← t.perform (.addSpecClass (suiteHead className))
  Sketch.buildAll t (answers.getLastD Tree.root) (sketches forest)

/-- What stands below the file node of such a file. -/
def suiteShapes (className : String) (forest : List Outline) : List Shape :=
  [.leaf (.importing markerImport), .leaf (.importing vocabularyImport),
    .specClass (suiteHead className) (Sketch.shapes (sketches forest))]

/-- A tree is that of a file with a spec class that holds a row of outlines. -/
structure IsSuite (t : Tree) (package className : String) (forest : List Outline) : Prop where
  file : t.kind? Tree.root = some (.file (some package))
  stands : t.StandsAll Tree.root (suiteShapes className forest) (t.children Tree.root)

end Suite

/-! ## 3. What the builder makes -/

namespace Tree

/-- A spec class can be grafted before what stands in its body. -/
theorem graft_specClass (t : Tree) (parent : NodeId) (head : ClassHead) (ss : List Shape) :
    (t.graft parent (.specClass head [])).size = t.size + 7 ∧
      t.graft parent (.specClass head ss) =
        (t.graft parent (.specClass head [])).graftAll (t.size + 6) ss := by
  simp only [Shape.specClass, graft, graftAll, graftItems, graftItems_statements, List.map_nil,
    size_append, and_self]

end Tree

namespace Suite

open SpecOutline.Tree SpecOutline.Suite.Outline

/-- The builder refuses no step of a suite, and what it makes is the shapes of the suite grafted
onto an empty file. -/
theorem buildSuite_eq (package className : String) (forest : List Outline) :
    buildSuite package className forest =
      .ok ((inPackage (some package)).graftAll root (suiteShapes className forest)) := by
  have hroot : ∀ t : Tree, root ≤ t.size := fun t => Nat.zero_le t.size
  have himport : ∀ (t : Tree) (i : Import), t.perform (.addImport i) =
      .ok (t.graft root (.leaf (.importing i)), [t.size]) := by
    intro t i
    rw [perform_of_growth? rfl (hroot t)]
    rfl
  have hclass : ∀ (t : Tree) (head : ClassHead), t.perform (.addSpecClass head) =
      .ok (t.graft root (.specClass head []), [t.size, t.size + 6]) := by
    intro t head
    rw [perform_of_growth? rfl (hroot t)]
    rfl
  simp only [buildSuite, himport, hclass, bind, Except.bind, suiteShapes, graftAll]
  obtain ⟨hsize, hgraft⟩ := graft_specClass
    (((inPackage (some package)).graft root (.leaf (.importing markerImport))).graft root
      (.leaf (.importing vocabularyImport))) root (suiteHead className)
      (Sketch.shapes (sketches forest))
  rw [hgraft]
  exact Sketch.buildAll_eq _ (by rw [hsize]; exact Nat.lt_succ_self _) (sketches forest)

/-- **What the builder makes is the tree of the suite.** -/
theorem isSuite_of_buildSuite {package className : String} {forest : List Outline} {t : Tree}
    (h : buildSuite package className forest = .ok t) :
    t.Linked ∧ IsSuite t package className forest := by
  rw [buildSuite_eq] at h
  cases h
  have hlinked := linked_inPackage (some package)
  have hlt : root < (inPackage (some package)).size := hlinked.size_pos
  obtain ⟨ids, hroot, -, hstands⟩ :=
    standsAll_graftAll hlinked hlt (suiteShapes className forest)
  have hget : (inPackage (some package)).get? root = some { kind := .file (some package) } := rfl
  rw [hget, Option.map_some] at hroot
  refine ⟨hlinked.graftAll hlt _, kind?_of_get? hroot, ?_⟩
  rw [children_of_get? hroot]
  exact hstands

end Suite

/-! ## 4. The nodes of a suite -/

namespace Tree

variable {t : Tree}

theorem kindIs_of_get? {id : NodeId} {node : Node} (hn : t.get? id = some node)
    (f : Kind → Bool) : t.view.kindIs f id = f node.kind := by
  rw [View.kindIs, show t.view.kind? id = some node.kind from kind?_of_get? hn]
  rfl

variable (ht : t.Linked)
include ht

/-- The nodes at and below a node, read off the table. -/
theorem Linked.descendants_of_get? {id : NodeId} {node : Node} (hn : t.get? id = some node) :
    t.descendants id = id :: node.children.flatMap t.descendants := by
  rw [ht.descendants_eq (lt_size_of_get? hn), children_of_get? hn]

/-- A lambda brings three nodes, and then its statements. -/
theorem LambdaAt.descendants_eq {parent : NodeId} {p : LambdaPlaces} {ss : List Shape}
    (h : t.LambdaAt parent p ss) :
    t.descendants p.lambda =
      [p.lambda, p.literal, p.body] ++ (t.children p.body).flatMap t.descendants := by
  obtain ⟨statements, hb⟩ := h.body
  rw [ht.descendants_of_get? h.lambda, List.flatMap_singleton,
    ht.descendants_of_get? h.literal, List.flatMap_singleton,
    ht.descendants_of_get? hb, children_of_get? hb]
  rfl

/-- **A block call brings eight nodes, and then what stands in its body.** -/
theorem BlockCallAt.descendants_eq {parent : NodeId} {p : CallPlaces}
    {function description : String} {ss : List Shape}
    (h : t.BlockCallAt parent p function description ss) :
    t.descendants p.call =
      [p.call, p.callee, p.argument, p.text, p.trailing, p.lambda, p.literal, p.body] ++
        (t.children p.body).flatMap t.descendants := by
  rw [ht.descendants_of_get? h.call]
  simp only [List.flatMap_cons, List.flatMap_nil, List.append_nil]
  rw [ht.descendants_of_get? h.callee, ht.descendants_of_get? h.argument,
    List.flatMap_singleton, ht.descendants_of_get? h.text, ht.descendants_of_get? h.trailing,
    List.flatMap_singleton, h.block.descendants_eq ht]
  rfl

/-- **A spec class brings seven nodes, and then what stands in its body.** -/
theorem SpecClassAt.descendants_eq {parent : NodeId} {p : ClassPlaces} {head : ClassHead}
    {ss : List Shape} (h : t.SpecClassAt parent p head ss) :
    t.descendants p.declaration =
      [p.declaration, p.specifier, p.invocation, p.argument, p.lambda, p.literal, p.body] ++
        (t.children p.body).flatMap t.descendants := by
  rw [ht.descendants_of_get? h.declaration, List.flatMap_singleton,
    ht.descendants_of_get? h.specifier, List.flatMap_singleton,
    ht.descendants_of_get? h.invocation, List.flatMap_singleton,
    ht.descendants_of_get? h.argument, List.flatMap_singleton, h.block.descendants_eq ht]
  rfl

end Tree

namespace Suite

open SpecOutline.Tree SpecOutline.Suite.Outline

/-- The kinds that neither declare nor import anything. -/
def isPlain : Kind → Bool
  | .file _ | .importing _ | .classLike _ | .objectLike _ | .function _ | .annotated _ => false
  | _ => true

end Suite

namespace Sketch

open SpecOutline.Tree SpecOutline.Suite

mutual

/-- The calls of a sketch declare and import nothing. -/
theorem plain_of_stands {t : Tree} (ht : t.Linked) {parent : NodeId} :
    ∀ (o : Sketch) {id : NodeId}, t.Stands parent id o.shape →
      ∀ d ∈ t.descendants id, t.view.kindIs isPlain d = true
  | .block name description inner, id, h => by
    rw [shape] at h
    obtain ⟨p, rfl, hp⟩ := h.blockCallAt
    obtain ⟨statements, hbody⟩ := hp.block.body
    intro d hd
    rw [hp.descendants_eq ht, List.mem_append] at hd
    rcases hd with hd | hd
    · simp only [List.mem_cons, List.not_mem_nil, or_false] at hd
      rcases hd with rfl | rfl | rfl | rfl | rfl | rfl | rfl | rfl
      · exact kindIs_of_get? hp.call isPlain
      · exact kindIs_of_get? hp.callee isPlain
      · exact kindIs_of_get? hp.argument isPlain
      · exact kindIs_of_get? hp.text isPlain
      · exact kindIs_of_get? hp.trailing isPlain
      · exact kindIs_of_get? hp.block.lambda isPlain
      · exact kindIs_of_get? hp.block.literal isPlain
      · exact kindIs_of_get? hbody isPlain
    · exact plain_of_standsAll ht inner hp.block.statements d hd

theorem plain_of_standsAll {t : Tree} (ht : t.Linked) {parent : NodeId} :
    ∀ (os : List Sketch) {ids : List NodeId}, t.StandsAll parent (shapes os) ids →
      ∀ d ∈ ids.flatMap t.descendants, t.view.kindIs isPlain d = true
  | [], ids, h => by
    rw [shapes, standsAll_nil_iff] at h
    simp [h]
  | o :: os, ids, h => by
    rw [shapes] at h
    obtain ⟨id, rest, rfl, ho, hos⟩ := standsAll_cons_iff.mp h
    intro d hd
    rw [List.flatMap_cons, List.mem_append] at hd
    rcases hd with hd | hd
    · exact plain_of_stands ht o ho d hd
    · exact plain_of_standsAll ht os hos d hd

end

end Sketch

namespace Suite

open SpecOutline.Tree SpecOutline.Suite.Outline

/-- At the given places stand the imports and the class of a suite. -/
structure SuiteAt (t : Tree) (first second : NodeId) (p : ClassPlaces)
    (package className : String) (forest : List Outline) : Prop where
  file : t.kind? root = some (.file (some package))
  children : t.children root = [first, second, p.declaration]
  get_first : t.get? first = some { kind := .importing markerImport, parent? := some root }
  get_second : t.get? second = some { kind := .importing vocabularyImport, parent? := some root }
  spec : t.SpecClassAt root p (suiteHead className) (Sketch.shapes (sketches forest))

/-- The nodes of a suite have places. -/
theorem IsSuite.suiteAt {t : Tree} {package className : String} {forest : List Outline}
    (h : IsSuite t package className forest) :
    ∃ first second p, SuiteAt t first second p package className forest := by
  have hs := h.stands
  rw [suiteShapes] at hs
  obtain ⟨first, _, hids, hfirst, hs⟩ := standsAll_cons_iff.mp hs
  obtain ⟨second, _, rfl, hsecond, hs⟩ := standsAll_cons_iff.mp hs
  obtain ⟨_, _, rfl, hclass, hs⟩ := standsAll_cons_iff.mp hs
  obtain rfl := standsAll_nil_iff.mp hs
  obtain ⟨p, rfl, hp⟩ := hclass.specClassAt
  exact ⟨first, second, p, h.file, hids, stands_leaf_iff.mp hfirst, stands_leaf_iff.mp hsecond,
    hp⟩

namespace SuiteAt

variable {t : Tree} {first second : NodeId} {p : ClassPlaces} {package className : String}
  {forest : List Outline}

/-- **The nodes of a suite in document order.** -/
theorem descendants_root (ht : t.Linked)
    (h : SuiteAt t first second p package className forest) :
    t.descendants root = [root, first, second, p.declaration, p.specifier, p.invocation,
      p.argument, p.lambda, p.literal, p.body] ++
        (t.children p.body).flatMap t.descendants := by
  have hroot : root < t.size := ht.size_pos
  rw [ht.descendants_eq hroot, h.children]
  simp only [List.flatMap_cons, List.flatMap_nil, List.append_nil]
  rw [ht.descendants_of_get? h.get_first, ht.descendants_of_get? h.get_second,
    h.spec.descendants_eq ht]
  rfl

/-- **All nodes below the class are plain.** -/
theorem plain_of_mem_tail (ht : t.Linked)
    (h : SuiteAt t first second p package className forest) :
    ∀ d ∈ [p.specifier, p.invocation, p.argument, p.lambda, p.literal, p.body] ++
      (t.children p.body).flatMap t.descendants, t.view.kindIs isPlain d = true := by
  obtain ⟨statements, hbody⟩ := h.spec.block.body
  intro d hd
  rw [List.mem_append] at hd
  rcases hd with hd | hd
  · simp only [List.mem_cons, List.not_mem_nil, or_false] at hd
    rcases hd with rfl | rfl | rfl | rfl | rfl | rfl
    · exact kindIs_of_get? h.spec.specifier isPlain
    · exact kindIs_of_get? h.spec.invocation isPlain
    · exact kindIs_of_get? h.spec.argument isPlain
    · exact kindIs_of_get? h.spec.block.lambda isPlain
    · exact kindIs_of_get? h.spec.block.literal isPlain
    · exact kindIs_of_get? hbody isPlain
  · exact Sketch.plain_of_standsAll ht (sketches forest) h.spec.block.statements d hd

end SuiteAt

end Suite

end SpecOutline
