/-
# The listing of a tree

A listing counts levels on the way down: a child is written one level further in than its parent.
Here the level of a node is counted on the way up, as the number of its ancestors, and the lines
are those of the nodes in document order.

* A child has one ancestor more than its parent (`Linked.level_of_mem_children`).  So the lines of a
  subtree are the lines of its nodes in document order, if the node on top of it is given its own
  level (`Linked.dumpLines_eq_map_preorder`).
* The text can be made with a stack of nodes and levels (`Listing`).  Turn by turn that is a walk in
  document order (`Walk.turn?_listing`): what it has written are the lines of the nodes listed so
  far, and the levels on its stack are those of the tree.  So it ends where the walk ends
  (`Linked.listing_ends`).
-/
import Mathlib.Logic.Relation
import SpecOutline.Proofs.Tree.DocumentOrder
import SpecOutline.Tree.Dump

namespace SpecOutline.Tree

variable {t : Tree}

/-! ## 1. Levels and lines -/

/-- The level of a node is the number of its ancestors. -/
def level (t : Tree) (id : NodeId) : Nat := (t.view.ancestors id).length

/-- The line of a node, read off the tree around it: two spaces for each of its ancestors, the label
and the detail of its kind, and the line on which it starts.  An unknown node has no line. -/
def lineOf (t : Tree) (id : NodeId) : String :=
  match t.kind? id with
  | none => ""
  | some kind =>
    String.join ((t.view.ancestors id).map fun _ => "  ") ++ kind.label ++ kind.detail
      ++ " [" ++ toString (t.span id).startLine ++ "]\n"

/-- Two spaces for each of some nodes are an indentation by their number. -/
theorem join_spaces (ids : List NodeId) :
    String.join (ids.map fun _ => "  ") = String.ofList (List.replicate (2 * ids.length) ' ') := by
  induction ids with
  | nil => rfl
  | cons id ids ih =>
    have htwo : 2 * (id :: ids).length = 2 + 2 * ids.length := by
      rw [List.length_cons]
      omega
    rw [List.map_cons, String.join_cons, ih, htwo, ← List.replicate_append_replicate,
      String.ofList_append]
    rfl

theorem lineOf_of_kind? {id : NodeId} {kind : Kind} (hk : t.kind? id = some kind) :
    t.lineOf id = String.join ((t.view.ancestors id).map fun _ => "  ") ++ kind.label
      ++ kind.detail ++ " [" ++ toString (t.span id).startLine ++ "]\n" := by
  rw [lineOf, hk]

/-- **The line of a node is what a listing writes for it at its level.** -/
theorem lineOf_of_get? {id : NodeId} {node : Node} (hn : t.get? id = some node) :
    t.lineOf id = dumpLine (t.level id) node := by
  have hspan : t.span id = node.span := by rw [span, hn]
  rw [lineOf_of_kind? (kind?_of_get? hn), join_spaces, hspan, dumpLine, level]

namespace Linked

variable (h : t.Linked)
include h

theorem level_root : t.level root = 0 := by
  rw [level, View.ancestors_of_parent?_none h.root_parent, List.length_nil]

/-- **A child is one level below its parent.** -/
theorem level_of_mem_children {p c : NodeId} (hc : c ∈ t.children p) :
    t.level c = t.level p + 1 := by
  rw [level, h.ancestors_of_parent? ((h.mem_children p c).mp hc), List.length_cons, level]

/-! ## 2. Going down -/

/-- **From a node at its level, the lines are those of the nodes in document order.** -/
theorem dumpLines_eq_map_preorder (depth : Nat) (id : NodeId) :
    t.dumpLines depth (t.level id) id = (t.preorder depth id).map t.lineOf := by
  -- the level is not generalised: the induction meets every node at its own
  induction depth generalizing id with
  | zero => rfl
  | succ depth ih =>
    cases hn : t.get? id with
    | none => simp only [dumpLines, preorder, hn, List.map_nil]
    | some node =>
      have hbelow : ∀ c ∈ node.children,
          t.dumpLines depth (t.level id + 1) c = (t.preorder depth c).map t.lineOf := by
        intro c hc
        rw [← children_of_get? hn] at hc
        rw [← h.level_of_mem_children hc]
        exact ih c
      simp only [dumpLines, preorder, hn, List.map_cons, List.map_flatMap]
      rw [lineOf_of_get? hn, List.flatMap_congr hbelow]

/-- The listing of the file has the lines of its descendants. -/
theorem dump_eq_join : t.dump = String.join ((t.descendants root).map t.lineOf) := by
  rw [dump, ← h.level_root, h.dumpLines_eq_map_preorder, descendants]

end Linked

/-! ## 3. Listings with a stack -/

/-- A listing under way: the text so far, and a stack of the nodes to come with their levels, the
top last. -/
structure Listing where
  text : String
  stack : List (NodeId × Nat)

namespace Listing

/-- A turn of a listing: the top of the stack goes and gets its line, and its children come on the
stack one level further down, the last one first.  A place without a node just goes. -/
def turn? (t : Tree) (l : Listing) : Option Listing :=
  l.stack.getLast?.map fun (id, level) =>
    match t.get? id with
    | none => { l with stack := l.stack.dropLast }
    | some node =>
      { text := l.text ++ dumpLine level node
        stack := l.stack.dropLast ++ node.children.reverse.map (·, level + 1) }

/-- One turn leads from a listing to the next. -/
def Turn (t : Tree) (l l' : Listing) : Prop := l.turn? t = some l'

end Listing

/-- The listing that goes with a walk: the lines of what is listed, and the stack with the levels
that its nodes have in the tree. -/
def Walk.listing (t : Tree) (w : Walk) : Listing where
  text := String.join (w.listed.map t.lineOf)
  stack := w.stack.map fun id => (id, t.level id)

/-- **Turn by turn, a listing is a walk**: neither has a turn without the other. -/
theorem Walk.turn?_listing (h : t.Linked) (w : Walk) :
    (w.listing t).turn? t = (w.turn? t).map (listing t) := by
  obtain ⟨listed, stack⟩ := w
  rcases List.eq_nil_or_concat' stack with rfl | ⟨stack, id, rfl⟩
  · rfl
  · cases hn : t.get? id with
    | none => simp [listing, Listing.turn?, turn?, hn]
    | some node =>
      -- counted on the way down, a child has the level that it has counted on the way up
      have hlevel : ∀ c ∈ node.children, t.level id + 1 = t.level c := by
        intro c hc
        rw [← children_of_get? hn] at hc
        exact (h.level_of_mem_children hc).symm
      simpa [listing, Listing.turn?, turn?, hn, lineOf_of_get? hn] using hlevel

theorem Walk.Turn.listing (h : t.Linked) {w w' : Walk} (hw : Walk.Turn t w w') :
    Listing.Turn t (w.listing t) (w'.listing t) := by
  rw [Listing.Turn, Walk.turn?_listing h, show w.turn? t = some w' from hw, Option.map_some]

/-- **A listing ends, and has then written the lines of the descendants.** -/
theorem Linked.listing_ends (h : t.Linked) {id : NodeId} (hid : id < t.size) :
    Relation.ReflTransGen (Listing.Turn t) ⟨"", [(id, t.level id)]⟩
      ⟨String.join ((t.descendants id).map t.lineOf), []⟩ := by
  have hwalk := h.walk_ends [] (List.forall_mem_singleton.mpr hid)
  have hlisting : Relation.ReflTransGen (Listing.Turn t) (Walk.listing t ⟨[], [id]⟩)
      (Walk.listing t ⟨[] ++ Walk.owed t [id], []⟩) :=
    hwalk.lift (Walk.listing t) fun _ _ => Walk.Turn.listing h
  simpa [Walk.listing, Walk.owed] using hlisting

/-! ## 4. Trees built step by step -/

/-- **The listing of every tree that steps have built follows the ways through it.**  Made with a
stack of nodes and levels it ends, and its text has one line for each descendant of the file, in
document order.  All of these are nodes of the tree, and the line of a node has two spaces for each
of its ancestors, the label and the detail of its kind, and in brackets the line on which it
starts. -/
theorem dump_eq_lines_of_descendants {t : Tree} (ht : t.Built) :
    Relation.ReflTransGen (Listing.Turn t) ⟨"", [(root, 0)]⟩ ⟨t.dump, []⟩ ∧
    t.dump = String.join ((t.descendants root).map t.lineOf) ∧
    ∀ id ∈ t.descendants root, ∃ kind, t.kind? id = some kind ∧
      t.lineOf id = String.join ((t.view.ancestors id).map fun _ => "  ") ++ kind.label
        ++ kind.detail ++ " [" ++ toString (t.span id).startLine ++ "]\n" := by
  have h := ht.linked
  have hends := h.listing_ends (show root < t.size from h.size_pos)
  rw [h.level_root, ← h.dump_eq_join] at hends
  refine ⟨hends, h.dump_eq_join, fun id hid => ?_⟩
  obtain ⟨node, hn⟩ := get?_eq_some_iff_lt.mpr (h.lt_size_of_mem_descendants root h.size_pos hid)
  exact ⟨node.kind, kind?_of_get? hn, lineOf_of_kind? (kind?_of_get? hn)⟩

namespace Example

/-- A tree whose last node stands third in document order, and starts on line 7. -/
def lateAnnotation : Tree :=
  outOfOrder.afterAll [.setSpan 4 { startLine := 7, stopLine := 7 }]

theorem built_lateAnnotation : lateAnnotation.Built := built_outOfOrder.afterAll (by decide)

/-- Its listing. -/
def lateAnnotationText : String :=
  "file [0]\n  function f [0]\n    annotation @Ignore [7]\n  call [0]\n    name_reference g [0]\n"

end Example

/-- The annotation at place 4 has the third line, two levels below the file. -/
theorem dump_lateAnnotation : Example.lateAnnotation.Built ∧
    Relation.ReflTransGen (Listing.Turn Example.lateAnnotation) ⟨"", [(root, 0)]⟩
      ⟨Example.lateAnnotationText, []⟩ ∧
    Example.lateAnnotationText =
      String.join ([0, 1, 4, 2, 3].map Example.lateAnnotation.lineOf) ∧
    ∃ kind, Example.lateAnnotation.kind? 4 = some kind ∧
      Example.lateAnnotation.lineOf 4 = String.join ([1, 0].map fun _ => "  ") ++ kind.label
        ++ kind.detail ++ " [" ++ toString 7 ++ "]\n" := by
  have hdump : Example.lateAnnotation.dump = Example.lateAnnotationText := by decide
  have hlist : Example.lateAnnotation.descendants root = [0, 1, 4, 2, 3] := by decide
  have hup : Example.lateAnnotation.view.ancestors 4 = [1, 0] := by decide
  have hstart : (Example.lateAnnotation.span 4).startLine = 7 := by decide
  obtain ⟨hends, htext, hlines⟩ := dump_eq_lines_of_descendants Example.built_lateAnnotation
  rw [hdump] at hends htext
  rw [hlist] at htext hlines
  obtain ⟨kind, hk, hline⟩ := hlines 4 (by decide)
  rw [hup, hstart] at hline
  exact ⟨Example.built_lateAnnotation, hends, htext, kind, hk, hline⟩

end SpecOutline.Tree
