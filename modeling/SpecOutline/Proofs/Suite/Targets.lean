/-
# Targets and the paths they name

A target is the labels of a path, class first, with slashes between them.  Labels are free texts
and may hold slashes themselves, and nothing marks those: a target tells apart exactly what is
left of a path when its labels are cut at their slashes (`Path.target_eq_iff`).  Two paths of one
file can therefore share a target.  They cannot where no label holds a slash
(`Path.labels_eq_of_target_eq`), and no label of a scan does if none of the texts that labels are
made of does (`labelIn_of_mem_scanTree`, `slash_notMem_of_mem_scanTree`).
-/
import Mathlib.Tactic.MkIffOfInductiveProp
import SpecOutline.Proofs.Suite.Owners
import SpecOutline.Proofs.Suite.PathShape
import SpecOutline.Proofs.Text.Joined

namespace SpecOutline.Suite

/-! ## 1. Labels and their pieces -/

namespace Path

/-- The labels of a path, class first. -/
def labels (p : Path) : List String := p.outermostFirst.map (·.label)

/-- What is left of the labels when they are cut at their slashes. -/
def pieces (p : Path) : List (List Char) := p.labels.flatMap fun label => label.toList.splitOn '/'

theorem labels_eq (p : Path) : p.labels = p.spec :: (p.blocks.map (·.label)).reverse := by
  simp [labels, outermostFirst, segments, root, BlockSegment.segment, Function.comp_def]

theorem splitOn_target (p : Path) : p.target.toList.splitOn '/' = p.pieces := by
  have hne : p.labels.map String.toList ≠ [] := by simp [labels_eq]
  rw [target, String.toList_intercalate, ← labels, pieces]
  exact (Text.splitOn_intercalate_eq_flatMap hne).trans (List.flatMap_map ..)

/-- **A target names what is left of the labels when they are cut at their slashes.** -/
theorem target_eq_iff {p q : Path} : p.target = q.target ↔ p.pieces = q.pieces := by
  constructor
  · intro h
    rw [← splitOn_target, h, splitOn_target]
  · intro h
    rw [← splitOn_target, ← splitOn_target] at h
    have hlist := congrArg ['/'].intercalate h
    rw [List.intercalate_splitOn, List.intercalate_splitOn] at hlist
    exact String.toList_inj.mp hlist

/-- Labels without slashes are their own pieces. -/
theorem pieces_of_slash_notMem {p : Path} (h : ∀ label ∈ p.labels, '/' ∉ label.toList) :
    p.pieces = p.labels.map String.toList := by
  rw [pieces, List.map_eq_flatMap]
  refine List.flatMap_congr fun label hlabel => ?_
  exact List.splitOn_eq_singleton (h label hlabel)

/-- **Where no label holds a slash, the target tells paths with different labels apart.** -/
theorem labels_eq_of_target_eq {p q : Path} (hp : ∀ label ∈ p.labels, '/' ∉ label.toList)
    (hq : ∀ label ∈ q.labels, '/' ∉ label.toList) (h : p.target = q.target) :
    p.labels = q.labels := by
  rw [target_eq_iff, pieces_of_slash_notMem hp, pieces_of_slash_notMem hq] at h
  exact List.map_injective_iff.mpr (fun _ _ => String.toList_inj.mp) h

end Path

/-! ## 2. Where labels come from -/

variable {t : Tree} {r : Resolver}

/-- A label and what it is made of: the qualified name of a class, or the name of the function that
a call calls, a blank and the description of the call. -/
inductive LabelIn (t : Tree) (r : Resolver) : String → Prop
  | className {id : NodeId} {c : ClassSymbol} (hid : id < t.size) (hc : r.classOf? id = some c) :
    LabelIn t r c.qualifiedName
  | call {id : NodeId} {f : FunctionSymbol} {d : String} (hid : id < t.size)
    (hf : calledFunction? t.view r id = some f) (hd : description? t.view id = some d) :
    LabelIn t r (blockLabel f.name d)

/-- Only a node of the tree has children, so only such a node calls or describes. -/
theorem lt_size_of_segment? {call : NodeId} {b : BlockSegment}
    (hb : segment? t.view r call = some b) : call < t.size := by
  by_contra hlt
  have hget : t.get? call = none := by
    rw [Tree.get?, Array.getElem?_eq_none_iff]
    exact Nat.le_of_not_lt hlt
  have hchildren : t.view.children call = [] := Tree.children_of_get?_none hget
  simp [segment?, calledFunction?, namedCallee?, View.firstChild?, hchildren] at hb

theorem labelIn_of_segment? {call : NodeId} {b : BlockSegment}
    (hb : segment? t.view r call = some b) : LabelIn t r b.label := by
  have hlt := lt_size_of_segment? hb
  obtain ⟨f, hf, hb⟩ := Option.bind_eq_some_iff.mp hb
  obtain ⟨d, hd, hb⟩ := Option.bind_eq_some_iff.mp hb
  cases hb
  exact .call hlt hf hd

theorem labelIn_of_specName? (ht : t.Linked) {id : NodeId} {name : String}
    (hid : id ∈ t.classes) (hname : specName? r id = some name) : LabelIn t r name := by
  obtain ⟨kind, hk, -⟩ := ht.mem_findAll.mp hid
  obtain ⟨node, hnode, -⟩ := Option.map_eq_some_iff.mp hk
  obtain ⟨c, hc, rfl⟩ := Option.map_eq_some_iff.mp hname
  exact .className (Tree.lt_size_of_get? hnode) (Option.filter_eq_some_iff.mp hc).1

theorem labelIn_of_pathOf (ht : t.Linked) {call : NodeId} {p : Path}
    (hp : pathOf t.view r call = .ok p) : ∀ label ∈ p.labels, LabelIn t r label := by
  obtain ⟨d, hd, hspec⟩ := specName?_of_pathOf ht.grounded hp
  obtain ⟨hblocks, -⟩ := blocks_of_pathOf ht.grounded hp
  intro label hlabel
  rw [Path.labels_eq, List.mem_cons, List.mem_reverse, List.mem_map] at hlabel
  rcases hlabel with rfl | ⟨b, hb, rfl⟩
  · exact labelIn_of_specName? ht (ht.mem_classes_of_enclosingClass? hd) hspec
  · rw [← hblocks] at hb
    obtain ⟨c, -, hc⟩ := List.mem_filterMap.mp hb
    exact labelIn_of_segment? hc

/-- **The labels of a scan are made of texts of the tree**, classes and calls alike. -/
theorem labelIn_of_mem_scanTree (ht : t.Linked) {library : Library} {options : Options}
    {f : Finding} (hf : f ∈ scanTree t library options) :
    ∀ label ∈ f.path.labels, LabelIn t (Index.build t library).resolver label := by
  rcases List.mem_append.mp hf with hf | hf
  · split at hf
    · obtain ⟨id, hid, hf⟩ := List.mem_filterMap.mp hf
      rw [specFinding?_eq] at hf
      split at hf
      · cases hf
      · obtain ⟨name, hname, rfl⟩ := Option.map_eq_some_iff.mp hf
        simpa [Path.labels_eq, Path.ofSpec] using labelIn_of_specName? ht hid hname
    · cases hf
  · obtain ⟨call, -, hf⟩ := List.mem_filterMap.mp hf
    exact labelIn_of_pathOf ht ((findingOf?_eq_some_iff ht).mp hf).2.1

/-- No text that labels are made of holds a slash: the names of called functions, the descriptions
of calls, the qualified names of classes. -/
@[mk_iff] structure SlashFree (t : Tree) (r : Resolver) : Prop where
  functionName : ∀ id < t.size, ∀ f ∈ calledFunction? t.view r id, '/' ∉ f.name.toList
  description : ∀ id < t.size, ∀ d ∈ description? t.view id, '/' ∉ d.toList
  className : ∀ id < t.size, ∀ c ∈ r.classOf? id, '/' ∉ c.qualifiedName.toList

instance (t : Tree) (r : Resolver) : Decidable (SlashFree t r) :=
  decidable_of_iff' _ (slashFree_iff t r)

/-- **The labels of a scan hold no slash if none of the texts that they are made of does.** -/
theorem slash_notMem_of_mem_scanTree (ht : t.Linked) {library : Library} {options : Options}
    (h : SlashFree t (Index.build t library).resolver) {f : Finding}
    (hf : f ∈ scanTree t library options) : ∀ label ∈ f.path.labels, '/' ∉ label.toList := by
  intro label hlabel
  cases labelIn_of_mem_scanTree ht hf label hlabel with
  | className hid hc => exact h.className _ hid _ hc
  | call hid hf hd =>
    simp [blockLabel, h.functionName _ hid _ hf, h.description _ hid _ hd]

/-! ## 3. Targets of a scan -/

/-- A call with a path is listed. -/
theorem mem_scanTree_of_pathOf (ht : t.Linked) {library : Library} {call : NodeId} {p : Path}
    (hcall : t.kind? call = some .call)
    (hp : pathOf t.view (Index.build t library).resolver call = .ok p) :
    { path := p, span := t.span call } ∈ scanTree t library {} :=
  reported_of_pathOf ht hcall hp

/-- **What the targets of a scan tell apart**, in every tree that steps have built, for every
library and options: two findings have the same target exactly if their labels, cut at their
slashes, leave the same pieces.  So findings with different labels have different targets where
no label of theirs holds a slash, which is so in every file none of whose descriptions, called
functions and classes has a slash in it. -/
theorem target_eq_iff_of_mem_scanTree {t : Tree} (ht : t.Built) (library : Library)
    (options : Options) {f g : Finding} (hf : f ∈ scanTree t library options)
    (hg : g ∈ scanTree t library options) :
    (f.path.target = g.path.target ↔ f.path.pieces = g.path.pieces) ∧
    ((∀ label ∈ f.path.labels ++ g.path.labels, '/' ∉ label.toList) →
      f.path.labels ≠ g.path.labels → f.path.target ≠ g.path.target) ∧
    (SlashFree t (Index.build t library).resolver →
      ∀ label ∈ f.path.labels ++ g.path.labels, '/' ∉ label.toList) := by
  refine ⟨Path.target_eq_iff, ?_, ?_⟩
  · intro hlabels hne heq
    obtain ⟨hfl, hgl⟩ := List.forall_mem_append.mp hlabels
    exact hne (Path.labels_eq_of_target_eq hfl hgl heq)
  · intro h
    exact List.forall_mem_append.mpr ⟨slash_notMem_of_mem_scanTree ht.linked h hf,
      slash_notMem_of_mem_scanTree ht.linked h hg⟩

namespace Example

/-- The file of a class with the test `it("b")` in the group `describe("a")`, and a group
`describe("a/it b")` beside that group. -/
def slashInLabel : Tree := testInGroup.afterAll [.addBlockCall 9 "describe" "a/it b"]

theorem built_slashInLabel : slashInLabel.Built := built_testInGroup.afterAll (by decide)

/-- The test in the group. -/
def innerTest : Finding where
  path := ⟨[⟨.test, "it b"⟩, ⟨.group, "describe a"⟩], "com.example.FooSpec"⟩
  span := slashInLabel.span 18

/-- The group with a slash in its description. -/
def slashedGroup : Finding where
  path := ⟨[⟨.group, "describe a/it b"⟩], "com.example.FooSpec"⟩
  span := slashInLabel.span 26

theorem knowsFooSpec_slashInLabel : knowsFooSpec (Index.build slashInLabel .framework) = true := by
  decide +kernel

theorem mem_scanTree_innerTest : innerTest ∈ scanTree slashInLabel .framework {} := by
  have hway : (wayUp slashInLabel.view 18).map
      (block? slashInLabel.view (Index.build slashInLabel .framework).resolver) =
        [⟨.test, "it", "b"⟩, ⟨.group, "describe", "a"⟩].map some := by decide +kernel
  exact mem_scanTree_of_pathOf built_slashInLabel.linked (by decide +kernel)
    (pathOf_of_blocks built_slashInLabel.linked.grounded hway (by decide)
      (owner?_fooSpec (by decide +kernel) knowsFooSpec_slashInLabel))

theorem mem_scanTree_slashedGroup : slashedGroup ∈ scanTree slashInLabel .framework {} := by
  have hway : (wayUp slashInLabel.view 26).map
      (block? slashInLabel.view (Index.build slashInLabel .framework).resolver) =
        [⟨.group, "describe", "a/it b"⟩].map some := by decide +kernel
  exact mem_scanTree_of_pathOf built_slashInLabel.linked (by decide +kernel)
    (pathOf_of_blocks built_slashInLabel.linked.grounded hway (by decide)
      (owner?_fooSpec (by decide +kernel) knowsFooSpec_slashInLabel))

end Example

/-- A group whose description imitates the target of a test is listed under the target of that
test, although their labels differ. -/
theorem targets_coincide :
    Example.slashInLabel.Built ∧
    Example.innerTest ∈ scanTree Example.slashInLabel .framework {} ∧
    Example.slashedGroup ∈ scanTree Example.slashInLabel .framework {} ∧
    Example.innerTest.path.labels ≠ Example.slashedGroup.path.labels ∧
    Example.innerTest.path.target = Example.slashedGroup.path.target :=
  ⟨Example.built_slashInLabel, Example.mem_scanTree_innerTest,
    Example.mem_scanTree_slashedGroup, by decide +kernel, by decide +kernel⟩

/-- Without the group that imitates it, the test has a target of its own: nothing in the file has
a slash. -/
theorem target_ne_testInGroup :
    Example.testInGroup.Built ∧
    SlashFree Example.testInGroup (Index.build Example.testInGroup .framework).resolver ∧
    ∃ f ∈ scanTree Example.testInGroup .framework {},
      ∃ g ∈ scanTree Example.testInGroup .framework {},
        f.path.kind = .test ∧ g.path.kind = .group ∧ f.path.target ≠ g.path.target := by
  have ht := Example.built_testInGroup
  have hfree : SlashFree Example.testInGroup
      (Index.build Example.testInGroup .framework).resolver := by decide +kernel
  have htest := mem_scanTree_of_pathOf ht.linked (by decide +kernel) Example.pathOf_testInGroup
  obtain ⟨q, hq, hparent⟩ := pathOf_outer ht.linked.grounded Example.pathOf_testInGroup
    (by decide +kernel : _ = some 10) (by decide +kernel)
  cases hparent
  have hgroup := mem_scanTree_of_pathOf ht.linked (by decide +kernel) hq
  obtain ⟨-, hdiffer, hslash⟩ := target_eq_iff_of_mem_scanTree ht .framework {} htest hgroup
  exact ⟨ht, hfree, _, htest, _, hgroup, rfl, rfl, hdiffer (hslash hfree) (by decide +kernel)⟩

end SpecOutline.Suite
