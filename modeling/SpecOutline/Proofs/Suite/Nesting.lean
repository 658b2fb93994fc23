/-
# Paths follow the nesting of the blocks

The way up from a block begins with the block and goes on as the way up from the call around
it.  If that call is a block too, its path is therefore the path of the inner block without the
innermost segment (`pathOf_outer`): the climb needs one level less, meets no call that the
inner climb did not pass, and ends at the same class.  If no call is around the block, its path
has a single segment before the class (`pathOf_outermost`).
-/
import SpecOutline.Library.Framework
import SpecOutline.Proofs.Suite.WayUp
import SpecOutline.Proofs.Symbol.Supertypes
import SpecOutline.Proofs.Tree.Sequences

namespace SpecOutline.Suite

variable {v : View} {r : Resolver} {call outer : NodeId} {p : Path}

/-! ## 1. One level further out -/

/-- The segments of a way of two or more calls are that of the first and those of the rest. -/
theorem blocks_of_outerCall? (hv : v.Grounded) (ho : outerCall? v call = some outer)
    (hm : (wayUp v call).map (segment? v r) = p.blocks.map some) :
    ∃ segment blocks, p.blocks = segment :: blocks ∧
      (wayUp v outer).map (segment? v r) = blocks.map some := by
  rw [wayUp_of_outerCall? hv ho, List.map_cons] at hm
  cases hb : p.blocks with
  | nil => rw [hb] at hm; simp at hm
  | cons segment blocks =>
    rw [hb, List.map_cons, List.cons.injEq] at hm
    exact ⟨segment, blocks, rfl, hm.2⟩

/-- **The path of the block around a block is the path of the block without its first
segment.** -/
theorem pathOf_outer (hv : v.Grounded) (hp : pathOf v r call = .ok p)
    (ho : outerCall? v call = some outer) (hb : isBlock v r outer = true) :
    ∃ q, pathOf v r outer = .ok q ∧ p.parent? = some q := by
  obtain ⟨-, hsound, hlen, spec, hspec, hname, hm⟩ := (pathOf_eq_ok_iff hv).mp hp
  obtain ⟨segment, blocks, hblocks, hm'⟩ := blocks_of_outerCall? hv ho hm
  rw [wayUp_of_outerCall? hv ho] at hsound hlen
  refine ⟨⟨blocks, p.spec⟩, (pathOf_eq_ok_iff hv).mpr ⟨hb, ?_, ?_, spec, ?_, hname, hm'⟩, ?_⟩
  · exact fun d hd => hsound d (List.mem_cons_of_mem _ hd)
  · rw [List.length_cons] at hlen
    omega
  · rw [← owner?_of_outerCall? hv ho]
    exact hspec
  · rw [Path.parent?, hblocks]

/-- **A block with no call around it stands directly below its class.** -/
theorem pathOf_outermost (hv : v.Grounded) (hp : pathOf v r call = .ok p)
    (ho : outerCall? v call = none) :
    ∃ spec, owner? v r call = some spec ∧
      p.parent? = some (Path.ofSpec spec.qualifiedName) := by
  obtain ⟨-, -, -, spec, hspec, hname, hm⟩ := (pathOf_eq_ok_iff hv).mp hp
  rw [wayUp_of_outerCall?_none ho, List.map_singleton] at hm
  refine ⟨spec, hspec, ?_⟩
  cases hb : p.blocks with
  | nil => rw [hb] at hm; simp at hm
  | cons segment blocks =>
    rw [hb, List.map_cons, List.cons.injEq] at hm
    obtain rfl : blocks = [] := by simpa using hm.2.symm
    rw [Path.parent?, hb, hname]
    rfl

/-! ## 2. Trees built step by step -/

/-- **Paths agree along the nesting**, in every tree that steps have built and for every
library: the path of a block in the trailing lambda of a block is one segment longer than that
of the outer block, and any other path of a block is one segment longer than its class. -/
theorem parent?_pathOf {t : Tree} (ht : t.Built) (library : Library) {call lambda : NodeId}
    {p : Path} (hp : pathOf t.view (Index.build t library).resolver call = .ok p)
    (hl : enclosingLambda? t.view call = some lambda) :
    (∀ outer, trailingOwner? t.view lambda = some outer →
      isBlock t.view (Index.build t library).resolver outer = true →
      ∃ q, pathOf t.view (Index.build t library).resolver outer = .ok q ∧
        p.parent? = some q) ∧
    (trailingOwner? t.view lambda = none →
      ∃ spec, owner? t.view (Index.build t library).resolver call = some spec ∧
        p.parent? = some (Path.ofSpec spec.qualifiedName)) := by
  have hv : t.view.Grounded := ht.linked.grounded
  have ho : outerCall? t.view call = trailingOwner? t.view lambda := by
    rw [outerCall?, hl, Option.bind_some]
  refine ⟨fun outer hout hb => ?_, fun hnone => ?_⟩
  · exact pathOf_outer hv hp (ho.trans hout) hb
  · exact pathOf_outermost hv hp (ho.trans hnone)

namespace Example

/-- Makes a spec class at place 3, whose body is at place 9, and takes more steps. -/
def specSteps (steps : List Tree.Step) : List Tree.Step :=
  [.addImport { path := "org.jetbrains.spek.api.Spek" },
    .addImport { path := "org.jetbrains.spek.api.dsl", star := true },
    .addSpecClass { name := "FooSpec", supertypes := ["Spek"] }] ++ steps

/-- The file that such steps make. -/
def specTree (steps : List Tree.Step) : Tree :=
  (Tree.inPackage (some "com.example")).afterAll (specSteps steps)

theorem built_specTree {steps : List Tree.Step}
    (h : (Tree.inPackage (some "com.example")).OwnsAll (specSteps steps)) :
    (specTree steps).Built := (Tree.Built.inPackage _).afterAll h

/-- A function that opens groups, and one that opens pending groups. -/
def groupFunctions : List String := ["describe", "xdescribe"]

/-- The file of a class with a test, at place 18, in the body of a call at place 10. -/
def testIn (function : String) : Tree :=
  specTree [.addBlockCall 9 function "a", .addBlockCall 17 "it" "b"]

theorem built_testIn : ∀ function ∈ groupFunctions, (testIn function).Built := by
  have howns : ∀ f ∈ groupFunctions, (Tree.inPackage (some "com.example")).OwnsAll
      (specSteps [.addBlockCall 9 f "a", .addBlockCall 17 "it" "b"]) := by decide +kernel
  exact fun function hfunction => built_specTree (howns function hfunction)

/-- The path of the test. -/
def testPath (function : String) : Path :=
  ⟨[⟨.test, "it b"⟩, ⟨.group, blockLabel function "a"⟩], "com.example.FooSpec"⟩

/-- The test has its path in a group, and in a pending group too: the index of the file and the
framework finds its class and both functions. -/
theorem pathOf_testIn : ∀ function ∈ groupFunctions,
    pathOf (testIn function).view (Index.build (testIn function) .framework).resolver 18 =
      .ok (testPath function) := by
  intro function hfunction
  have hfile : ∀ f ∈ groupFunctions,
      (testIn f).view.enclosingClass? 18 = some 3 ∧
      knowsFooSpec (Index.build (testIn f) .framework) = true ∧
      isBlock (testIn f).view (Index.build (testIn f) .framework).resolver 18 = true ∧
      (∀ c ∈ wayUp (testIn f).view 18,
        fault? (testIn f).view (Index.build (testIn f) .framework).resolver c = none) ∧
      (wayUp (testIn f).view 18).length ≤ 256 ∧
      (wayUp (testIn f).view 18).map
          (segment? (testIn f).view (Index.build (testIn f) .framework).resolver) =
        (testPath f).blocks.map some := by decide +kernel
  obtain ⟨hclass, hknows, hblock, hsound, hlen, hsegments⟩ := hfile function hfunction
  exact (pathOf_eq_ok_iff (built_testIn function hfunction).linked.grounded).mpr
    ⟨hblock, hsound, hlen, fooSpec, owner?_fooSpec hclass hknows, rfl, hsegments⟩

/-- The file of a class with a test in a group. -/
def testInGroup : Tree := testIn "describe"

theorem built_testInGroup : testInGroup.Built := built_testIn "describe" (by decide)

theorem pathOf_testInGroup :
    pathOf testInGroup.view (Index.build testInGroup .framework).resolver 18 =
      .ok ⟨[⟨.test, "it b"⟩, ⟨.group, "describe a"⟩], "com.example.FooSpec"⟩ :=
  pathOf_testIn "describe" (by decide)

end Example

/-- The test at place 18 stands in the trailing lambda 15 of the group at place 10. -/
theorem parent?_pathOf_testInGroup :
    Example.testInGroup.Built ∧
    enclosingLambda? Example.testInGroup.view 18 = some 15 ∧
    ∃ q, pathOf Example.testInGroup.view (Index.build Example.testInGroup .framework).resolver 10
        = .ok q ∧
      Path.parent? ⟨[⟨.test, "it b"⟩, ⟨.group, "describe a"⟩], "com.example.FooSpec"⟩ = some q := by
  have hl : enclosingLambda? Example.testInGroup.view 18 = some 15 := by decide +kernel
  exact ⟨Example.built_testInGroup, hl,
    (parent?_pathOf Example.built_testInGroup .framework Example.pathOf_testInGroup hl).1 10
      (by decide +kernel) (by decide +kernel)⟩

end SpecOutline.Suite
