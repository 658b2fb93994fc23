/-
# What the segments of a reported path stand for

A scan reports paths of blocks.  The calls around a block are in its path whether they are blocks
or not: the climb asks of them only that they stand in a lambda, call a known function by a bare
name and describe themselves by a literal (`Passed`).  So the reported paths need not make up a
tree.

* Along the way up from a call, each call has the rest of the way, and the same owner
  (`wayUp_of_getElem?`, `owner?_of_mem_wayUp`).  Hence every call of the way that is a block has
  the rest of the path as its path (`pathOf_of_getElem?`), and a scan reports it.
* The calls of the way that are not blocks fail one of the three conditions that the climb does
  not ask for (`Passed`).  A test in a pending group is reported, and the group is not.
-/
import SpecOutline.Proofs.Suite.Nesting

namespace SpecOutline.Suite

variable {v : View} {r : Resolver} {call c outer : NodeId} {p : Path} {b : BlockSegment}

/-! ## 1. Along the way up -/

/-- What passes from a call to the call around it holds all the way up. -/
theorem wayUp_induction (hv : v.Grounded) {P : NodeId → Prop} (start : P call)
    (step : ∀ c outer, P c → outerCall? v c = some outer → P outer) :
    ∀ c ∈ wayUp v call, P c := by
  intro c hc
  obtain ⟨i, hi⟩ := List.mem_iff_getElem?.mp hc
  induction i generalizing c with
  | zero =>
    obtain rfl : call = c := by simpa [wayUp] using hi
    exact start
  | succ i ih =>
    rw [getElem?_wayUp_succ hv] at hi
    obtain ⟨d, hd, ho⟩ := Option.bind_eq_some_iff.mp hi
    exact step d c (ih d (List.mem_iff_getElem?.mpr ⟨i, hd⟩) hd) ho

/-- **The way up from a call of a way is the rest of that way.** -/
theorem wayUp_of_getElem? (hv : v.Grounded) {i : Nat} (hc : (wayUp v call)[i]? = some c) :
    wayUp v c = (wayUp v call).drop i := by
  induction i generalizing call with
  | zero =>
    obtain rfl : call = c := by simpa [wayUp] using hc
    rfl
  | succ i ih =>
    cases ho : outerCall? v call with
    | none => simp [wayUp_of_outerCall?_none ho] at hc
    | some outer =>
      rw [wayUp_of_outerCall? hv ho] at hc ⊢
      rw [List.getElem?_cons_succ] at hc
      rw [List.drop_succ_cons]
      exact ih hc

/-- All calls of a way have the same owner. -/
theorem owner?_of_mem_wayUp (hv : v.Grounded) (hc : c ∈ wayUp v call) :
    owner? v r c = owner? v r call := by
  refine wayUp_induction hv (P := fun c => owner? v r c = owner? v r call) rfl ?_ c hc
  intro d outer hd ho
  rw [← owner?_of_outerCall? hv ho]
  exact hd

/-- The call around a call is a call. -/
theorem isCall_of_outerCall? (h : outerCall? v call = some outer) :
    v.kindIs Kind.isCall outer = true := by
  obtain ⟨lambda, -, ho⟩ := Option.bind_eq_some_iff.mp h
  obtain ⟨argument, -, -, hk⟩ := trailingOwner?_eq_some_iff.mp ho
  exact hk

/-- The way up from a call of a tree consists of calls. -/
theorem kind?_of_mem_wayUp {t : Tree} (hv : t.view.Grounded) (hcall : t.kind? call = some .call)
    (hc : c ∈ wayUp t.view call) : t.kind? c = some .call := by
  refine wayUp_induction hv (P := fun c => t.kind? c = some .call) hcall ?_ c hc
  intro d outer _ ho
  obtain ⟨kind, hk, hcall⟩ := (Option.any_eq_true _ _).mp (isCall_of_outerCall? ho)
  cases kind with
  | call => exact hk
  | _ => cases hcall

/-- A call is not around itself. -/
theorem ne_of_outerCall? (hv : v.Grounded) (h : outerCall? v call = some outer) :
    outer ≠ call := by
  rintro rfl
  exact Nat.lt_irrefl _ (length_ancestors_lt hv h)

/-- **A block on the way up has the rest of the path as its path.** -/
theorem pathOf_of_getElem? (hv : v.Grounded) (hp : pathOf v r call = .ok p) {i : Nat}
    (hc : (wayUp v call)[i]? = some c) (hb : isBlock v r c = true) :
    pathOf v r c = .ok ⟨p.blocks.drop i, p.spec⟩ := by
  obtain ⟨-, hsound, hlen, spec, hspec, hname, hm⟩ := (pathOf_eq_ok_iff hv).mp hp
  have hmem : c ∈ wayUp v call := List.mem_iff_getElem?.mpr ⟨i, hc⟩
  have hway := wayUp_of_getElem? hv hc
  refine (pathOf_eq_ok_iff hv).mpr ⟨hb, ?_, ?_, spec, ?_, hname, ?_⟩
  · intro d hd
    exact hsound d (List.mem_of_mem_drop (hway ▸ hd))
  · rw [hway, List.length_drop]
    omega
  · rw [owner?_of_mem_wayUp hv hmem]
    exact hspec
  · rw [hway, List.map_drop, hm, List.map_drop]

/-! ## 2. Segments -/

/-- A climb has passed a call and made a segment of it: the call stands in a lambda, calls a
function by a bare name and describes itself by a literal.  It is a block only if, besides, it
has two arguments, the function extends a type that block functions extend, and it has the name
of a block function. -/
structure Passed (v : View) (r : Resolver) (c : NodeId) (b : BlockSegment) : Prop where
  in_lambda : (enclosingLambda? v c).isSome = true
  segment : ∃ function description, calledFunction? v r c = some function ∧
    description? v c = some description ∧
    b = ⟨if isTestFunction function.name then .test else .group,
      blockLabel function.name description⟩ ∧
    (isBlock v r c = true ↔ hasBlockArguments v c = true ∧
      extendsBlockReceiver function = true ∧
      (BlockKind.ofFunction? function.name).isSome = true)

/-- What more a call without a fault needs to be a block. -/
theorem isBlock_iff_of_fault?_none {function : FunctionSymbol} (hf : fault? v r c = none)
    (hfunction : calledFunction? v r c = some function) :
    isBlock v r c = true ↔ hasBlockArguments v c = true ∧
      extendsBlockReceiver function = true ∧
      (BlockKind.ofFunction? function.name).isSome = true := by
  obtain ⟨hl, -, hd⟩ := fault?_eq_none_iff.mp hf
  rw [isBlock, Option.isSome_iff_exists]
  constructor
  · rintro ⟨block, hb⟩
    obtain ⟨-, f, hcalled, ha, he, -, hk, -⟩ := block?_eq_some_iff.mp hb
    obtain rfl : function = f := Option.some.inj (hfunction.symm.trans hcalled)
    exact ⟨ha, he, Option.isSome_iff_exists.mpr ⟨_, hk⟩⟩
  · rintro ⟨ha, he, hk⟩
    obtain ⟨description, hd⟩ := Option.isSome_iff_exists.mp hd
    obtain ⟨kind, hk⟩ := Option.isSome_iff_exists.mp hk
    exact ⟨⟨kind, function.name, description⟩,
      block?_eq_some_iff.mpr ⟨hl, function, hfunction, ha, he, hd, hk, rfl⟩⟩

/-- A call without a fault is passed with its segment. -/
theorem passed_of_fault?_none (hf : fault? v r c = none) (hs : segment? v r c = some b) :
    Passed v r c b := by
  obtain ⟨function, hfunction, hs⟩ := Option.bind_eq_some_iff.mp hs
  obtain ⟨description, hd, hs⟩ := Option.bind_eq_some_iff.mp hs
  exact ⟨(fault?_eq_none_iff.mp hf).1, function, description, hfunction, hd,
    (Option.some.inj hs).symm, isBlock_iff_of_fault?_none hf hfunction⟩

/-- **Every segment of a path is that of a call on the way up.** -/
theorem exists_passed (hv : v.Grounded) (hp : pathOf v r call = .ok p) {i : Nat}
    (hb : p.blocks[i]? = some b) : ∃ c, (wayUp v call)[i]? = some c ∧ Passed v r c b := by
  obtain ⟨-, hsound, -, -, -, -, hm⟩ := (pathOf_eq_ok_iff hv).mp hp
  have hi : ((wayUp v call).map (segment? v r))[i]? = some (some b) := by
    rw [hm, List.getElem?_map, hb]
    rfl
  rw [List.getElem?_map] at hi
  obtain ⟨c, hc, hs⟩ := Option.map_eq_some_iff.mp hi
  exact ⟨c, hc, passed_of_fault?_none (hsound c (List.mem_iff_getElem?.mpr ⟨i, hc⟩)) hs⟩

/-- The path around a path is the path without its first segment. -/
theorem parent?_eq_drop (hb : p.blocks ≠ []) :
    p.parent? = some ⟨p.blocks.drop 1, p.spec⟩ := by
  rw [Path.parent?]
  cases h : p.blocks with
  | nil => exact absurd h hb
  | cons segment blocks => rfl

/-- A path has as many blocks as the way up has calls. -/
theorem length_blocks (hv : v.Grounded) (hp : pathOf v r call = .ok p) :
    p.blocks.length = (wayUp v call).length := by
  obtain ⟨-, -, -, -, -, -, hm⟩ := (pathOf_eq_ok_iff hv).mp hp
  have := congrArg List.length hm
  simpa using this.symm

/-! ## 3. Reported paths -/

section Scan

variable {t : Tree} (ht : t.Linked)
include ht

/-- A block on the way up from a reported call is reported with the rest of the path. -/
theorem mem_scan_of_getElem? (hcall : t.kind? call = some .call)
    (hp : pathOf t.view r call = .ok p) {i : Nat} (hc : (wayUp t.view call)[i]? = some c)
    (hb : isBlock t.view r c = true) :
    { path := ⟨p.blocks.drop i, p.spec⟩, span := t.span c } ∈ scan t r {} := by
  have hmem : c ∈ wayUp t.view call := List.mem_iff_getElem?.mpr ⟨i, hc⟩
  exact reported_of_pathOf ht (kind?_of_mem_wayUp ht.grounded hcall hmem)
    (pathOf_of_getElem? ht.grounded hp hc hb)

/-- **What is around a reported path**: its class, another reported path, or a call that is no
block. -/
theorem parent?_of_reported (hcall : t.kind? call = some .call)
    (hp : pathOf t.view r call = .ok p) :
    p.parent? = some (Path.ofSpec p.spec) ∨
      ∃ outer, outerCall? t.view call = some outer ∧
        ((outer ≠ call ∧ ∃ g ∈ scan t r {}, pathOf t.view r outer = .ok g.path ∧
            p.parent? = some g.path) ∨
          isBlock t.view r outer = false) := by
  have hlen := length_blocks ht.grounded hp
  cases ho : outerCall? t.view call with
  | none =>
    rw [wayUp_of_outerCall?_none ho, List.length_singleton] at hlen
    obtain ⟨segment, hone⟩ := List.length_eq_one_iff.mp hlen
    refine Or.inl ?_
    rw [parent?_eq_drop (by rw [hone]; simp), hone]
    rfl
  | some outer =>
    refine Or.inr ⟨outer, rfl, ?_⟩
    cases hb : isBlock t.view r outer with
    | false => exact Or.inr rfl
    | true =>
      rw [wayUp_of_outerCall? ht.grounded ho, List.length_cons] at hlen
      have hne : p.blocks ≠ [] := by
        rintro hnil
        rw [hnil] at hlen
        cases hlen
      have hat : (wayUp t.view call)[1]? = some outer := by
        rw [wayUp_of_outerCall? ht.grounded ho]
        rfl
      exact Or.inl ⟨ne_of_outerCall? ht.grounded ho, _,
        mem_scan_of_getElem? ht hcall hp hat hb, pathOf_of_getElem? ht.grounded hp hat hb,
        parent?_eq_drop hne⟩

end Scan

/-- **How far the reported paths make up a tree**, in every tree that steps have built and for
every library.  What is around a reported path is its class, another reported path, or else the
call in whose trailing lambda the block stands is no block.  Every segment of a reported path is
that of a call on the way up, which stands in a lambda, calls a function by a bare name and
describes itself by a literal; and each of these calls that is a block is reported itself, with
the rest of the path. -/
theorem parent?_of_mem_scan {t : Tree} (ht : t.Built) (library : Library) {f : Finding}
    (hf : f ∈ scan t (Index.build t library).resolver {}) :
    ∃ call, t.kind? call = some .call ∧ f.span = t.span call ∧
      pathOf t.view (Index.build t library).resolver call = .ok f.path ∧
      (f.path.parent? = some (Path.ofSpec f.path.spec) ∨
        ∃ outer, outerCall? t.view call = some outer ∧
          ((outer ≠ call ∧ ∃ g ∈ scan t (Index.build t library).resolver {},
              pathOf t.view (Index.build t library).resolver outer = .ok g.path ∧
              f.path.parent? = some g.path) ∨
            isBlock t.view (Index.build t library).resolver outer = false)) ∧
      ∀ i b, f.path.blocks[i]? = some b → ∃ c, (wayUp t.view call)[i]? = some c ∧
        Passed t.view (Index.build t library).resolver c b ∧
        (isBlock t.view (Index.build t library).resolver c = true →
          { path := ⟨f.path.blocks.drop i, f.path.spec⟩, span := t.span c } ∈
            scan t (Index.build t library).resolver {}) := by
  obtain ⟨call, hcall, hp, hspan⟩ := (mem_scan_iff ht.linked).mp hf
  refine ⟨call, hcall, hspan, hp, parent?_of_reported ht.linked hcall hp, ?_⟩
  intro i b hb
  obtain ⟨c, hc, hpassed⟩ := exists_passed ht.linked.grounded hp hb
  exact ⟨c, hc, hpassed, mem_scan_of_getElem? ht.linked hcall hp hc⟩

namespace Example

/-- The file of a class with a test in a pending group. -/
def testInPendingGroup : Tree := testIn "xdescribe"

theorem built_testInPendingGroup : testInPendingGroup.Built := built_testIn "xdescribe" (by decide)

/-- The path of the test. -/
def pendingPath : Path := testPath "xdescribe"

theorem pathOf_testInPendingGroup :
    pathOf testInPendingGroup.view (Index.build testInPendingGroup .framework).resolver 18 =
      .ok pendingPath := pathOf_testIn "xdescribe" (by decide)

theorem mem_scan_testInPendingGroup :
    { path := pendingPath, span := testInPendingGroup.span 18 } ∈
      scan testInPendingGroup (Index.build testInPendingGroup .framework).resolver {} :=
  reported_of_pathOf built_testInPendingGroup.linked (by decide +kernel)
    pathOf_testInPendingGroup

/-- The test is the only block of the file. -/
theorem eq_of_isBlock_testInPendingGroup {call : NodeId}
    (hcall : testInPendingGroup.kind? call = some .call)
    (hb : isBlock testInPendingGroup.view
      (Index.build testInPendingGroup .framework).resolver call = true) : call = 18 := by
  have hcalls : ∀ c ∈ testInPendingGroup.calls, isBlock testInPendingGroup.view
      (Index.build testInPendingGroup .framework).resolver c = true → c = 18 := by
    decide +kernel
  exact hcalls call (built_testInPendingGroup.linked.mem_findAll.mpr ⟨.call, hcall, rfl⟩) hb

end Example

/-- **A reported test can be without a reported group**: around the test there is more than its
class, but the pending group is not reported. -/
theorem orphan_in_pending_group :
    Example.testInPendingGroup.Built ∧
    ∃ f ∈ scan Example.testInPendingGroup
        (Index.build Example.testInPendingGroup .framework).resolver {},
      (∀ name, f.path.parent? ≠ some (Path.ofSpec name)) ∧
      ∀ g ∈ scan Example.testInPendingGroup
          (Index.build Example.testInPendingGroup .framework).resolver {},
        f.path.parent? ≠ some g.path := by
  have ht := Example.built_testInPendingGroup.linked
  refine ⟨Example.built_testInPendingGroup, _, Example.mem_scan_testInPendingGroup, ?_, ?_⟩
  · intro name
    simp [Example.pendingPath, Example.testPath, Path.parent?, Path.ofSpec]
  · intro g hg
    obtain ⟨call, hcall, hp, -⟩ := (mem_scan_iff ht).mp hg
    obtain ⟨hb, -⟩ := (pathOf_eq_ok_iff ht.grounded).mp hp
    obtain rfl := Example.eq_of_isBlock_testInPendingGroup hcall hb
    rw [Example.pathOf_testInPendingGroup] at hp
    rw [← Except.ok.inj hp]
    decide

/-- The second segment of the test in the pending group is that of the call around it. -/
theorem parent?_of_mem_scan_pendingGroup :
    Example.testInPendingGroup.Built ∧
    ∃ f ∈ scan Example.testInPendingGroup
        (Index.build Example.testInPendingGroup .framework).resolver {},
      f.path = Example.pendingPath ∧
      ∃ call c, (wayUp Example.testInPendingGroup.view call)[1]? = some c ∧
        Passed Example.testInPendingGroup.view
          (Index.build Example.testInPendingGroup .framework).resolver c
          ⟨.group, "xdescribe a"⟩ := by
  obtain ⟨call, -, -, -, -, hsegments⟩ := parent?_of_mem_scan Example.built_testInPendingGroup
    .framework Example.mem_scan_testInPendingGroup
  obtain ⟨c, hc, hpassed, -⟩ := hsegments 1 ⟨.group, "xdescribe a"⟩ rfl
  exact ⟨Example.built_testInPendingGroup, _, Example.mem_scan_testInPendingGroup, rfl, call, c,
    hc, hpassed⟩

end SpecOutline.Suite
