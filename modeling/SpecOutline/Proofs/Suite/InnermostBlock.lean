/-
# The innermost block of a path

A block is described twice: `block?` classifies the call, and the climb of `pathOf` asks the same
call again when it makes the first segment of the path.  The two ask different questions about the
function that is called.  A block function opens a test, opens a group or opens nothing; on the way
up a function opens a test or else a group.  The second question is put to a call only after the
first one had an answer, so that both agree (`segment?_of_block?`).

Here the climb is followed from below, in any view whatever: what it arrives with begins with the
segment of the call it started from, and has no more segments than there was room for
(`exists_cons_of_ascend`).
-/
import SpecOutline.Proofs.Suite.Nesting

namespace SpecOutline.Suite

variable {v : View} {r : Resolver} {call : NodeId} {p : Path}

/-! ## 1. What the climb arrives with -/

/-- **The climb arrives with the segment of the call that it started from**, and with fewer others
than there was room for. -/
theorem exists_cons_of_ascend {start : NodeId} {room : Nat} {blocks : List BlockSegment}
    (h : ascend v r start room call = .ok blocks) :
    ∃ b outer, segment? v r call = some b ∧ blocks = b :: outer ∧ outer.length < room := by
  induction room generalizing call blocks with
  | zero => cases h
  | succ room ih =>
    cases hf : fault? v r call with
    | some e =>
      rw [ascend_succ_of_fault? hf] at h
      cases h
    | none =>
      obtain ⟨b, hb, houter, hlast⟩ := ascend_succ start room hf
      cases ho : outerCall? v call with
      | none =>
        rw [hlast ho] at h
        cases h
        exact ⟨b, [], hb, rfl, Nat.succ_pos room⟩
      | some outer =>
        rw [houter outer ho] at h
        cases ha : ascend v r start room outer with
        | error e =>
          rw [ha] at h
          cases h
        | ok above =>
          rw [ha] at h
          cases h
          -- the calls around took their segments out of the room that was left
          obtain ⟨c, rest, -, rfl, hlt⟩ := ih ha
          refine ⟨b, c :: rest, hb, rfl, ?_⟩
          rw [List.length_cons]
          omega

/-- A path is that of a block with an owner, at the end of a climb. -/
theorem ascend_of_pathOf (h : pathOf v r call = .ok p) :
    ∃ b spec, block? v r call = some b ∧ owner? v r call = some spec ∧
      p.spec = spec.qualifiedName ∧ ascend v r call nestingLimit call = .ok p.blocks := by
  cases hb : block? v r call with
  | none =>
    rw [pathOf_of_block?_none hb] at h
    cases h
  | some b =>
    have hblock : (block? v r call).isSome = true := by rw [hb]; rfl
    cases ha : ascend v r call nestingLimit call with
    | error e =>
      rw [pathOf_of_ascend_error hblock ha] at h
      cases h
    | ok blocks =>
      rw [pathOf_of_ascend hblock ha] at h
      cases ho : owner? v r call with
      | none =>
        rw [ho] at h
        cases h
      | some spec =>
        rw [ho] at h
        cases h
        exact ⟨b, spec, rfl, rfl, rfl, rfl⟩

/-! ## 2. The two descriptions of a block -/

/-- **The innermost segment of a path is the block that its call is**, and the outermost the class
that owns it; there are at most 256 blocks between. -/
theorem leaf_of_pathOf (h : pathOf v r call = .ok p) :
    ∃ b spec, block? v r call = some b ∧ owner? v r call = some spec ∧
      p.leaf = ⟨b.kind.segment, b.label⟩ ∧ p.root = ⟨.spec, spec.qualifiedName⟩ ∧
      2 ≤ p.length ∧ p.length ≤ 257 := by
  obtain ⟨b, spec, hb, ho, hspec, ha⟩ := ascend_of_pathOf h
  obtain ⟨first, outer, hfirst, hblocks, hlt⟩ := exists_cons_of_ascend ha
  -- the climb made its first segment out of what the classification found
  obtain rfl : ⟨b.kind, b.label⟩ = first :=
    Option.some.inj ((segment?_of_block? hb).symm.trans hfirst)
  have hlength : p.length = outer.length + 2 := by
    rw [Path.length, hblocks, List.length_cons]
  refine ⟨b, spec, hb, ho, ?_, ?_, ?_, ?_⟩
  · rw [Path.leaf, hblocks]
    rfl
  · rw [Path.root, hspec]
  · omega
  · have : nestingLimit = 256 := rfl
    omega

/-- **The path of a call and its classification agree**, for every resolver.  In every view, a call
with a path is a block, the innermost segment of the path has the kind and the label of that block,
the outermost is called as the class that owns the call, and the path has between 2 and 257
segments.  So in every tree and under all options, each finding of a scan is that of a call which
is a block, and has the kind and the label of that block. -/
theorem innermost_of_pathOf_and_scan (r : Resolver) :
    (∀ v call p, pathOf v r call = .ok p → ∃ b, block? v r call = some b ∧
      p.leaf.kind = b.kind.segment ∧ p.leaf.label = b.label ∧
      (owner? v r call).map (·.qualifiedName) = some p.root.label ∧
      2 ≤ p.length ∧ p.length ≤ 257) ∧
    ∀ t options f, f ∈ scan t r options → ∃ call ∈ t.calls, ∃ b,
      block? t.view r call = some b ∧ f.path.kind = b.kind.segment ∧
      f.path.leaf.label = b.label ∧ f.span = t.span call := by
  refine ⟨?_, ?_⟩
  · intro v call p hp
    obtain ⟨b, spec, hb, ho, hleaf, hroot, hlow, hhigh⟩ := leaf_of_pathOf hp
    refine ⟨b, hb, ?_, ?_, ?_, hlow, hhigh⟩
    · rw [hleaf]
    · rw [hleaf]
    · rw [ho, hroot]
      rfl
  · intro t options f hf
    obtain ⟨call, hcall, hf⟩ := List.mem_filterMap.mp hf
    obtain ⟨-, hp, hspan⟩ := of_findingOf? hf
    obtain ⟨b, -, hb, -, hleaf, -⟩ := leaf_of_pathOf hp
    refine ⟨call, hcall, b, hb, ?_, ?_, hspan⟩
    · rw [Path.kind, hleaf]
    · rw [hleaf]

/-- The test in a group is classified as a test, and found as one. -/
theorem innermost_testInGroup :
    (∃ b, block? Example.testInGroup.view
        (Index.build Example.testInGroup .framework).resolver 18 = some b ∧
      SegmentKind.test = b.kind.segment ∧ "it b" = b.label) ∧
    ∃ f ∈ scan Example.testInGroup (Index.build Example.testInGroup .framework).resolver {},
      f.path.kind = .test ∧ ∃ call ∈ Example.testInGroup.calls, ∃ b,
        block? Example.testInGroup.view
          (Index.build Example.testInGroup .framework).resolver call = some b ∧
        f.path.kind = b.kind.segment := by
  obtain ⟨hpaths, hfindings⟩ :=
    innermost_of_pathOf_and_scan (Index.build Example.testInGroup .framework).resolver
  have hfound := reported_of_pathOf Example.built_testInGroup.linked
    (by decide : Example.testInGroup.kind? 18 = some .call) Example.pathOf_testInGroup
  obtain ⟨b, hb, hkind, hlabel, -⟩ := hpaths _ _ _ Example.pathOf_testInGroup
  obtain ⟨call, hcall, c, hc, hckind, -⟩ := hfindings _ _ _ hfound
  exact ⟨⟨b, hb, hkind, hlabel⟩, _, hfound, rfl, call, hcall, c, hc, hckind⟩

end SpecOutline.Suite
