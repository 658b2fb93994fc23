/-
# The shape of paths

As a list of segments, a path ends in the segment of its class, and no other segment is of that
kind (`EndsInSpec`).  The operations that give paths put such lists together in different ways:
one takes a list as it is after a check, one reads it, one drops a segment, and one collects the
blocks of a climb and adds the class at the end.  `Made p ss` says that some number of these
operations gives `p`, and that `ss` is the list that they put together.

* The list is of the shape above whatever the operation (`endsInSpec_of_made`): a climb collects
  segments of groups and tests only (`collected?`), and dropping a segment leaves the class.
* The list is that of the path (`segments_of_made`).
* The check accepts exactly the lists of that shape (`Path.isSome_ofSegments?_iff`), and so does
  reading (`Path.ofJson_eq_ok_iff`).
* Going outwards, a path loses one segment at a time until its class alone is left
  (`Path.outer?_eq_some_iff`).
-/
import SpecOutline.Proofs.Json.Records
import SpecOutline.Proofs.Suite.Nesting

namespace SpecOutline.Suite

open SpecOutline.Json

/-! ## 1. Lists of segments -/

/-- The last segment, and only the last, is a class. -/
def EndsInSpec (ss : List Segment) : Prop :=
  ∃ blocks root, ss = blocks ++ [root] ∧ root.kind = .spec ∧ ∀ s ∈ blocks, s.kind ≠ .spec

theorem endsInSpec_singleton_iff {s : Segment} : EndsInSpec [s] ↔ s.kind = .spec := by
  constructor
  · rintro ⟨blocks, root, heq, hroot, -⟩
    obtain ⟨rfl, rfl⟩ : blocks = [] ∧ root = s := by
      cases blocks with
      | nil => exact ⟨rfl, by simpa using heq.symm⟩
      | cons b blocks => simp at heq
    exact hroot
  · intro h
    exact ⟨[], s, rfl, h, by simp⟩

theorem endsInSpec_cons_iff {s : Segment} {ss : List Segment} (hne : ss ≠ []) :
    EndsInSpec (s :: ss) ↔ s.kind ≠ .spec ∧ EndsInSpec ss := by
  constructor
  · rintro ⟨blocks, root, heq, hroot, hblocks⟩
    cases blocks with
    | nil => simp [hne] at heq
    | cons b blocks =>
      obtain ⟨rfl, rfl⟩ := List.cons.inj heq
      exact ⟨hblocks s List.mem_cons_self,
        blocks, root, rfl, hroot, fun t ht => hblocks t (List.mem_cons_of_mem s ht)⟩
  · rintro ⟨hs, blocks, root, rfl, hroot, hblocks⟩
    exact ⟨s :: blocks, root, rfl, hroot, List.forall_mem_cons.mpr ⟨hs, hblocks⟩⟩

theorem BlockSegment.segment_kind_ne_spec (b : BlockSegment) : b.segment.kind ≠ .spec := by
  obtain ⟨kind, label⟩ := b
  cases kind <;> simp [BlockSegment.segment, BlockKind.segment]

namespace Path

/-- **The segments of a path end in its class.** -/
theorem endsInSpec_segments (p : Path) : EndsInSpec p.segments :=
  ⟨p.blocks.map BlockSegment.segment, p.root, rfl, rfl, by
    simp [BlockSegment.segment_kind_ne_spec]⟩

theorem length_segments (p : Path) : p.segments.length = p.length := by
  simp [segments, length]

theorem head?_segments (p : Path) : p.segments.head? = some p.leaf := by
  obtain ⟨blocks, spec⟩ := p
  cases blocks <;> rfl

theorem getLast?_segments (p : Path) : p.segments.getLast? = some p.root := by
  simp [segments]

/-! ## 2. Checked lists -/

theorem ofSegments?_cons {s : Segment} {ss : List Segment} (hne : ss ≠ []) :
    ofSegments? (s :: ss) = s.kind.block?.bind fun kind =>
      (ofSegments? ss).map fun p => { p with blocks := ⟨kind, s.label⟩ :: p.blocks } := by
  cases ss with
  | nil => exact absurd rfl hne
  | cons t ss =>
    rw [ofSegments?]
    · cases s.kind.block? <;> cases ofSegments? (t :: ss) <;> rfl
    · simp

theorem ofSegments?_segments (p : Path) : ofSegments? p.segments = some p := by
  obtain ⟨blocks, spec⟩ := p
  induction blocks with
  | nil => rfl
  | cons b blocks ih =>
    obtain ⟨kind, label⟩ := b
    have hne : (⟨blocks, spec⟩ : Path).segments ≠ [] := by simp [segments]
    have hblock : kind.segment.block? = some kind := by cases kind <;> rfl
    calc ofSegments? (⟨⟨kind, label⟩ :: blocks, spec⟩ : Path).segments
        = ofSegments? (⟨kind.segment, label⟩ :: (⟨blocks, spec⟩ : Path).segments) := rfl
      _ = some ⟨⟨kind, label⟩ :: blocks, spec⟩ := by
        rw [ofSegments?_cons hne, ih, hblock]
        rfl

/-- **The path of a checked list has the segments of the list.** -/
theorem ofSegments?_eq_some_iff {ss : List Segment} {p : Path} :
    ofSegments? ss = some p ↔ p.segments = ss := by
  constructor
  · intro h
    induction ss generalizing p with
    | nil => cases h
    | cons s ss ih =>
      by_cases hne : ss = []
      · subst hne
        obtain ⟨hs, h⟩ := Option.ite_none_right_eq_some.mp h
        cases h
        simp [segments, ofSpec, root, ← hs]
      · rw [ofSegments?_cons hne] at h
        obtain ⟨kind, hkind, h⟩ := Option.bind_eq_some_iff.mp h
        obtain ⟨q, hq, rfl⟩ := Option.map_eq_some_iff.mp h
        have hs : kind.segment = s.kind := by
          cases hk : s.kind <;> rw [hk] at hkind <;> cases hkind <;> rfl
        rw [← ih hq]
        simp [segments, root, BlockSegment.segment, hs]
  · rintro rfl
    exact p.ofSegments?_segments

/-- **A list of segments is taken for a path exactly if its last segment, and only the last, is
a class.** -/
theorem isSome_ofSegments?_iff {ss : List Segment} :
    (ofSegments? ss).isSome = true ↔ EndsInSpec ss := by
  induction ss with
  | nil => simp [ofSegments?, EndsInSpec]
  | cons s ss ih =>
    by_cases hne : ss = []
    · subst hne
      rw [endsInSpec_singleton_iff, ofSegments?]
      split <;> simp [*]
    · have hblock : s.kind.block?.isSome = true ↔ s.kind ≠ .spec := by
        cases s.kind <;> simp [SegmentKind.block?]
      rw [endsInSpec_cons_iff hne, ofSegments?_cons hne, ← ih, ← hblock]
      cases s.kind.block? <;> simp

end Path

/-! ## 3. Lists that are read -/

theorem Segment.ofJson_toJson (s : Segment) : Segment.ofJson s.toJson = .ok s := by
  have hkind : enumeration .direct SegmentKind.byName (.text s.kind.name) = .ok s.kind := by
    cases s.kind <;> decide
  rw [Segment.ofJson, Segment.toJson, record_of_sublist]
  case hkeys => exact List.Sublist.refl _
  case hnames => decide
  simp [Record.required, Record.ofEntries, List.lookup_cons, bind, Except.bind, pure,
    Except.pure, Value.asText, hkind]

namespace Path

/-- **A value is read as a path exactly if it is a list of segments that ends in a class.** -/
theorem ofJson_eq_ok_iff {v : Value} {p : Path} :
    Path.ofJson v = .ok p ↔
      ∃ ss, v.asList Segment.ofJson = .ok ss ∧ EndsInSpec ss ∧ p.segments = ss := by
  constructor
  · intro h
    obtain ⟨ss, hss, h⟩ := bind_eq_ok h
    split at h
    · next hp =>
      cases h
      exact ⟨ss, hss, isSome_ofSegments?_iff.mp (by rw [hp]; rfl), ofSegments?_eq_some_iff.mp hp⟩
    · cases h
  · rintro ⟨ss, hss, -, rfl⟩
    simp only [Path.ofJson, hss, bind, Except.bind, ofSegments?_segments]
    rfl

theorem ofJson_toJson (p : Path) : Path.ofJson p.toJson = .ok p :=
  ofJson_eq_ok_iff.mpr ⟨p.segments, asList_map fun s _ => s.ofJson_toJson,
    p.endsInSpec_segments, rfl⟩

/-! ## 4. Outwards -/

/-- What is around a path has its segments but the innermost. -/
theorem segments_of_parent? {p q : Path} (h : p.parent? = some q) :
    ∃ s, p.segments = s :: q.segments := by
  obtain ⟨blocks, spec⟩ := p
  cases blocks with
  | nil => cases h
  | cons b blocks =>
    cases h
    exact ⟨b.segment, rfl⟩

/-- The path that is left after going outwards a number of times. -/
def outer? : Nat → Path → Option Path
  | 0, p => some p
  | k + 1, p => p.parent?.bind (outer? k)

/-- **Going outwards drops the innermost blocks**, as often as there are any. -/
theorem outer?_eq_some_iff {k : Nat} {p q : Path} :
    p.outer? k = some q ↔ k < p.length ∧ q = ⟨p.blocks.drop k, p.spec⟩ := by
  induction k generalizing p with
  | zero => simp [outer?, length, eq_comm]
  | succ k ih =>
    obtain ⟨blocks, spec⟩ := p
    cases blocks with
    | nil => simp [outer?, parent?, length]
    | cons b blocks =>
      rw [outer?, parent?, Option.bind_some, ih]
      simp [length]

theorem segments_drop (p : Path) {k : Nat} (hk : k < p.length) :
    (⟨p.blocks.drop k, p.spec⟩ : Path).segments = p.segments.drop k := by
  have hle : k ≤ (p.blocks.map BlockSegment.segment).length := by
    rw [List.length_map]
    exact Nat.le_of_lt_succ hk
  rw [segments, segments, List.drop_append_of_le_length hle, List.map_drop]
  rfl

end Path

/-! ## 5. Paths however they are made -/

/-- The segment that a climb collects at a call: a test or a group, by the function called. -/
def collected? (v : View) (r : Resolver) (call : NodeId) : Option Segment := do
  let function ← calledFunction? v r call
  let description ← description? v call
  return ⟨if isTestFunction function.name then .test else .group,
    blockLabel function.name description⟩

theorem kind_of_collected? {v : View} {r : Resolver} {call : NodeId} {s : Segment}
    (h : collected? v r call = some s) : s.kind ≠ .spec := by
  obtain ⟨function, -, h⟩ := Option.bind_eq_some_iff.mp h
  obtain ⟨description, -, h⟩ := Option.bind_eq_some_iff.mp h
  cases h
  dsimp only
  split <;> simp

/-- What a climb collects is the block that it puts on the path. -/
theorem collected?_eq (v : View) (r : Resolver) (call : NodeId) :
    collected? v r call = (segment? v r call).map BlockSegment.segment := by
  unfold collected? segment?
  cases calledFunction? v r call with
  | none => rfl
  | some function =>
    cases description? v call with
    | none => rfl
    | some description =>
      by_cases htest : isTestFunction function.name = true <;>
        simp [htest, BlockSegment.segment, BlockKind.segment]

/-- `Made p ss`: some number of operations gives `p`, and `ss` is the list of segments that they
put together.  A climb puts what it collects on the way up before the segment of the class. -/
inductive Made : Path → List Segment → Prop
  | spec (name : String) : Made (.ofSpec name) [⟨.spec, name⟩]
  | checked {p : Path} {ss : List Segment} : Path.ofSegments? ss = some p → Made p ss
  | read {v : Value} {p : Path} {ss : List Segment} :
      v.asList Segment.ofJson = .ok ss → Path.ofJson v = .ok p → Made p ss
  | parent {p q : Path} {s : Segment} {ss : List Segment} :
      Made p (s :: ss) → p.parent? = some q → Made q ss
  | climbed {v : View} {r : Resolver} {call : NodeId} {p : Path} {name : String} :
      v.Grounded → pathOf v r call = .ok p →
      (owner? v r call).map (·.qualifiedName) = some name →
      Made p ((wayUp v call).filterMap (collected? v r) ++ [⟨.spec, name⟩])

/-- The path of a block has the blocks on the way up, and its class. -/
theorem blocks_of_pathOf {v : View} {r : Resolver} {call : NodeId} {p : Path}
    (hv : v.Grounded) (hp : pathOf v r call = .ok p) :
    (wayUp v call).filterMap (segment? v r) = p.blocks ∧
      (owner? v r call).map (·.qualifiedName) = some p.spec := by
  obtain ⟨-, -, -, spec, ho, hs, hm⟩ := (pathOf_eq_ok_iff hv).mp hp
  have hblocks := congrArg (List.filterMap id) hm
  rw [List.filterMap_map, List.filterMap_map] at hblocks
  exact ⟨by simpa using hblocks, by rw [ho, hs]; rfl⟩

/-- What is collected on the way up are those blocks. -/
theorem collected_of_pathOf {v : View} {r : Resolver} {call : NodeId} {p : Path}
    (hv : v.Grounded) (hp : pathOf v r call = .ok p) :
    (wayUp v call).filterMap (collected? v r) = p.blocks.map BlockSegment.segment := by
  rw [← (blocks_of_pathOf hv hp).1, List.map_filterMap]
  exact List.filterMap_congr fun c _ => collected?_eq v r c

/-- **The list that the operations put together is that of the path**, one case for each
operation. -/
theorem segments_of_made {p : Path} {ss : List Segment} (h : Made p ss) : p.segments = ss := by
  induction h with
  | spec name => rfl
  | checked h => exact Path.ofSegments?_eq_some_iff.mp h
  | read hv hp =>
    obtain ⟨ss, hss, -, rfl⟩ := Path.ofJson_eq_ok_iff.mp hp
    exact Except.ok.inj (hss.symm.trans hv)
  | parent _ hq ih =>
    obtain ⟨s, hs⟩ := Path.segments_of_parent? hq
    exact (List.cons.inj (hs.symm.trans ih)).2
  | climbed hv hp ho =>
    obtain rfl := Option.some.inj ((blocks_of_pathOf hv hp).2.symm.trans ho)
    rw [collected_of_pathOf hv hp]
    rfl

/-- **The list that the operations put together ends in a class**, and has no other: the kinds of
the segments are looked at here, not the path that they are for. -/
theorem endsInSpec_of_made {p : Path} {ss : List Segment} (h : Made p ss) : EndsInSpec ss := by
  induction h with
  | spec name => exact endsInSpec_singleton_iff.mpr rfl
  | checked h => exact Path.isSome_ofSegments?_iff.mp (Option.isSome_of_eq_some h)
  | read hv hp =>
    obtain ⟨ss, hss, hends, -⟩ := Path.ofJson_eq_ok_iff.mp hp
    rwa [Except.ok.inj (hv.symm.trans hss)]
  | @parent p q s ss hp hq ih =>
    -- A class alone has nothing around it, so the list goes on after the first segment.
    have hne : ss ≠ [] := by
      rw [← segments_of_made (.parent hp hq)]
      simp [Path.segments]
    exact ((endsInSpec_cons_iff hne).mp ih).2
  | climbed _ _ _ =>
    refine ⟨_, _, rfl, rfl, ?_⟩
    intro s hs
    obtain ⟨c, -, hc⟩ := List.mem_filterMap.mp hs
    exact kind_of_collected? hc

/-- Every path of a block is made, by a climb. -/
theorem made_of_pathOf {v : View} {r : Resolver} {call : NodeId} {p : Path}
    (hv : v.Grounded) (hp : pathOf v r call = .ok p) : Made p p.segments := by
  have h := Made.climbed hv hp (blocks_of_pathOf hv hp).2
  rwa [collected_of_pathOf hv hp] at h

/-- **Paths keep their shape, however they are made**: the segments end in the class and in no
other place, so that the innermost and the class are there to ask for; reading accepts the lists
of this shape and no others, and gives back what was written; and a path of `n` segments can be
left outwards `n - 1` times, always below the same class, which alone is left in the end. -/
theorem shape_of_made {p : Path} {ss : List Segment} (h : Made p ss) :
    (p.segments = ss ∧ EndsInSpec ss) ∧
    (ss.head? = some p.leaf ∧ ss.getLast? = some p.root ∧
      ss.head?.map (·.kind) = some p.kind ∧ ss.getLast?.map (·.label) = some p.spec) ∧
    (∀ v : Value, (∃ q, Path.ofJson v = .ok q) ↔
      ∃ ss, v.asList Segment.ofJson = .ok ss ∧ EndsInSpec ss) ∧
    (p.toJson = .array (ss.map Segment.toJson) ∧ Path.ofJson p.toJson = .ok p) ∧
    (∀ k, (p.outer? k).isSome = true ↔ k < ss.length) ∧
    (∀ k q, p.outer? k = some q → q.segments = ss.drop k ∧ q.root = p.root) ∧
    p.outer? (ss.length - 1) = some (.ofSpec p.root.label) := by
  have hends := endsInSpec_of_made h
  obtain rfl := segments_of_made h
  refine ⟨⟨rfl, hends⟩, ⟨p.head?_segments, p.getLast?_segments, ?_, ?_⟩, ?_,
    ⟨rfl, p.ofJson_toJson⟩, ?_, ?_, ?_⟩
  · rw [p.head?_segments]
    rfl
  · rw [p.getLast?_segments]
    rfl
  · intro v
    constructor
    · rintro ⟨q, hq⟩
      obtain ⟨ss, hss, hends, -⟩ := Path.ofJson_eq_ok_iff.mp hq
      exact ⟨ss, hss, hends⟩
    · rintro ⟨ss, hss, hends⟩
      obtain ⟨q, hq⟩ := Option.isSome_iff_exists.mp (Path.isSome_ofSegments?_iff.mpr hends)
      exact ⟨q, Path.ofJson_eq_ok_iff.mpr
        ⟨ss, hss, hends, Path.ofSegments?_eq_some_iff.mp hq⟩⟩
  · intro k
    simp [Option.isSome_iff_exists, Path.outer?_eq_some_iff, p.length_segments]
  · intro k q hq
    obtain ⟨hk, rfl⟩ := Path.outer?_eq_some_iff.mp hq
    exact ⟨p.segments_drop hk, rfl⟩
  · rw [Path.outer?_eq_some_iff, p.length_segments]
    simp [Path.length, Path.ofSpec, Path.root]

namespace Example

/-- The group around a test, by way of the path of the test. -/
theorem made_groupOfTest :
    Made ⟨[⟨.group, "describe a"⟩], "com.example.FooSpec"⟩
      [⟨.group, "describe a"⟩, ⟨.spec, "com.example.FooSpec"⟩] :=
  .parent (made_of_pathOf built_testInGroup.linked.grounded pathOf_testInGroup) rfl

end Example

/-- The group around a test has its class around it. -/
theorem shape_of_groupOfTest :
    Made ⟨[⟨.group, "describe a"⟩], "com.example.FooSpec"⟩
      [⟨.group, "describe a"⟩, ⟨.spec, "com.example.FooSpec"⟩] ∧
    Path.outer? 1 ⟨[⟨.group, "describe a"⟩], "com.example.FooSpec"⟩ =
      some (.ofSpec "com.example.FooSpec") :=
  ⟨Example.made_groupOfTest, (shape_of_made Example.made_groupOfTest).2.2.2.2.2.2⟩

end SpecOutline.Suite
