/-
# Sequences of steps

Whoever builds a tree knows the places of its nodes from the answers of the steps: a step answers
places that the tree has from then on (`lt_size_of_mem_answers`), and no step takes a place away
(`size_le_of_perform`).

* Steps of which each names only nodes that are there when its turn comes (`OwnsAll`, which can be
  decided) are carried out one after the other (`performAll_of_ownsAll`), and what they end in is
  `Built` (`Built.afterAll`).
* Steps that name no parents but the file and earlier answers (`NamesOwn`) are such steps
  (`ownsAll_of_namesOwn`).

The links of a tree built in this way are in order: every node but the file comes after its parent,
and it is listed among the children of that parent, once, and nowhere else.
-/
import Mathlib.Data.List.Nodup
import SpecOutline.Proofs.Tree.Linked

namespace SpecOutline.Tree

/-! ## 1. One step -/

/-- A step that adds nodes answers only such as it has added. -/
theorem answer_lt_size_graft (t : Tree) {step : Step} {parent : NodeId} {shape : Shape}
    {answers : List Nat} (hg : step.growth? = some (parent, shape, answers)) :
    ∀ a ∈ answers, t.size + a < (t.graft parent shape).size := by
  cases step <;> simp only [Step.growth?, reduceCtorEq, Option.some.injEq, Prod.mk.injEq] at hg
  all_goals
    obtain ⟨rfl, rfl, rfl⟩ := hg
    intro a ha
    simp only [List.mem_cons, List.not_mem_nil, or_false] at ha
    simp only [Shape.leaf, Shape.emptyLambda, Shape.bareCall, Shape.stringArgument,
      Shape.lambdaValueArgument, Shape.trailingLambda, Shape.blockCall, Shape.specClass,
      List.map_nil, graft, graftAll, graftItems, size_append]
    omega

section Perform

variable {t t' : Tree} {step : Step} {answers : List NodeId}

/-- **What a step does**: it grafts below a parent that the tree may have, or it edits the tree
and leaves the number of its nodes. -/
theorem perform_cases (hs : t.perform step = .ok (t', answers)) :
    (∃ parent shape offsets, step.growth? = some (parent, shape, offsets) ∧
      t' = t.graft parent shape ∧ answers = offsets.map (t.size + ·)) ∨
    (step.growth? = none ∧ t'.size = t.size ∧ ∀ a ∈ answers, a = root) := by
  unfold perform at hs
  split at hs
  · next parent shape offsets hg =>
    split at hs
    · cases hs
      exact .inl ⟨parent, shape, offsets, hg, rfl, rfl⟩
    · cases hs
  · next hg =>
    refine .inr ⟨hg, ?_⟩
    cases step with
    | root => cases hs; exact ⟨rfl, by simp⟩
    | setPackage package? => cases hs; exact ⟨size_setPackage t package?, by simp⟩
    | setSpan id span => cases hs; exact ⟨size_setSpan t id span, by simp⟩
    | setPath path => cases hs; exact ⟨rfl, by simp⟩
    | addErrorRegion span => cases hs; exact ⟨rfl, by simp⟩
    | _ => cases hg

/-- No step takes a place away. -/
theorem size_le_of_perform (hs : t.perform step = .ok (t', answers)) : t.size ≤ t'.size := by
  obtain ⟨parent, shape, offsets, -, rfl, -⟩ | ⟨-, hsize, -⟩ := perform_cases hs
  · exact Nat.le_of_lt (size_lt_graft t parent shape)
  · exact Nat.le_of_eq hsize.symm

/-- **A step answers places of the tree it makes.** -/
theorem lt_size_of_mem_answers (ht : t.Linked) (hs : t.perform step = .ok (t', answers)) :
    ∀ a ∈ answers, a < t'.size := by
  obtain ⟨parent, shape, offsets, hg, rfl, rfl⟩ | ⟨-, hsize, hroot⟩ := perform_cases hs
  · intro a ha
    obtain ⟨offset, ho, rfl⟩ := List.mem_map.mp ha
    exact answer_lt_size_graft t hg offset ho
  · intro a ha
    rw [hroot a ha, hsize]
    exact ht.size_pos

/-- The tree after a step that is carried out. -/
def after (t : Tree) (step : Step) : Tree :=
  match step.growth? with
  | some (parent, shape, _) => t.graft parent shape
  | none => t.edit step

/-- A step that names only nodes of the tree is carried out. -/
theorem exists_perform_of_owns (ho : step.Owns t) :
    ∃ answers, t.perform step = .ok (t.after step, answers) := by
  cases hg : step.growth? with
  | some growth =>
    obtain ⟨parent, shape, offsets⟩ := growth
    rw [after, hg]
    exact ⟨_, perform_of_growth? hg (Nat.le_of_lt (ho _ hg))⟩
  | none =>
    unfold after perform
    rw [hg]
    cases step <;> exact ⟨_, rfl⟩

end Perform

/-! ## 2. Sequences -/

/-- The tree after steps that are carried out one after the other. -/
def afterAll (t : Tree) (steps : List Step) : Tree := steps.foldl after t

/-- Each of the steps names only nodes that are there when its turn comes. -/
def OwnsAll (t : Tree) : List Step → Prop
  | [] => True
  | step :: steps => step.Owns t ∧ (t.after step).OwnsAll steps

instance decidableOwnsAll : (t : Tree) → (steps : List Step) → Decidable (t.OwnsAll steps)
  | _, [] => .isTrue trivial
  | t, step :: steps =>
    haveI := decidableOwnsAll (t.after step) steps
    inferInstanceAs (Decidable ((∀ growth ∈ step.growth?, growth.1 < t.size) ∧ _))

/-- **Steps below nodes that are there are carried out.** -/
theorem performAll_of_ownsAll {t : Tree} :
    ∀ {steps : List Step}, t.OwnsAll steps → t.performAll steps = .ok (t.afterAll steps)
  | [], _ => rfl
  | step :: steps, ⟨howns, hrest⟩ => by
    obtain ⟨answers, hs⟩ := exists_perform_of_owns howns
    rw [performAll, List.foldlM_cons, hs]
    exact performAll_of_ownsAll hrest

/-- **What they end in is built.** -/
theorem Built.afterAll {t : Tree} (ht : t.Built) :
    ∀ {steps : List Step}, t.OwnsAll steps → (t.afterAll steps).Built
  | [], _ => ht
  | _ :: _, ⟨howns, hrest⟩ => by
    obtain ⟨answers, hs⟩ := exists_perform_of_owns howns
    exact Built.afterAll (.step ht howns hs) hrest

/-- The steps name no parents but the file and the places in `known`, to which every step adds
the places that it answers. -/
def NamesOwn (t : Tree) (known : List NodeId) : List Step → Prop
  | [] => True
  | step :: steps =>
    (∀ growth ∈ step.growth?, growth.1 = root ∨ growth.1 ∈ known) ∧
      ∀ t' answers, t.perform step = .ok (t', answers) → t'.NamesOwn (known ++ answers) steps

/-- **Steps that name only what earlier ones have answered** name nodes that are there. -/
theorem ownsAll_of_namesOwn {t : Tree} (ht : t.Linked) {known : List NodeId}
    (hk : ∀ id ∈ known, id < t.size) :
    ∀ {steps : List Step}, t.NamesOwn known steps → t.OwnsAll steps
  | [], _ => trivial
  | step :: steps, h => by
    rw [NamesOwn] at h
    obtain ⟨hnames, hrest⟩ := h
    have howns : step.Owns t := by
      intro growth hg
      rcases hnames growth hg with hroot | hmem
      · rw [hroot]; exact ht.size_pos
      · exact hk _ hmem
    obtain ⟨answers, hs⟩ := exists_perform_of_owns howns
    have hk₁ : ∀ id ∈ known ++ answers, id < (t.after step).size := by
      intro id hid
      rcases List.mem_append.mp hid with hid | hid
      · exact Nat.lt_of_lt_of_le (hk id hid) (size_le_of_perform hs)
      · exact lt_size_of_mem_answers ht hs id hid
    exact ⟨howns, ownsAll_of_namesOwn (ht.perform howns hs) hk₁ (hrest _ answers hs)⟩

/-! ## 3. The links of what was built -/

namespace Linked

variable {t : Tree}

/-- A node is listed once among the children of its parent. -/
theorem count_children (h : t.Linked) {id p : NodeId} (hp : t.parent? id = some p) :
    (t.children p).count id = 1 := by
  have hnodup : (t.children p).Nodup := (h.sorted p).imp Nat.ne_of_lt
  exact List.count_eq_one_of_mem hnodup ((h.mem_children p id).mpr hp)

/-- A node is a child of no node but its parent. -/
theorem not_mem_children_of_ne (h : t.Linked) {id p q : NodeId} (hp : t.parent? id = some p)
    (hq : q ≠ p) : id ∉ t.children q := by
  intro hc
  have hparent := (h.mem_children q id).mp hc
  rw [hp, Option.some.injEq] at hparent
  exact hq hparent.symm

end Linked

/-- **Building keeps the links in order.**  Start from an empty file and carry out any steps that
name no parents but the file and places answered before.  No step is refused; and in the tree that
comes out the file is the first node and has no parent, every other node comes after its parent and
is listed once among the children of it and of no other node, and the children of a node are nodes
of the tree in ascending order. -/
theorem performAll_linksInOrder {start : Tree}
    (hstart : (∃ language, start = empty language) ∨ ∃ package?, start = inPackage package?)
    {steps : List Step} (hsteps : start.NamesOwn [] steps) :
    ∃ t, start.performAll steps = .ok t ∧
      (∃ package?, t.kind? root = some (.file package?)) ∧ t.parent? root = none ∧
      (∀ id, id ≠ root → id < t.size → ∃ p < id, t.parent? id = some p ∧
        (t.children p).count id = 1 ∧ ∀ q, q ≠ p → id ∉ t.children q) ∧
      ∀ p, (t.children p).Pairwise (· < ·) ∧ ∀ c ∈ t.children p, c < t.size := by
  have hbuilt : start.Built := by
    obtain ⟨language, rfl⟩ | ⟨package?, rfl⟩ := hstart
    · exact .empty language
    · exact .inPackage package?
  have howns : start.OwnsAll steps := ownsAll_of_namesOwn hbuilt.linked (by simp) hsteps
  have h := (hbuilt.afterAll howns).linked
  refine ⟨start.afterAll steps, performAll_of_ownsAll howns, h.file, h.root_parent, ?_, ?_⟩
  · intro id hne hid
    obtain ⟨p, hlt, hp⟩ := h.parent_lt id (Nat.pos_of_ne_zero hne) hid
    exact ⟨p, hlt, hp, h.count_children hp, fun q hq => h.not_mem_children_of_ne hp hq⟩
  · exact fun p => ⟨h.sorted p, fun c hc => h.lt_size_of_mem_children hc⟩

namespace Example

/-- A class with a group in it, then an import, then a test in the group, and a second test beside
the group. -/
def interleaved : List Step :=
  [.root, .addSpecClass { name := "FooSpec", supertypes := ["Spek"] },
    .addBlockCall 7 "describe" "a", .addImport { path := "org.jetbrains.spek.api.Spek" },
    .setSpan 40 {}, .addBlockCall 15 "it" "b", .setPackage none, .addBlockCall 7 "it" "c",
    .annotate 1 "Ignore"]

theorem namesOwn_interleaved : (inPackage (some "com.example")).NamesOwn [] interleaved := by
  repeat
    refine ⟨by decide, ?_⟩
    rintro _ _ ⟨⟩
  trivial

end Example

/-- The steps may come in any order: the import at place 16 comes after the nodes of a class, and
nodes of the class come after it. -/
theorem performAll_interleaved : (inPackage (some "com.example")).NamesOwn [] Example.interleaved ∧
    ∃ t, (inPackage (some "com.example")).performAll Example.interleaved = .ok t ∧
      (t.children 7).Pairwise (· < ·) := by
  obtain ⟨t, hall, -, -, -, hsorted⟩ :=
    performAll_linksInOrder (.inr ⟨_, rfl⟩) Example.namesOwn_interleaved
  exact ⟨Example.namesOwn_interleaved, t, hall, (hsorted 7).1⟩

end SpecOutline.Tree
