/-
# Blocks and the classes that own them

A block finds its class on the way up from the call, and a listing of spec classes finds it on the
way down from the file.  Both ask the same of the class node: the name of the spec class that it
declares (`specName?`).  So the root of a path is the name of the nearest class around the call
(`specName?_of_pathOf`), and that class is listed.

A scan passes over classes that the JUnit 4 runner runs by one test in two places: for a block, of
the nearest class around it; for a class, of the class itself.  `reports` keeps the call beside
what is reported of it, so that leaving out such classes is to filter that list
(`reports_skipJunit4`).
-/
import SpecOutline.Proofs.Suite.Nesting

namespace SpecOutline.Suite

variable {v : View} {r : Resolver} {t : Tree} {options : Options} {call id d : NodeId} {p : Path}

/-! ## 1. Names of spec classes -/

/-- The name of the spec class that a node declares. -/
def specName? (r : Resolver) (id : NodeId) : Option String :=
  ((r.classOf? id).filter (isSpec r)).map (·.qualifiedName)

/-- The owner of a node is called as the nearest class around it, if that is a spec class. -/
theorem map_owner? (v : View) (r : Resolver) (id : NodeId) :
    (owner? v r id).map (·.qualifiedName) = (v.enclosingClass? id).bind (specName? r) := by
  rw [owner?]
  cases v.enclosingClass? id with
  | none => rfl
  | some d => rfl

/-- **The root of a path is the name of the nearest class around the call.** -/
theorem specName?_of_pathOf (hv : v.Grounded) (hp : pathOf v r call = .ok p) :
    ∃ d, v.enclosingClass? call = some d ∧ specName? r d = some p.spec := by
  obtain ⟨-, -, -, spec, howner, hname, -⟩ := (pathOf_eq_ok_iff hv).mp hp
  refine Option.bind_eq_some_iff.mp ?_
  rw [← map_owner?, howner, hname]
  rfl

/-- **What a listing makes of a class**: the name of the spec class, unless it is passed over. -/
theorem specFinding?_eq (t : Tree) (r : Resolver) (options : Options) (id : NodeId) :
    specFinding? t r options id =
      if options.skipJunit4 && isJunit4 t.view r id then none
      else (specName? r id).map fun name => { path := .ofSpec name, span := t.span id } := by
  rw [specFinding?, specName?]
  split
  · rfl
  · cases r.classOf? id with
    | none => rfl
    | some c => cases hspec : isSpec r c <;> simp [hspec]

/-! ## 2. Reports -/

/-- The calls that a scan reports, each with what is reported of it. -/
def reports (t : Tree) (r : Resolver) (options : Options) : List (NodeId × Finding) :=
  t.calls.filterMap fun call => (findingOf? t r options call).map (call, ·)

/-- A scan is the list of its reports without the calls. -/
theorem scan_eq_map_reports (t : Tree) (r : Resolver) (options : Options) :
    scan t r options = (reports t r options).map (·.2) := by
  rw [scan, reports, List.map_filterMap]
  simp only [Option.map_map, Function.comp_def, Option.map_id']

theorem mem_reports_iff {f : Finding} :
    (call, f) ∈ reports t r options ↔
      call ∈ t.calls ∧ findingOf? t r options call = some f := by
  rw [reports, List.mem_filterMap]
  constructor
  · rintro ⟨c, hc, hf⟩
    obtain ⟨g, hg, heq⟩ := Option.map_eq_some_iff.mp hf
    cases heq
    exact ⟨hc, hg⟩
  · rintro ⟨hc, hf⟩
    exact ⟨call, hc, by rw [hf]; rfl⟩

/-- The option decides about calls in JUnit 4 classes, and about no others. -/
theorem findingOf?_skipJunit4 (t : Tree) (r : Resolver) (options : Options) (call : NodeId) :
    findingOf? t r { options with skipJunit4 := true } call =
      if inJunit4Class t.view r call then none
      else findingOf? t r { options with skipJunit4 := false } call := by
  rw [findingOf?, findingOf?]
  cases inJunit4Class t.view r call <;> rfl

/-- **Leaving out JUnit 4 classes is to leave out the calls in them.** -/
theorem reports_skipJunit4 (t : Tree) (r : Resolver) (options : Options) :
    reports t r { options with skipJunit4 := true } =
      (reports t r { options with skipJunit4 := false }).filter fun e =>
        !inJunit4Class t.view r e.1 := by
  rw [reports, reports, List.filter_filterMap]
  refine List.filterMap_congr fun call _ => ?_
  rw [findingOf?_skipJunit4]
  cases findingOf? t r { options with skipJunit4 := false } call with
  | none => cases inJunit4Class t.view r call <;> rfl
  | some f => cases hj : inJunit4Class t.view r call <;> simp [Option.filter_some, hj]

/-- **The class of a reported block is listed.** -/
theorem mem_scanSpecs_of_mem_reports (ht : t.Linked) {f : Finding}
    (hf : (call, f) ∈ reports t r options) :
    ∃ d, t.view.enclosingClass? call = some d ∧
      { path := Path.ofSpec f.path.spec, span := t.span d } ∈ scanSpecs t r options := by
  obtain ⟨-, hf⟩ := mem_reports_iff.mp hf
  obtain ⟨hskip, hp, -⟩ := (findingOf?_eq_some_iff ht).mp hf
  obtain ⟨d, hd, hname⟩ := specName?_of_pathOf ht.grounded hp
  have hskip' : (options.skipJunit4 && isJunit4 t.view r d) = false := by
    rw [inJunit4Class, hd] at hskip
    exact hskip
  refine ⟨d, hd, List.mem_filterMap.mpr ⟨d, ht.mem_classes_of_enclosingClass? hd, ?_⟩⟩
  rw [specFinding?_eq, hskip', hname]
  rfl

/-! ## 3. Trees built step by step -/

/-- **No block without its class, and the JUnit 4 filter is exact**, in every tree that steps have
built and for every resolver, so for every library and scope.  What a scan reports of a call is its
path and its span, and the listing of spec classes under the same options has the root of that path
at the span of the nearest class around the call.  A scan that leaves out JUnit 4 classes reports
what a scan that does not leave them out reports, except for the calls with such a class as the
nearest class around them. -/
theorem ownerListed_and_junit4Exact {t : Tree} (ht : t.Built) (r : Resolver) (options : Options) :
    scan t r options = (reports t r options).map (·.2) ∧
    (∀ call f, (call, f) ∈ reports t r options →
      pathOf t.view r call = .ok f.path ∧ f.span = t.span call ∧
      ∃ d, t.view.enclosingClass? call = some d ∧
        { path := Path.ofSpec f.path.spec, span := t.span d } ∈ scanSpecs t r options) ∧
    scan t r { options with skipJunit4 := true } =
      ((reports t r { options with skipJunit4 := false }).filter fun e =>
        !(t.view.enclosingClass? e.1).any (isJunit4 t.view r)).map (·.2) := by
  refine ⟨scan_eq_map_reports t r options, fun call f hf => ?_, ?_⟩
  · obtain ⟨-, hp, hspan⟩ := (findingOf?_eq_some_iff ht.linked).mp (mem_reports_iff.mp hf).2
    exact ⟨hp, hspan, mem_scanSpecs_of_mem_reports ht.linked hf⟩
  · rw [scan_eq_map_reports, reports_skipJunit4]
    rfl

namespace Example

/-- The file of a class with a test that the JUnit 4 runner runs. -/
def annotatedClass : Tree := specTree [.addBlockCall 9 "it" "a", .annotate 3 runWith]

theorem built_annotatedClass : annotatedClass.Built := built_specTree (by decide)

/-- What is reported of the test. -/
def annotatedTest : Finding :=
  { path := ⟨[⟨.test, "it a"⟩], "com.example.FooSpec"⟩, span := {} }

theorem mem_reports_annotatedClass :
    (10, annotatedTest) ∈
      reports annotatedClass (Index.build annotatedClass .framework).resolver {} := by
  have howner : owner? annotatedClass.view (Index.build annotatedClass .framework).resolver 10 =
      some fooSpec := owner?_fooSpec (by decide +kernel) (by decide +kernel)
  have hblock : block? annotatedClass.view (Index.build annotatedClass .framework).resolver 10 =
      some { kind := .test, function := "it", description := "a" } := by decide +kernel
  have hpath := pathOf_of_outerCall?_none built_annotatedClass.linked.grounded hblock
    (by decide +kernel) howner
  exact mem_reports_iff.mpr ⟨by decide +kernel,
    (findingOf?_eq_some_iff built_annotatedClass.linked).mpr ⟨rfl, hpath, by decide +kernel⟩⟩

end Example

/-- The test is reported and its class is listed, but not if JUnit 4 classes are left out. -/
theorem ownerListed_annotatedClass :
    Example.annotatedClass.Built ∧
    { path := Path.ofSpec "com.example.FooSpec", span := Example.annotatedClass.span 3 } ∈
      scanSpecs Example.annotatedClass
        (Index.build Example.annotatedClass .framework).resolver {} ∧
    Example.annotatedTest ∈ scan Example.annotatedClass
      (Index.build Example.annotatedClass .framework).resolver {} ∧
    scan Example.annotatedClass (Index.build Example.annotatedClass .framework).resolver
      { skipJunit4 := true } = [] := by
  obtain ⟨hscan, hlisted, hfilter⟩ := ownerListed_and_junit4Exact Example.built_annotatedClass
    (Index.build Example.annotatedClass .framework).resolver {}
  obtain ⟨-, -, d, hd, hmem⟩ := hlisted 10 _ Example.mem_reports_annotatedClass
  obtain rfl : d = 3 := Option.some.inj (hd.symm.trans (by decide +kernel))
  refine ⟨Example.built_annotatedClass, hmem, ?_, ?_⟩
  · rw [hscan]
    exact List.mem_map_of_mem Example.mem_reports_annotatedClass
  · -- the test is the only call, and the class around it is annotated
    have hcalls : ∀ c ∈ Example.annotatedClass.calls,
        (Example.annotatedClass.view.enclosingClass? c).any (isJunit4 Example.annotatedClass.view
          (Index.build Example.annotatedClass .framework).resolver) = true := by
      decide +kernel
    rw [hfilter, List.map_eq_nil_iff, List.filter_eq_nil_iff]
    rintro ⟨call, f⟩ hf
    rw [hcalls call (mem_reports_iff.mp hf).1]
    exact Bool.false_ne_true

end SpecOutline.Suite
