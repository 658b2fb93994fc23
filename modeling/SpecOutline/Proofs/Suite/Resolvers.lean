/-
# One tree under two resolvers

A scan learns three things from its resolver: the functions that bare names refer to, what type
names as written mean, and which spec class a node declares.  A resolver `Extends` another if the
two agree on types and spec classes, and it keeps every function that the other finds.

* A call that passes a check passes it under the extension too, and with the same answer.  So a
  path stays as it is (`Extends.pathOf`), and a scan is a sublist of the scan under the extension
  (`Extends.scan_sublist`): blocks may come in between, none goes.
* Functions at the end of a library never come before those that were there
  (`Index.libraryFunction?_merge`), so a library with more of them gives an extension.
* The scope of an index is written into its class symbols, and all that it decides there is whether
  the marker class is visible (`specName?_withScope`).  From a scope that sees the marker class the
  index extends, and is extended by, the index that looks names up from anywhere; from any other
  scope no class is a spec class.
-/
import SpecOutline.Proofs.Suite.Nesting
import SpecOutline.Proofs.Suite.Owners
import SpecOutline.Proofs.Symbol.Declarations

namespace SpecOutline

/-! ## 1. Extensions -/

namespace Suite

/-- `r'` agrees with `r` on types and spec classes, and finds the functions that `r` finds. -/
structure Extends (r r' : Resolver) : Prop where
  functionOf? : ∀ id f, r.functionOf? id = some f → r'.functionOf? id = some f
  typeNamed? : ∀ id written, r'.typeNamed? id written = r.typeNamed? id written
  specName? : ∀ id, specName? r' id = specName? r id

namespace Extends

variable {r r' : Resolver} (h : Extends r r') {v : View} {t : Tree} {call id : NodeId}
include h

theorem calledFunction? {f : FunctionSymbol} (hf : calledFunction? v r call = some f) :
    Suite.calledFunction? v r' call = some f := by
  obtain ⟨callee, hc, hf⟩ := Option.bind_eq_some_iff.mp hf
  exact Option.bind_eq_some_iff.mpr ⟨callee, hc, h.functionOf? callee f hf⟩

/-- A block stays the block it is. -/
theorem block? {b : Block} (hb : block? v r call = some b) : Suite.block? v r' call = some b := by
  obtain ⟨hl, f, hf, hrest⟩ := block?_eq_some_iff.mp hb
  exact block?_eq_some_iff.mpr ⟨hl, f, h.calledFunction? hf, hrest⟩

/-- A call without a fault stays so, and contributes the same segment. -/
theorem segment?_of_fault?_none (hf : fault? v r call = none) :
    fault? v r' call = none ∧ segment? v r' call = segment? v r call := by
  obtain ⟨hl, hcalled, hd⟩ := fault?_eq_none_iff.mp hf
  obtain ⟨f, hcalled⟩ := Option.isSome_iff_exists.mp hcalled
  have hcalled' := h.calledFunction? hcalled
  refine ⟨fault?_eq_none_iff.mpr ⟨hl, Option.isSome_iff_exists.mpr ⟨f, hcalled'⟩, hd⟩, ?_⟩
  rw [segment?, segment?, hcalled, hcalled']

/-- The owners have the same names. -/
theorem map_owner? (v : View) (id : NodeId) :
    (owner? v r' id).map (·.qualifiedName) = (owner? v r id).map (·.qualifiedName) := by
  rw [Suite.map_owner?, Suite.map_owner?]
  exact congrArg _ (funext h.specName?)

/-- **A path stays as it is.** -/
theorem pathOf (hv : v.Grounded) {p : Path} (hp : pathOf v r call = .ok p) :
    Suite.pathOf v r' call = .ok p := by
  obtain ⟨hblock, hsound, hlen, spec, howner, hname, hm⟩ := (pathOf_eq_ok_iff hv).mp hp
  obtain ⟨b, hb⟩ := Option.isSome_iff_exists.mp hblock
  have hnames : (owner? v r' call).map (·.qualifiedName) = some spec.qualifiedName := by
    rw [h.map_owner?, howner]
    rfl
  obtain ⟨spec', howner', hname'⟩ := Option.map_eq_some_iff.mp hnames
  refine (pathOf_eq_ok_iff hv).mpr ⟨Option.isSome_iff_exists.mpr ⟨b, h.block? hb⟩,
    fun c hc => (h.segment?_of_fault?_none (hsound c hc)).1, hlen, spec', howner',
    hname.trans hname'.symm, ?_⟩
  rw [← hm]
  exact List.map_congr_left fun c hc => (h.segment?_of_fault?_none (hsound c hc)).2

/-- The same classes are run by JUnit 4. -/
theorem isJunit4 (v : View) (id : NodeId) : isJunit4 v r' id = Suite.isJunit4 v r id := by
  have hrun : isRunWith v r' = isRunWith v r := by
    funext child
    simp only [isRunWith, h.typeNamed?]
  rw [Suite.isJunit4, Suite.isJunit4, hrun]

/-- What a call contributes, it still contributes. -/
theorem findingOf? (ht : t.Linked) {options : Options} {f : Finding}
    (hf : findingOf? t r options call = some f) :
    Suite.findingOf? t r' options call = some f := by
  obtain ⟨hskip, hp, hspan⟩ := (findingOf?_eq_some_iff ht).mp hf
  refine (findingOf?_eq_some_iff ht).mpr ⟨?_, h.pathOf ht.grounded hp, hspan⟩
  rw [inJunit4Class, show Suite.isJunit4 t.view r' = _ from funext (h.isJunit4 t.view)]
  exact hskip

/-- **A scan is a sublist of the scan under an extension.** -/
theorem scan_sublist (ht : t.Linked) (options : Options) :
    (scan t r options).Sublist (scan t r' options) := by
  -- the calls that contribute are some of all the calls, and contribute the same
  have heq : scan t r options = (t.calls.filter fun call =>
      (Suite.findingOf? t r options call).isSome).filterMap (Suite.findingOf? t r' options) := by
    rw [scan, List.filterMap_filter]
    refine List.filterMap_congr fun call _ => ?_
    cases hf : Suite.findingOf? t r options call with
    | none => rfl
    | some f => exact (h.findingOf? ht hf).symm
  rw [heq, scan]
  exact List.filter_sublist.filterMap _

/-- The spec classes stay the same. -/
theorem scanSpecs_eq (t : Tree) (options : Options) :
    scanSpecs t r' options = scanSpecs t r options := by
  refine List.filterMap_congr fun id _ => ?_
  rw [specFinding?_eq, specFinding?_eq, h.isJunit4, h.specName?]

end Extends

/-- Resolvers that extend each other give the same scan. -/
theorem scan_eq_of_extends {r r' : Resolver} {t : Tree} (ht : t.Linked) (h : Extends r r')
    (h' : Extends r' r) (options : Options) : scan t r' options = scan t r options :=
  (h'.scan_sublist ht options).antisymm (h.scan_sublist ht options)

end Suite

/-! ## 2. More library functions -/

namespace Index

variable {m : Library}

/-- The index with the functions of another library. -/
def withLibrary (x : Index) (library : Library) : Index := { x with library }

/-- Without new types, only the functions of the library change. -/
theorem build_merge (t : Tree) (l : Library) (hm : m.types = []) :
    build t (l.merge m) = (build t l).withLibrary (l.merge m) := by
  have htypes : (l.merge m).types = l.types := by rw [Library.merge, hm, List.append_nil]
  simp only [build, withLibrary, TypeNames.of, typeTable, htypes]

/-- **The functions of a library come before those merged into it.** -/
theorem libraryFunction?_merge (x : Index) (l m : Library) (name : String) :
    (x.withLibrary (l.merge m)).libraryFunction? name =
      ((x.withLibrary l).libraryFunction? name).or
        ((x.withLibrary m).libraryFunction? name) := by
  have haliased : ∀ library, (x.withLibrary library).aliased? name = x.aliased? name :=
    fun _ => rfl
  have havailable : ∀ library, (x.withLibrary library).isAvailable = x.isAvailable :=
    fun _ => rfl
  simp only [libraryFunction?, haliased, havailable]
  cases x.aliased? name with
  | some path => exact List.find?_append
  | none =>
    have hnamed : (l.merge m).functionsNamed name =
        l.functionsNamed name ++ m.functionsNamed name := List.filter_append ..
    simp only [withLibrary, hnamed]
    exact List.find?_append

/-- A function that is found is found with more functions in the library, too. -/
theorem functionOf?_merge {x : Index} {l : Library} {id : NodeId} {f : FunctionSymbol}
    (hf : (x.withLibrary l).functionOf? id = some f) (m : Library) :
    (x.withLibrary (l.merge m)).functionOf? id = some f := by
  have hkind : ∀ library, (x.withLibrary library).tree.kind? id = x.tree.kind? id :=
    fun _ => rfl
  rw [functionOf?, hkind] at hf ⊢
  split at hf
  · next name _ =>
    -- what the old library gave stands before what the new functions may give
    rw [libraryFunction?_merge, Option.map_or, ← Option.or_assoc]
    exact Option.or_eq_some_iff.mpr (Or.inl hf)
  · cases hf

/-- **More functions in the library give an extension.** -/
theorem extends_merge (t : Tree) (l : Library) (hm : m.types = []) :
    Suite.Extends (build t l).resolver (build t (l.merge m)).resolver := by
  rw [build_merge t l hm]
  exact ⟨fun _ _ hf => functionOf?_merge (x := build t l) (l := l) hf m, fun _ _ => rfl,
    fun _ => rfl⟩

end Index

namespace Suite

/-- **More functions in the library lose and change nothing.**  In every tree that steps have
built, what a scan lists against a library is a sublist of what it lists against the library with
any more functions at its end: the same paths and spans in the same order, with others in
between. -/
theorem scanTree_sublist_merge {t : Tree} (ht : t.Built) (l : Library) {m : Library}
    (hm : m.types = []) (options : Options) :
    (scanTree t l options).Sublist (scanTree t (l.merge m) options) := by
  have h := Index.extends_merge t l hm
  rw [scanTree, scanTree, h.scanSpecs_eq t options]
  exact (List.Sublist.refl _).append (h.scan_sublist ht.linked options)

namespace Example

/-- The framework without the functions that open tests. -/
def groupsOnly : Library :=
  { types := Library.framework.types, functions := Library.framework.functions.take 8 }

/-- The functions that open tests. -/
def testsOnly : Library := { functions := Library.framework.functions.drop 8 }

theorem groupsOnly_merge : groupsOnly.merge testsOnly = .framework := by decide +kernel

/-- The path of the group. -/
def groupPath : Path := ⟨[⟨.group, "describe a"⟩], "com.example.FooSpec"⟩

/-- The group has its path against every library that knows the marker class and the function. -/
theorem pathOf_group {library : Library}
    (hclass : knowsFooSpec (Index.build testInGroup library) = true)
    (hblock : block? testInGroup.view (Index.build testInGroup library).resolver 10 =
      some { kind := .group, function := "describe", description := "a" }) :
    pathOf testInGroup.view (Index.build testInGroup library).resolver 10 = .ok groupPath :=
  pathOf_of_outerCall?_none built_testInGroup.linked.grounded hblock (by decide +kernel)
    (owner?_fooSpec (by decide +kernel) hclass)

theorem pathOf_groupsOnly :
    pathOf testInGroup.view (Index.build testInGroup groupsOnly).resolver 10 = .ok groupPath :=
  pathOf_group (by decide +kernel) (by decide +kernel)

end Example

/-- With the test functions, the test comes behind its group. -/
theorem scanTree_sublist_testsOnly :
    Example.testInGroup.Built ∧ Example.testsOnly.types = [] ∧
    (scanTree Example.testInGroup Example.groupsOnly {}).Sublist
      (scanTree Example.testInGroup (Example.groupsOnly.merge Example.testsOnly) {}) ∧
    { path := Example.groupPath, span := Example.testInGroup.span 10 } ∈
        scanTree Example.testInGroup Example.groupsOnly {} ∧
    { path := ⟨[⟨.test, "it b"⟩, ⟨.group, "describe a"⟩], "com.example.FooSpec"⟩,
      span := Example.testInGroup.span 18 } ∈
        scanTree Example.testInGroup (Example.groupsOnly.merge Example.testsOnly) {} := by
  have ht := Example.built_testInGroup
  refine ⟨ht, rfl, scanTree_sublist_merge ht Example.groupsOnly rfl {}, ?_, ?_⟩
  · exact reported_of_pathOf ht.linked (by decide +kernel) Example.pathOf_groupsOnly
  · rw [Example.groupsOnly_merge]
    exact reported_of_pathOf ht.linked (by decide +kernel) Example.pathOf_testInGroup

/-! ## 3. Scopes -/

/-- Whether the marker class is visible from a scope. -/
def seesMarker (x : Index) (scope : Scope) : Bool :=
  (x.types.find? marker).any fun entry => scope.sees entry.modules

/-- What is visible from some scope is visible from anywhere. -/
theorem seesMarker_project {x : Index} {scope : Scope} (h : seesMarker x scope = true) :
    seesMarker x .project = true := by
  obtain ⟨entry, hfind, -⟩ := (Option.any_eq_true _ _).mp h
  exact (Option.any_eq_true _ _).mpr ⟨entry, hfind, rfl⟩

/-- **All that the scope of a class decides** is whether the marker class is visible. -/
theorem isSpec_eq (x : Index) (c : ClassSymbol) :
    isSpec x.resolver c = (seesMarker x c.scope &&
      (!c.isAbstract && x.types.inherits c.qualifiedName marker)) := by
  rw [Bool.eq_iff_iff, isSpec_iff, seesMarker, Bool.and_eq_true, Option.any_eq_true,
    Bool.and_eq_true, Bool.not_eq_true']
  exact and_left_comm

section Scope

variable (t : Tree) (library : Library)

/-- A node declares the same spec class, or none, from all scopes that see the marker class. -/
theorem exists_specName?_withScope (id : NodeId) :
    ∃ name?, ∀ scope, specName? ((Index.build t library).withScope scope).resolver id =
      if seesMarker (Index.build t library) scope then name? else none := by
  by_cases hid : id ∈ t.classes
  · obtain ⟨last, hlast, hname⟩ := Tree.exists_isLastOfName hid
    obtain ⟨head, hhead⟩ := Tree.exists_classHead? hlast.mem_classes
    -- the class is found from every scope, and its symbol says from which
    have hclass := fun scope =>
      Index.classOf?_of_isLastOfName library scope hid hlast hname hhead
    obtain ⟨isBelow, hspec⟩ : ∃ isBelow : Bool, ∀ scope,
        isSpec ((Index.build t library).withScope scope).resolver
          { qualifiedName := t.qualifiedName id,
            isAbstract := head.isAbstract || head.isInterface, scope,
            declaration? := some last } =
          (seesMarker (Index.build t library) scope && isBelow) :=
      ⟨!(head.isAbstract || head.isInterface) &&
        (Index.build t library).types.inherits (t.qualifiedName id) marker,
        fun scope => isSpec_eq ((Index.build t library).withScope scope) _⟩
    refine ⟨if isBelow then some (t.qualifiedName id) else none, fun scope => ?_⟩
    rw [specName?, Index.classOf?_resolver, hclass scope, Option.filter_some, hspec scope]
    cases seesMarker (Index.build t library) scope <;> cases isBelow <;> rfl
  · refine ⟨none, fun scope => ?_⟩
    have hnone : ((Index.build t library).withScope scope).classOf? id = none := by
      rw [Index.classOf?, Index.names_withScope, Index.names_build, Index.lookup_classes,
        if_neg hid, Option.bind_none]
    rw [specName?, Index.classOf?_resolver, hnone, ite_self]
    rfl

/-- **What a scope changes**: from a scope that sees the marker class a node declares the spec class
that it declares from anywhere, and from any other scope none. -/
theorem specName?_withScope (scope : Scope) (id : NodeId) :
    specName? ((Index.build t library).withScope scope).resolver id =
      if seesMarker (Index.build t library) scope then
        specName? ((Index.build t library).withScope .project).resolver id
      else none := by
  obtain ⟨name?, hname⟩ := exists_specName?_withScope t library id
  rw [hname, hname]
  split
  · next h => rw [if_pos (seesMarker_project h)]
  · rfl

variable {t library} {scope : Scope}

/-- From a scope that sees the marker class, the two indexes extend each other. -/
theorem extends_withScope (h : seesMarker (Index.build t library) scope = true) :
    Extends ((Index.build t library).withScope .project).resolver
        ((Index.build t library).withScope scope).resolver ∧
      Extends ((Index.build t library).withScope scope).resolver
        ((Index.build t library).withScope .project).resolver := by
  have hname : ∀ id, specName? ((Index.build t library).withScope scope).resolver id =
      specName? ((Index.build t library).withScope .project).resolver id := by
    intro id
    rw [specName?_withScope, if_pos h]
  exact ⟨⟨fun _ _ hf => hf, fun _ _ => rfl, hname⟩,
    ⟨fun _ _ hf => hf, fun _ _ => rfl, fun id => (hname id).symm⟩⟩

end Scope

/-- Where no node declares a spec class, a scan lists nothing. -/
theorem scan_eq_nil {t : Tree} (ht : t.Linked) {r : Resolver} (h : ∀ id, specName? r id = none)
    (options : Options) : scan t r options = [] ∧ scanSpecs t r options = [] := by
  rw [scan, List.filterMap_eq_nil_iff, scanSpecs, List.filterMap_eq_nil_iff]
  constructor
  · intro call _
    rw [Option.eq_none_iff_forall_ne_some]
    intro f hf
    obtain ⟨-, hp, -⟩ := (findingOf?_eq_some_iff ht).mp hf
    obtain ⟨d, -, hname⟩ := specName?_of_pathOf ht.grounded hp
    rw [h d] at hname
    cases hname
  · intro id _
    rw [specFinding?_eq, h id, Option.map_none, ite_self]

/-- **A module sees all of a suite or nothing of it**, in every tree that steps have built and for
every library.  Scans that look names up from a module list exactly what they list from anywhere, if
the index has an entry for the marker class that is unrestricted or lists the module; and otherwise
they list nothing. -/
theorem scan_inModule {t : Tree} (ht : t.Built) (library : Library) (m : String)
    (options : Options) :
    let x := Index.build t library
    let visible := (x.types.find? marker).any fun entry =>
      entry.modules.isEmpty || entry.modules.contains m
    scan t (x.withScope (.inModule m)).resolver options =
        (if visible then scan t (x.withScope .project).resolver options else []) ∧
      scanSpecs t (x.withScope (.inModule m)).resolver options =
        (if visible then scanSpecs t (x.withScope .project).resolver options else []) := by
  intro x visible
  have hvisible : visible = seesMarker x (.inModule m) := rfl
  rw [hvisible]
  cases hsees : seesMarker x (.inModule m) with
  | true =>
    obtain ⟨h, h'⟩ := extends_withScope hsees
    exact ⟨scan_eq_of_extends ht.linked h h' options, h.scanSpecs_eq t options⟩
  | false =>
    refine scan_eq_nil ht.linked (fun id => ?_) options
    rw [specName?_withScope, hsees]
    rfl

namespace Example

/-- The functions of the framework, and its marker class for one module only. -/
def forMain : Library :=
  { types := [{ qualifiedName := marker, isAbstract := true, modules := ["main"] }]
    functions := Library.framework.functions }

theorem pathOf_forMain :
    pathOf testInGroup.view (Index.build testInGroup forMain).resolver 10 = .ok groupPath :=
  pathOf_group (by decide +kernel) (by decide +kernel)

end Example

/-- The group is listed from the module that the marker class is for, and nothing from another. -/
theorem scan_inModule_forMain :
    Example.testInGroup.Built ∧
    { path := Example.groupPath, span := Example.testInGroup.span 10 } ∈ scan Example.testInGroup
        ((Index.build Example.testInGroup Example.forMain).withScope
          (.inModule "main")).resolver {} ∧
    scan Example.testInGroup ((Index.build Example.testInGroup Example.forMain).withScope
      (.inModule "other")).resolver {} = [] := by
  have ht := Example.built_testInGroup
  have hmain := (scan_inModule ht Example.forMain "main" {}).1
  have hother := (scan_inModule ht Example.forMain "other" {}).1
  refine ⟨ht, ?_, hother.trans (if_neg (by decide +kernel))⟩
  rw [hmain, if_pos (by decide +kernel)]
  exact reported_of_pathOf ht.linked (by decide +kernel) Example.pathOf_forMain

end Suite

end SpecOutline
