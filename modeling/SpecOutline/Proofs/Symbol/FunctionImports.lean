/-
# Which import a function name comes by

Types are looked up import by import: what an import binds a name to comes before the types of the
file's package and of star imports.  Functions are looked up in the library instead, in its order,
and each is asked whether anything makes it visible: the package of the file, a star import, or
another import, one that binds its name.  Only an alias is looked up before that.

So a function that the package or a star import makes visible can come before the one that an import
binds the name to, and it comes to bear even if the library does not know the other one
(`Index.Overtakes`).  This is the only way for a name to mean a library function that no import
binds it to, where there are imports that bind it (`Index.functionOf?_bound_iff`).
-/
import SpecOutline.Proofs.Symbol.Shadowing

namespace SpecOutline

/-! ## 1. Imports -/

namespace Tree

/-- An import that is no star import binds a name to a path. -/
def BindsTo (t : Tree) (name path : String) : Prop :=
  ∃ i ∈ t.imports, i.boundName? = some name ∧ i.path = path

instance (t : Tree) (name path : String) : Decidable (t.BindsTo name path) :=
  inferInstanceAs (Decidable (∃ i ∈ t.imports, i.boundName? = some name ∧ i.path = path))

/-- All functions of a package are visible: it is the file's own, or a star import names it. -/
def Opens (t : Tree) (package : String) : Prop :=
  t.package?.getD "" = package ∨ ∃ i ∈ t.imports, i.star = true ∧ i.path = package

/-- A library function is visible under a name that it has: its package is open, or an import binds
the name to it. -/
def Shows (t : Tree) (name : String) (f : LibraryFunction) : Prop :=
  f.name = name ∧ (t.Opens f.package ∨ t.BindsTo name f.qualifiedName)

end Tree

namespace Index

variable {t : Tree} {library : Library} {reference : NodeId} {name path : String}
  {f : LibraryFunction}

/-- What the index takes for visible. -/
theorem isAvailable_iff : (build t library).isAvailable f = true ↔ t.Shows f.name f := by
  have himports : (build t library).tree.imports = t.imports := rfl
  have hpackage : (build t library).tree.package? = t.package? := rfl
  rw [isAvailable, himports, hpackage, Bool.or_eq_true, beq_iff_eq, List.any_eq_true, Tree.Shows,
    and_iff_right rfl, Tree.Opens, Tree.BindsTo, or_assoc]
  refine or_congr_right ⟨?_, ?_⟩
  · rintro ⟨i, hi, hvisible⟩
    split at hvisible
    · next hstar => exact .inl ⟨i, hi, hstar, beq_iff_eq.mp hvisible⟩
    · rw [Bool.and_eq_true, beq_iff_eq, beq_iff_eq] at hvisible
      exact .inr ⟨i, hi, hvisible.2, hvisible.1⟩
  · rintro (⟨i, hi, hstar, hpath⟩ | ⟨i, hi, hbound, hpath⟩)
    · exact ⟨i, hi, by simp [hstar, hpath]⟩
    · have hstar : i.star = false := by
        cases hs : i.star with
        | false => rfl
        | true => simp [Import.boundName?, hs] at hbound
      exact ⟨i, hi, by simp [hstar, hbound, hpath]⟩

/-- An alias binds its name. -/
theorem bindsTo_of_aliased? (h : (build t library).aliased? name = some path) :
    t.BindsTo name path := by
  obtain ⟨i, hfind, rfl⟩ := Option.map_eq_some_iff.mp h
  have hi : i ∈ t.imports := List.mem_of_find?_eq_some hfind
  have halias := List.find?_some hfind
  rw [Bool.and_eq_true, Bool.not_eq_true', beq_iff_eq] at halias
  exact ⟨i, hi, by simp [Import.boundName?, halias.1, halias.2], rfl⟩

theorem aliased?_eq_none_iff :
    (build t library).aliased? name = none ↔
      ∀ i ∈ t.imports, i.star = false → i.alias? ≠ some name := by
  rw [aliased?, Option.map_eq_none_iff, List.find?_eq_none]
  refine forall₂_congr fun i _ => ?_
  rw [Bool.and_eq_true, Bool.not_eq_true', beq_iff_eq, not_and]

/-! ## 2. Which function comes first -/

/-- A function of the library comes before all that imports bind the name to: there is no alias of
that name, the function is visible under it though no import binds the name to the function, and
nothing before it in the library is visible under the name. -/
structure Overtakes (t : Tree) (library : Library) (name : String) (f : LibraryFunction) :
    Prop where
  no_alias : ∀ i ∈ t.imports, i.star = false → i.alias? ≠ some name
  shown : t.Shows name f
  unbound : ¬ t.BindsTo name f.qualifiedName
  first : ∃ before after, library.functions = before ++ f :: after ∧
    ∀ g ∈ before, ¬ t.Shows name g

/-- Without an alias, a name means the first function of the library that is visible under it. -/
theorem libraryFunction?_eq_some_iff (halias : (build t library).aliased? name = none) :
    (build t library).libraryFunction? name = some f ↔
      t.Shows name f ∧ ∃ before after, library.functions = before ++ f :: after ∧
        ∀ g ∈ before, ¬ t.Shows name g := by
  have hshown : ∀ g : LibraryFunction,
      decide ((g.name == name) = true ∧ (build t library).isAvailable g = true) = true ↔
        t.Shows name g := by
    intro g
    rw [decide_eq_true_iff, isAvailable_iff, beq_iff_eq]
    constructor
    · rintro ⟨rfl, h⟩
      exact h
    · rintro ⟨rfl, h⟩
      exact ⟨rfl, rfl, h⟩
  rw [libraryFunction?, halias]
  change (library.functionsNamed name).find? _ = some f ↔ _
  rw [Library.functionsNamed, List.find?_filter, List.find?_eq_some_iff_append]
  simp only [hshown, Bool.not_eq_true', ← Bool.not_eq_true]

/-- **A library function that no import binds the name to is one that overtakes.** -/
theorem libraryFunction?_unbound_iff :
    (build t library).libraryFunction? name = some f ∧ ¬ t.BindsTo name f.qualifiedName ↔
      Overtakes t library name f := by
  cases halias : (build t library).aliased? name with
  | some path =>
    -- an alias admits only what it is bound to
    refine iff_of_false ?_ fun h => ?_
    · rintro ⟨hf, hunbound⟩
      simp only [libraryFunction?, halias] at hf
      have hpath := List.find?_some hf
      rw [beq_iff_eq] at hpath
      exact hunbound (hpath ▸ bindsTo_of_aliased? halias)
    · rw [aliased?_eq_none_iff.mpr h.no_alias] at halias
      cases halias
  | none =>
    rw [libraryFunction?_eq_some_iff halias]
    constructor
    · rintro ⟨⟨hshown, hfirst⟩, hunbound⟩
      exact ⟨aliased?_eq_none_iff.mp halias, hshown, hunbound, hfirst⟩
    · rintro ⟨-, hshown, hunbound, hfirst⟩
      exact ⟨⟨hshown, hfirst⟩, hunbound⟩

/-- **When a name means what imports bind it to**, for every tree, library and node with a name that
no function of the file in reach has.  The name means nothing or a function of the library that
some import binds it to, exactly if no function of the library overtakes those; and what overtakes
is what the name means. -/
theorem functionOf?_bound_iff (t : Tree) (library : Library) {reference : NodeId} {name : String}
    (hr : t.kind? reference = some (.nameRef name)) (hnone : t.inReach reference name = []) :
    ((build t library).functionOf? reference = none ∨
        (∃ f ∈ library.functions,
          (build t library).functionOf? reference = some (librarySymbol f) ∧
            t.BindsTo name f.qualifiedName) ↔
      ¬ ∃ f, Overtakes t library name f) ∧
    ∀ f, Overtakes t library name f →
      (build t library).functionOf? reference = some (librarySymbol f) := by
  rw [functionOf?_of_inReach_nil library hr hnone]
  have hmeans : ∀ f, Overtakes t library name f →
      ((build t library).libraryFunction? name).map librarySymbol = some (librarySymbol f) := by
    intro f hf
    rw [(libraryFunction?_unbound_iff.mpr hf).1]
    rfl
  refine ⟨⟨?_, ?_⟩, hmeans⟩
  · rintro hbound ⟨f, hf⟩
    rw [hmeans f hf] at hbound
    rcases hbound with h | ⟨g, -, h, hbinds⟩
    · cases h
    · have hname : f.qualifiedName = g.qualifiedName :=
        congrArg FunctionSymbol.qualifiedName (Option.some.inj h)
      exact hf.unbound (hname ▸ hbinds)
  · intro hnot
    cases hf : (build t library).libraryFunction? name with
    | none => exact .inl rfl
    | some f =>
      refine .inr ⟨f, mem_of_libraryFunction? hf, rfl, ?_⟩
      by_contra hunbound
      exact hnot ⟨f, libraryFunction?_unbound_iff.mp ⟨hf, hunbound⟩⟩

namespace Example

/-- A file that imports a function `describe` and, with a star import, the vocabulary; at place 4
stands the name `describe`. -/
def twoDescribes : Tree :=
  (Tree.inPackage none).afterAll
    [.addImport { path := "com.acme.describe" },
      .addImport { path := "org.jetbrains.spek.api.dsl", star := true },
      .addCall Tree.root "describe"]

theorem built_twoDescribes : twoDescribes.Built :=
  (Tree.Built.inPackage none).afterAll (by decide)

/-- The framework behind a library with the imported function. -/
def acmeFirst : Library :=
  Library.merge { functions := [{ qualifiedName := "com.acme.describe" }] } .framework

end Example

/-- **A star import can come before an import of the name**: the file imports `com.acme.describe`,
and the name means the function of the framework, which no import binds it to. -/
theorem functionOf?_twoDescribes_overtaken :
    Example.twoDescribes.Built ∧ Example.twoDescribes.kind? 4 = some (.nameRef "describe") ∧
    Example.twoDescribes.inReach 4 "describe" = [] ∧
    Example.twoDescribes.BindsTo "describe" "com.acme.describe" ∧
    (build Example.twoDescribes .framework).functionOf? 4 =
      some { name := "describe", qualifiedName := "org.jetbrains.spek.api.dsl.describe",
             receiver? := some (.user "SpecBody") } ∧
    ¬ Example.twoDescribes.BindsTo "describe" "org.jetbrains.spek.api.dsl.describe" :=
  ⟨Example.built_twoDescribes, by decide +kernel, by decide +kernel, by decide +kernel,
    by decide +kernel, by decide +kernel⟩

/-- With the imported function at the front of the library, nothing overtakes it. -/
theorem functionOf?_twoDescribes_bound :
    Example.twoDescribes.kind? 4 = some (.nameRef "describe") ∧
    Example.twoDescribes.inReach 4 "describe" = [] ∧
    (build Example.twoDescribes Example.acmeFirst).functionOf? 4 =
      some { name := "describe", qualifiedName := "com.acme.describe" } ∧
    ¬ ∃ f, Overtakes Example.twoDescribes Example.acmeFirst "describe" f := by
  have hkind : Example.twoDescribes.kind? 4 = some (.nameRef "describe") := by decide +kernel
  have hreach : Example.twoDescribes.inReach 4 "describe" = [] := by decide +kernel
  have hbound : (build Example.twoDescribes Example.acmeFirst).functionOf? 4 =
      some (librarySymbol { qualifiedName := "com.acme.describe" }) := by decide +kernel
  obtain ⟨hiff, -⟩ := functionOf?_bound_iff Example.twoDescribes Example.acmeFirst hkind hreach
  refine ⟨hkind, hreach, by decide +kernel, hiff.mp (.inr ⟨_, List.mem_cons_self, hbound, ?_⟩)⟩
  decide +kernel

end Index

end SpecOutline
