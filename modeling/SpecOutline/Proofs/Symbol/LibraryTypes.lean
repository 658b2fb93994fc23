/-
# Which declaration of a library type counts

A library is a list of declarations and merging appends, so it may declare a type more than once.
Asked for a name, the library itself answers with the first declaration (`Library.findType?`).  The
index enters all of them into one table, where a later entry takes the place of an earlier one; so
it answers with the last (`Library.lastType?`, `Index.find?_eq_lastType?`).

Both know the same names.  They tell the same of a name that no class of the file has exactly if the
first and the last declaration are alike: equally abstract and with the same direct supertypes
(`Index.findClass?_mirrors_iff`).
-/
import SpecOutline.Library.Framework
import SpecOutline.Proofs.Symbol.Declarations

namespace SpecOutline

/-! ## 1. First and last declarations -/

/-- Two declarations of a type tell the same: both are abstract or neither is, and they have the
same direct supertypes, the type itself apart. -/
structure LibraryType.Alike (s t : LibraryType) : Prop where
  isAbstract : s.isAbstract = t.isAbstract
  supertypes : ∀ base, base ≠ s.qualifiedName → (base ∈ s.supertypes ↔ base ∈ t.supertypes)

namespace Library

variable {library : Library} {name : String} {type : LibraryType}

/-- The last type with a qualified name. -/
def lastType? (l : Library) (qualifiedName : String) : Option LibraryType :=
  l.types.reverse.find? fun t => t.qualifiedName == qualifiedName

theorem qualifiedName_of_findType? (h : library.findType? name = some type) :
    type.qualifiedName = name := by
  have hname := List.find?_some h
  rwa [beq_iff_eq] at hname

theorem qualifiedName_of_lastType? (h : library.lastType? name = some type) :
    type.qualifiedName = name := by
  have hname := List.find?_some h
  rwa [beq_iff_eq] at hname

/-- There is a last declaration exactly if there is a first. -/
theorem isSome_lastType? (library : Library) (name : String) :
    (library.lastType? name).isSome = (library.findType? name).isSome := by
  rw [Bool.eq_iff_iff, lastType?, findType?, List.find?_isSome, List.find?_isSome]
  simp only [List.mem_reverse]

/-- **Merging adds to what the library answers**, and never changes an answer. -/
theorem findType?_merge (library other : Library) (name : String) :
    (library.merge other).findType? name =
      (library.findType? name).or (other.findType? name) := by
  rw [findType?, merge, List.find?_append]
  rfl

/-- **Merging overrides last declarations.** -/
theorem lastType?_merge (library other : Library) (name : String) :
    (library.merge other).lastType? name =
      (other.lastType? name).or (library.lastType? name) := by
  rw [lastType?, merge, List.reverse_append, List.find?_append]
  rfl

end Library

/-! ## 2. The table of the index -/

namespace Index

variable {t : Tree} {library : Library} {name : String} {c : ClassSymbol}
  {first last : LibraryType}

/-- The entry under a name, among those of some types, is that of the first type of that name. -/
theorem lookup_map_libraryEntry (types : List LibraryType) (name : String) :
    (types.map libraryEntry).lookup name =
      (types.find? fun t => t.qualifiedName == name).map fun t => (libraryEntry t).2 := by
  induction types with
  | nil => rfl
  | cons type types ih =>
    rw [List.map_cons, libraryEntry, List.lookup_cons, List.find?_cons, ih, BEq.comm]
    cases type.qualifiedName == name <;> rfl

/-- **The last declaration of the library decides the entry of a name** that no class of the file
has. -/
theorem find?_eq_lastType? (h : ∀ id ∈ t.classes, t.qualifiedName id ≠ name) :
    (build t library).types.find? name =
      (library.lastType? name).map fun type => (libraryEntry type).2 := by
  rw [find?_of_forall_ne library h, ← List.map_reverse, lookup_map_libraryEntry]
  rfl

/-- A class of the index tells what a library type declares: whether it is abstract, and its direct
supertypes, itself apart. -/
structure Mirrors (x : Index) (c : ClassSymbol) (type : LibraryType) : Prop where
  isAbstract : c.isAbstract = type.isAbstract
  supertypes : ∀ base : ClassSymbol, x.inheritsDirectly c base = true ↔
    base.qualifiedName ≠ type.qualifiedName ∧ base.qualifiedName ∈ type.supertypes

/-- The class of a name tells what the last declaration of the name does. -/
theorem findClass?_of_lastType? (h : ∀ id ∈ t.classes, t.qualifiedName id ≠ name)
    (hlast : library.lastType? name = some last) :
    ∃ c, (build t library).findClass? name .project = some c ∧
      (build t library).Mirrors c last := by
  have hentry : (build t library).types.find? name = some (libraryEntry last).2 := by
    rw [find?_eq_lastType? h, hlast]
    rfl
  refine ⟨_, findClass?_eq_some_iff.mpr ⟨_, hentry, rfl, rfl⟩, rfl, fun base => ?_⟩
  rw [inheritsDirectly, TypeTable.inheritsDirectly, hentry, Bool.and_eq_true, bne_iff_ne, ne_comm,
    Library.qualifiedName_of_lastType? hlast]
  exact and_congr_right fun _ => List.contains_iff_mem

/-- A class that tells what one declaration of a name does tells what another does exactly if the
two are alike. -/
theorem Mirrors.iff_alike (h : (build t library).Mirrors c last)
    (hname : first.qualifiedName = last.qualifiedName) :
    (build t library).Mirrors c first ↔ first.Alike last := by
  constructor
  · intro hfirst
    refine ⟨hfirst.isAbstract.symm.trans h.isAbstract, fun base hbase => ?_⟩
    have hsame := (hfirst.supertypes ⟨base, false, .project, none⟩).symm.trans
      (h.supertypes ⟨base, false, .project, none⟩)
    rwa [hname, and_congr_right_iff, forall_prop_of_true (hname ▸ hbase)] at hsame
  · intro halike
    refine ⟨h.isAbstract.trans halike.isAbstract.symm, fun base => ?_⟩
    rw [h.supertypes base, hname]
    exact and_congr_right fun hbase => (halike.supertypes _ (hname ▸ hbase)).symm

/-- **What a library and the index tell of a type**, for every tree and library and every name that
no class of the file has.  The index finds a class of that name exactly if the library declares a
type of that name.  The class tells what the last declaration does; so it tells what the library
answers with, which is the first declaration, exactly if the two are alike.  A merge can add a first
declaration, but it replaces a last one. -/
theorem findClass?_mirrors_iff (t : Tree) (library : Library) {name : String}
    (h : ∀ id ∈ t.classes, t.qualifiedName id ≠ name) :
    (((build t library).findClass? name .project).isSome = (library.findType? name).isSome) ∧
    (∀ first, library.findType? name = some first →
      ∃ last c, library.lastType? name = some last ∧
        (build t library).findClass? name .project = some c ∧
        (build t library).Mirrors c last ∧
        ((build t library).Mirrors c first ↔ first.Alike last)) ∧
    ∀ other : Library,
      (library.merge other).findType? name =
        (library.findType? name).or (other.findType? name) ∧
      (library.merge other).lastType? name =
        (other.lastType? name).or (library.lastType? name) := by
  refine ⟨?_, ?_, fun other => ⟨Library.findType?_merge library other name,
    Library.lastType?_merge library other name⟩⟩
  · rw [← Library.isSome_lastType?]
    cases hlast : library.lastType? name with
    | none => rw [findClass?, find?_eq_lastType? h, hlast]; rfl
    | some last =>
      obtain ⟨c, hc, -⟩ := findClass?_of_lastType? h hlast
      rw [hc]
      rfl
  · intro first hfirst
    obtain ⟨last, hlast⟩ : ∃ last, library.lastType? name = some last := by
      rw [← Option.isSome_iff_exists, Library.isSome_lastType?, hfirst]
      rfl
    obtain ⟨c, hc, hmirrors⟩ := findClass?_of_lastType? h hlast
    have hname : first.qualifiedName = last.qualifiedName :=
      (Library.qualifiedName_of_findType? hfirst).trans
        (Library.qualifiedName_of_lastType? hlast).symm
    exact ⟨last, c, hlast, hc, hmirrors, hmirrors.iff_alike hname⟩

namespace Example

/-- A library that declares a type as abstract and below the marker class, merged into one that
declares it as a concrete type. -/
def redeclared : Library :=
  Library.merge { types := [{ qualifiedName := "com.acme.Suite" }] }
    { types := [{ qualifiedName := "com.acme.Suite",
                  supertypes := ["org.jetbrains.spek.api.Spek"], isAbstract := true }] }

/-- A type of the framework below the marker class. -/
def subjectSpek : LibraryType where
  qualifiedName := "org.jetbrains.spek.subject.SubjectSpek"
  supertypes := ["org.jetbrains.spek.api.Spek"]
  isAbstract := true

end Example

/-- **A merge can make the two answers differ**: the library says that the type is concrete and has
no supertypes, and the class of the index is abstract and below the marker class. -/
theorem findClass?_redeclared :
    (∀ id ∈ (Tree.inPackage none).classes,
      (Tree.inPackage none).qualifiedName id ≠ "com.acme.Suite") ∧
    Example.redeclared.findType? "com.acme.Suite" = some { qualifiedName := "com.acme.Suite" } ∧
    ∃ c, (build (.inPackage none) Example.redeclared).findClass? "com.acme.Suite" .project =
        some c ∧
      c.isAbstract = true ∧
      (build (.inPackage none) Example.redeclared).inheritsDirectly c
        { qualifiedName := "org.jetbrains.spek.api.Spek", isAbstract := true } = true :=
  ⟨by decide +kernel, by decide +kernel, { qualifiedName := "com.acme.Suite", isAbstract := true },
    by decide +kernel, rfl, by decide +kernel⟩

/-- The framework may be merged twice: what is declared again as it was is found as it was
declared. -/
theorem findClass?_framework_twice :
    (∀ id ∈ Example.twoLocals.classes,
      Example.twoLocals.qualifiedName id ≠ Example.subjectSpek.qualifiedName) ∧
    (Library.framework.merge .framework).findType? Example.subjectSpek.qualifiedName =
      some Example.subjectSpek ∧
    ∃ c, (build Example.twoLocals (Library.framework.merge .framework)).findClass?
        Example.subjectSpek.qualifiedName .project = some c ∧
      (build Example.twoLocals (Library.framework.merge .framework)).Mirrors c
        Example.subjectSpek := by
  have hfile : ∀ id ∈ Example.twoLocals.classes,
      Example.twoLocals.qualifiedName id ≠ Example.subjectSpek.qualifiedName := by
    decide +kernel
  have hfirst : (Library.framework.merge .framework).findType?
      Example.subjectSpek.qualifiedName = some Example.subjectSpek := by decide +kernel
  have hagain : (Library.framework.merge .framework).lastType?
      Example.subjectSpek.qualifiedName = some Example.subjectSpek := by decide +kernel
  obtain ⟨last, c, hlast, hc, -, hiff⟩ := (findClass?_mirrors_iff Example.twoLocals
    (Library.framework.merge .framework) hfile).2.1 Example.subjectSpek hfirst
  obtain rfl : Example.subjectSpek = last := Option.some.inj (hagain.symm.trans hlast)
  exact ⟨hfile, hfirst, c, hc, hiff.mpr ⟨rfl, fun _ _ => Iff.rfl⟩⟩

end Index

end SpecOutline
