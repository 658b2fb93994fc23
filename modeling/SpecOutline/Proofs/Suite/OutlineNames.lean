/-
# The names of a suite

In the file of a suite the marker class and the vocabulary are imported, one class is declared
and no function is.  So the index of the file and the framework is known.

* The class is called by its package and its name, and it is a spec class
  (`classOf?_declaration`, `isSpec_specSymbol`): its supertype means the marker class, as the name is
  imported, and the marker class is found, as the class of the suite does not hide it.
* The name of a block function means the function of the framework (`functionOf?_name`), as a
  star import makes all of the vocabulary visible and no alias is in the way.
-/
import SpecOutline.Library.Framework
import SpecOutline.Proofs.Suite.Outline
import SpecOutline.Proofs.Symbol.Supertypes
import SpecOutline.Suite.Block

namespace SpecOutline

/-! ## 1. Imports, classes and functions of the file -/

namespace Tree

/-- The imports of a file are those of its nodes. -/
theorem mem_imports {t : Tree} {i : Import} :
    i ∈ t.imports ↔ ∃ id, t.kind? id = some (.importing i) := by
  rw [imports, List.mem_filterMap]
  constructor
  · rintro ⟨node, hn, hk⟩
    obtain ⟨id, hid⟩ := List.mem_iff_getElem?.mp hn
    have hget : t.get? id = some node := by rw [get?, ← Array.getElem?_toList]; exact hid
    refine ⟨id, ?_⟩
    rw [kind?_of_get? hget]
    split at hk
    · next directive hkind => rw [hkind, Option.some.inj hk]
    · cases hk
  · rintro ⟨id, hid⟩
    obtain ⟨node, hn, hk⟩ := Option.map_eq_some_iff.mp hid
    refine ⟨node, List.mem_iff_getElem?.mpr ⟨id, ?_⟩, by rw [hk]⟩
    rw [Array.getElem?_toList]
    exact hn

end Tree

namespace Suite

open SpecOutline.Tree SpecOutline.Suite.Outline

/-- The name of a class in a package; no package is written as an empty one. -/
def suiteName (package className : String) : String :=
  if package = "" then className else package ++ "." ++ className

namespace SuiteAt

variable {t : Tree} {first second : NodeId} {p : ClassPlaces} {package className : String}
  {forest : List Outline}

/-- A condition that no plain kind meets holds of the first four nodes at most. -/
theorem mem_of_kind? (ht : t.Linked) (h : SuiteAt t first second p package className forest)
    {id : NodeId} {k : Kind} (hk : t.kind? id = some k) (hplain : isPlain k = false) :
    id ∈ [root, first, second, p.declaration] := by
  obtain ⟨node, hn, rfl⟩ := Option.map_eq_some_iff.mp hk
  have hmem : id ∈ t.descendants root := ht.mem_descendants_root (lt_size_of_get? hn)
  rw [h.descendants_root ht, ← List.singleton_append, List.append_assoc] at hmem
  have hsplit : id ∈ [root, first, second, p.declaration] ∨
      id ∈ [p.specifier, p.invocation, p.argument, p.lambda, p.literal, p.body] ++
        (t.children p.body).flatMap t.descendants :=
    List.mem_append.mp hmem
  refine hsplit.resolve_right fun htail => ?_
  have := h.plain_of_mem_tail ht id htail
  rw [kindIs_of_get? hn, hplain] at this
  exact Bool.false_ne_true this

theorem kind?_first (h : SuiteAt t first second p package className forest) :
    t.kind? first = some (.importing markerImport) := kind?_of_get? h.get_first

theorem kind?_second (h : SuiteAt t first second p package className forest) :
    t.kind? second = some (.importing vocabularyImport) := kind?_of_get? h.get_second

theorem kind?_declaration (h : SuiteAt t first second p package className forest) :
    t.kind? p.declaration = some (.classLike (suiteHead className)) :=
  kind?_of_get? h.spec.declaration

/-- **The file imports the marker class and the vocabulary, and nothing else.** -/
theorem mem_imports_iff (ht : t.Linked)
    (h : SuiteAt t first second p package className forest) {i : Import} :
    i ∈ t.imports ↔ i = markerImport ∨ i = vocabularyImport := by
  rw [mem_imports]
  constructor
  · rintro ⟨id, hid⟩
    have hmem := h.mem_of_kind? ht hid rfl
    simp only [List.mem_cons, List.not_mem_nil, or_false] at hmem
    rcases hmem with rfl | rfl | rfl | rfl
    · rw [h.file] at hid; cases hid
    · rw [h.kind?_first] at hid; cases hid; exact Or.inl rfl
    · rw [h.kind?_second] at hid; cases hid; exact Or.inr rfl
    · rw [h.kind?_declaration] at hid; cases hid
  · rintro (rfl | rfl)
    · exact ⟨first, h.kind?_first⟩
    · exact ⟨second, h.kind?_second⟩

/-- The file declares no function. -/
theorem findAll_isFunction (ht : t.Linked)
    (h : SuiteAt t first second p package className forest) :
    t.findAll Index.isFunction = [] := by
  rw [List.eq_nil_iff_forall_not_mem]
  intro id hid
  obtain ⟨k, hk, hf⟩ := ht.mem_findAll.mp hid
  have hplain : isPlain k = false := by
    cases k with
    | function head => rfl
    | _ => simp [Index.isFunction] at hf
  have hmem := h.mem_of_kind? ht hk hplain
  simp only [List.mem_cons, List.not_mem_nil, or_false] at hmem
  rcases hmem with rfl | rfl | rfl | rfl
  · rw [h.file] at hk; cases hk; simp [Index.isFunction] at hf
  · rw [h.kind?_first] at hk; cases hk; simp [Index.isFunction] at hf
  · rw [h.kind?_second] at hk; cases hk; simp [Index.isFunction] at hf
  · rw [h.kind?_declaration] at hk; cases hk; simp [Index.isFunction] at hf

/-- **The file declares one class.** -/
theorem classes_eq (ht : t.Linked) (h : SuiteAt t first second p package className forest) :
    t.classes = [p.declaration] := by
  have htail : ([p.specifier, p.invocation, p.argument, p.lambda, p.literal, p.body] ++
      (t.children p.body).flatMap t.descendants).filter
        (fun id => (t.kind? id).any Kind.isClass) = [] := by
    rw [List.filter_eq_nil_iff]
    intro id hid hclass
    obtain ⟨k, hk, hc⟩ := (Option.any_eq_true _ _).mp hclass
    obtain ⟨k', hk', hp⟩ := (Option.any_eq_true _ _).mp (h.plain_of_mem_tail ht id hid)
    obtain rfl : k = k' := Option.some.inj (hk.symm.trans hk')
    cases k with
    | classLike head => simp [isPlain] at hp
    | objectLike head => simp [isPlain] at hp
    | _ => simp [Kind.isClass, Kind.head?] at hc
  rw [classes, findAll, h.descendants_root ht]
  simp only [List.cons_append, List.nil_append] at htail ⊢
  rw [List.filter_cons, List.filter_cons, List.filter_cons, List.filter_cons, htail, h.file,
    h.kind?_first, h.kind?_second, h.kind?_declaration]
  rfl

/-! ## 2. The class -/

theorem package?_eq (h : SuiteAt t first second p package className forest) :
    t.package? = some package := by
  rw [Tree.package?, h.file]

/-- Nothing but the file is around the class. -/
theorem ancestors_declaration (ht : t.Linked)
    (h : SuiteAt t first second p package className forest) :
    t.view.ancestors p.declaration = [root] := by
  have hparent : t.view.parent? p.declaration = some root := parent?_of_get? h.spec.declaration
  rw [View.ancestors_of_parent? ht.grounded hparent,
    View.ancestors_of_parent?_none (show t.view.parent? root = none from ht.root_parent)]

/-- **The class is called by its package and its name.** -/
theorem qualifiedName_declaration (ht : t.Linked)
    (h : SuiteAt t first second p package className forest) :
    t.qualifiedName p.declaration = suiteName package className := by
  have hnames : t.classNames p.declaration = [className] := by
    rw [classNames, h.ancestors_declaration ht]
    simp [classHead?, h.kind?_declaration, h.file, Kind.head?, suiteHead]
  have hone : String.intercalate "." [className] = className := rfl
  rw [qualifiedName, hnames, h.package?_eq, hone, suiteName]
  split
  · next he => rw [if_pos (Option.some.inj he)]
  · next he =>
    cases he
    rw [if_neg (by rintro rfl; simp_all)]
    rfl
  · next he => cases he

theorem root_ne_declaration (h : SuiteAt t first second p package className forest) :
    root ≠ p.declaration := by
  intro he
  have hk := h.kind?_declaration
  rw [← he, h.file] at hk
  cases hk

/-- The class is the only one that is known by place. -/
theorem classes_names (ht : t.Linked)
    (h : SuiteAt t first second p package className forest) (library : Library) :
    (TypeNames.of t library).classes = [(p.declaration, suiteName package className)] := by
  simp only [TypeNames.of, h.classes_eq ht, List.map_singleton, h.qualifiedName_declaration ht]

/-- **The name of the supertype means the marker class**, because an import binds it and no
nested type hides it. -/
theorem resolve?_spek (ht : t.Linked) (h : SuiteAt t first second p package className forest)
    (library : Library) :
    (TypeNames.of t library).resolve? p.declaration "Spek" = some marker := by
  have hnested : (TypeNames.of t library).nested? p.declaration "Spek" = none := by
    have hlookup : (TypeNames.of t library).classes.lookup root = none := by
      rw [h.classes_names ht, List.lookup_cons, beq_eq_false_iff_ne.mpr h.root_ne_declaration]
      rfl
    rw [TypeNames.nested?, show (TypeNames.of t library).tree = t from rfl,
      h.ancestors_declaration ht]
    simp [hlookup]
  have himported : (TypeNames.of t library).imported? "Spek" = some marker := by
    rw [TypeNames.imported?, show (TypeNames.of t library).tree = t from rfl]
    cases hf : t.imports.find? (fun i => i.boundName? == some "Spek") with
    | none =>
      have := List.find?_eq_none.mp hf markerImport ((h.mem_imports_iff ht).mpr (Or.inl rfl))
      exact absurd (by decide +kernel) this
    | some i =>
      rcases (h.mem_imports_iff ht).mp (List.mem_of_find?_eq_some hf) with rfl | rfl
      · rfl
      · have := List.find?_some hf
        exact absurd this (by decide +kernel)
  have hsimple : (TypeNames.of t library).simple? p.declaration "Spek" = some marker := by
    rw [TypeNames.simple?, hnested, himported]
    rfl
  have hbare : TypeNames.bareTypeName 0 "Spek".toList = "Spek".toList := by decide +kernel
  have hcut : Text.cutFirst? '.' "Spek".toList = none := by decide +kernel
  simp only [TypeNames.resolve?, hbare, hcut]
  exact hsimple

/-- The entry of the class in the type table. -/
def declarationEntry (declaration : NodeId) : TypeEntry where
  supertypes := [marker]
  isAbstract := false
  modules := []
  declaration? := some declaration

/-- **The type table of a suite** is that of the framework with the class in front. -/
theorem types_eq (ht : t.Linked) (h : SuiteAt t first second p package className forest) :
    (Index.build t .framework).types =
      (suiteName package className, declarationEntry p.declaration) ::
        (Library.framework.types.map Index.libraryEntry).reverse := by
  have hentry : Index.fileEntry (TypeNames.of t .framework) p.declaration
      (suiteName package className) =
        some (suiteName package className, declarationEntry p.declaration) := by
    have hhead : t.classHead? p.declaration = some (suiteHead className) := by
      rw [classHead?, h.kind?_declaration]
      rfl
    rw [Index.fileEntry, show (TypeNames.of t .framework).tree = t from rfl, hhead]
    simp [suiteHead, h.resolve?_spek ht, declarationEntry]
  simp only [Index.build, Index.typeTable, h.classes_names ht, List.filterMap_cons, hentry,
    List.filterMap_nil, List.reverse_singleton, List.singleton_append]

/-- The symbol of the class. -/
def specSymbol (package className : String) (declaration : NodeId) : ClassSymbol where
  qualifiedName := suiteName package className
  isAbstract := false
  declaration? := some declaration

theorem find?_suiteName (ht : t.Linked)
    (h : SuiteAt t first second p package className forest) :
    (Index.build t .framework).types.find? (suiteName package className) =
      some (declarationEntry p.declaration) := by
  rw [h.types_eq ht, TypeTable.find?, List.lookup_cons, beq_self_eq_true]

/-- What the class node declares. -/
theorem classOf?_declaration (ht : t.Linked)
    (h : SuiteAt t first second p package className forest) :
    (Index.build t .framework).resolver.classOf? p.declaration =
      some (specSymbol package className p.declaration) := by
  have hlookup : (TypeNames.of t .framework).classes.lookup p.declaration =
      some (suiteName package className) := by
    rw [h.classes_names ht, List.lookup_cons, beq_self_eq_true]
  have hclass : (Index.build t .framework).findClass? (suiteName package className) .project =
      some (specSymbol package className p.declaration) := by
    simp only [Index.findClass?, h.find?_suiteName ht]
    rfl
  simp only [Index.resolver, Index.classOf?]
  rw [show (Index.build t .framework).names = TypeNames.of t .framework from rfl, hlookup,
    Option.bind_some]
  exact hclass

/-- The marker class is found, because the class of the suite does not hide it. -/
theorem findClass?_marker (ht : t.Linked)
    (h : SuiteAt t first second p package className forest)
    (hname : suiteName package className ≠ marker) :
    (Index.build t .framework).findClass? marker .project =
      some { qualifiedName := marker, isAbstract := true } := by
  have hlibrary : TypeTable.find? ((Library.framework.types.map Index.libraryEntry).reverse)
      marker = some { supertypes := [], isAbstract := true, modules := [],
                      declaration? := none } := by decide +kernel
  have hfind : (Index.build t .framework).types.find? marker =
      some { supertypes := [], isAbstract := true, modules := [], declaration? := none } := by
    rw [h.types_eq ht, TypeTable.find?, List.lookup_cons, beq_eq_false_iff_ne.mpr hname.symm]
    exact hlibrary
  simp only [Index.findClass?, hfind]
  rfl

/-- **The class is a spec class**, unless it has the name of the marker class. -/
theorem isSpec_specSymbol (ht : t.Linked)
    (h : SuiteAt t first second p package className forest)
    (hname : suiteName package className ≠ marker) :
    isSpec (Index.build t .framework).resolver (specSymbol package className p.declaration) =
      true := by
  refine isSpec_of_inheritsDirectly (h.findClass?_marker ht hname) rfl ?_
  rw [Index.inheritsDirectly, TypeTable.inheritsDirectly, Bool.and_eq_true, Option.any_eq_true]
  exact ⟨bne_iff_ne.mpr hname, declarationEntry p.declaration, h.find?_suiteName ht,
    List.contains_iff_mem.mpr List.mem_cons_self⟩

end SuiteAt

/-! ## 3. The vocabulary -/

/-- The declaration of a block function in the framework. -/
def BlockFunction.declaration : BlockFunction → LibraryFunction
  | .it => .extending "TestContainer" "org.jetbrains.spek.api.dsl.it"
  | f => .extending "SpecBody" ("org.jetbrains.spek.api.dsl." ++ f.name)

namespace BlockFunction

/-- All block functions. -/
def all : List BlockFunction := [.describe, .context, .given, .on, .it]

theorem mem_all (f : BlockFunction) : f ∈ all := by cases f <;> decide

/-- A name of the vocabulary has one declaration. -/
theorem functionsNamed_framework (f : BlockFunction) :
    Library.framework.functionsNamed f.name = [f.declaration] := by
  -- one evaluation for all functions, as each goes through the names of the whole framework
  have hall : ∀ g ∈ all, Library.framework.functionsNamed g.name = [g.declaration] := by
    decide +kernel
  exact hall f f.mem_all

theorem name_declaration (f : BlockFunction) : f.declaration.name = f.name := by
  cases f <;> decide +kernel

theorem package_declaration (f : BlockFunction) :
    f.declaration.package = vocabularyImport.path := by
  cases f <;> decide +kernel

/-- All of the vocabulary extends what a body is. -/
theorem extendsBlockReceiver_declaration (f : BlockFunction) :
    extendsBlockReceiver (Index.librarySymbol f.declaration) = true := by
  cases f <;> decide +kernel

/-- Every function of the vocabulary opens a block, and its kind is the one that paths show. -/
theorem ofFunction?_name (f : BlockFunction) : BlockKind.ofFunction? f.name = some f.kind := by
  cases f <;> decide +kernel

end BlockFunction

namespace SuiteAt

variable {t : Tree} {first second : NodeId} {p : ClassPlaces} {package className : String}
  {forest : List Outline}

/-- **The name of a block function means the function of the framework**, wherever it stands. -/
theorem functionOf?_name (ht : t.Linked)
    (h : SuiteAt t first second p package className forest) {id : NodeId} (f : BlockFunction)
    (hk : t.kind? id = some (.nameRef f.name)) :
    (Index.build t .framework).resolver.functionOf? id =
      some (Index.librarySymbol f.declaration) := by
  have hfunctions : (Index.build t .framework).functions = [] := by
    simp only [Index.build, h.findAll_isFunction ht, List.filterMap_nil]
  -- neither import has an alias
  have haliased : (Index.build t .framework).aliased? f.name = none := by
    rw [Index.aliased?, show (Index.build t .framework).tree = t from rfl, Option.map_eq_none_iff,
      List.find?_eq_none]
    intro i hi
    rcases (h.mem_imports_iff ht).mp hi with rfl | rfl
    · simp [markerImport]
    · simp [vocabularyImport]
  -- the star import makes the declaration visible
  have havailable : (Index.build t .framework).isAvailable f.declaration = true := by
    rw [Index.isAvailable, show (Index.build t .framework).tree = t from rfl, Bool.or_eq_true,
      List.any_eq_true]
    refine Or.inr ⟨vocabularyImport, (h.mem_imports_iff ht).mpr (Or.inr rfl), ?_⟩
    rw [if_pos (show vocabularyImport.star = true from rfl), f.package_declaration,
      beq_self_eq_true]
  have hlibrary : (Index.build t .framework).libraryFunction? f.name = some f.declaration := by
    rw [Index.libraryFunction?, haliased]
    simp only [show (Index.build t .framework).library = .framework from rfl,
      f.functionsNamed_framework, List.find?_cons, havailable]
  simp only [Index.resolver, Index.functionOf?]
  rw [show (Index.build t .framework).tree = t from rfl, hk]
  simp only [hfunctions, List.find?_nil, Option.none_or, hlibrary, Option.map_some]

end SuiteAt

end Suite

end SpecOutline
