/-
# The order of declarations does not matter to types

An index goes through the classes of a file twice: it takes their names first, and then resolves
the supertypes that they write.  A written name is therefore resolved against all names of the file,
whichever class comes first, and two trees that differ only in the order of children
(`Tree.Reordered`) resolve it alike (`TypeNames.resolve?_reordered`).

The table is filled in document order, and a later class hides an earlier one of the same name.  If
no two classes have the same qualified name (`Tree.NamesApart`) nothing is hidden, and both tables
answer alike (`Index.find?_reordered`).  All that is asked about types is asked of the names and of
the table (`Index.answers_reordered`).
-/
import SpecOutline.Library.Framework
import SpecOutline.Proofs.Symbol.Declarations
import SpecOutline.Proofs.Tree.Reordered

namespace SpecOutline

/-! ## 1. Classes -/

namespace Tree

variable {t u : Tree}

/-- No two classes of the file have the same qualified name. -/
def NamesApart (t : Tree) : Prop :=
  ∀ c ∈ t.classes, ∀ d ∈ t.classes, t.qualifiedName c = t.qualifiedName d → c = d

instance (t : Tree) : Decidable t.NamesApart :=
  inferInstanceAs (Decidable (∀ c ∈ t.classes, ∀ d ∈ t.classes,
    t.qualifiedName c = t.qualifiedName d → c = d))

/-- Then every class is the last of its name. -/
theorem NamesApart.isLastOfName (h : t.NamesApart) {id : NodeId} (hid : id ∈ t.classes) :
    t.IsLastOfName id := by
  obtain ⟨last, hlast, hname⟩ := exists_isLastOfName hid
  exact h last hlast.mem_classes id hid hname ▸ hlast

namespace Reordered

variable (h : t.Reordered u)
include h

theorem mem_classes_iff {id : NodeId} : id ∈ u.classes ↔ id ∈ t.classes := h.classes_perm.mem_iff

theorem classHead?_eq (id : NodeId) : u.classHead? id = t.classHead? id := by
  rw [classHead?, classHead?, h.kind?_eq]

/-- **Qualified names are the same**: they are read on the way up. -/
theorem qualifiedName_eq (id : NodeId) : u.qualifiedName id = t.qualifiedName id := by
  have hnames : u.classNames id = t.classNames id := by
    simp only [classNames, h.ancestors_eq, h.classHead?_eq]
  rw [qualifiedName, qualifiedName, hnames, h.package?_eq]

theorem namesApart (hnames : t.NamesApart) : u.NamesApart := by
  intro c hc d hd hname
  rw [h.qualifiedName_eq, h.qualifiedName_eq] at hname
  exact hnames c (h.mem_classes_iff.mp hc) d (h.mem_classes_iff.mp hd) hname

end Reordered

end Tree

/-! ## 2. Type names -/

namespace TypeNames

variable {t u : Tree} (h : t.Reordered u) (library : Library)
include h

theorem contains_known_reordered (name : String) :
    (of u library).known.contains name = (of t library).known.contains name := by
  have hnames : u.qualifiedName = t.qualifiedName := funext h.qualifiedName_eq
  have hperm : (of u library).known.Perm (of t library).known := by
    simp only [of, List.map_map, Function.comp_def, hnames]
    exact (h.classes_perm.map _).append_left _
  exact hperm.contains_eq

theorem known?_reordered (name : String) :
    (of u library).known? name = (of t library).known? name := by
  rw [known?, known?, contains_known_reordered h]

theorem lookup_classes_reordered (id : NodeId) :
    (of u library).classes.lookup id = (of t library).classes.lookup id := by
  rw [Index.lookup_classes, Index.lookup_classes, h.qualifiedName_eq]
  exact if_congr h.mem_classes_iff rfl rfl

/-- A simple name means the same in both trees. -/
theorem simple?_reordered (context : NodeId) (name : String) :
    (of u library).simple? context name = (of t library).simple? context name := by
  simp only [simple?, nested?, imported?, inPackage?, starImported?, tree_of, h.ancestors_eq,
    h.imports_eq, h.package?_eq, known?_reordered h, lookup_classes_reordered h]

/-- **A type name as written means the same in both trees.** -/
theorem resolve?_reordered (context : NodeId) (written : String) :
    (of u library).resolve? context written = (of t library).resolve? context written := by
  simp only [resolve?, contains_known_reordered h, simple?_reordered h]

end TypeNames

/-! ## 3. The type table -/

/-- **Inheritance is a matter of look-ups**: tables that find the same entries agree on it. -/
theorem TypeTable.inherits_congr {table table' : TypeTable}
    (h : ∀ name, table'.find? name = table.find? name) (name base : String) :
    table'.inherits name base = table.inherits name base := by
  have hedge : table'.Edge = table.Edge := by
    funext child parent
    simp only [Edge, h]
  rw [Bool.eq_iff_iff, inherits_iff, inherits_iff, hedge, knows, h, knows]

namespace Index

variable {t u : Tree} (h : t.Reordered u) (hnames : t.NamesApart) (library : Library)
include h

/-- A class has the same entry, supertypes included. -/
theorem fileEntry_reordered (id : NodeId) (name : String) :
    fileEntry (TypeNames.of u library) id name = fileEntry (TypeNames.of t library) id name := by
  simp only [fileEntry, TypeNames.tree_of, h.classHead?_eq, TypeNames.resolve?_reordered h]

include hnames

/-- **The two tables find the same entries.** -/
theorem find?_reordered (name : String) :
    (build u library).types.find? name = (build t library).types.find? name := by
  by_cases hclass : ∃ id ∈ t.classes, t.qualifiedName id = name
  · obtain ⟨id, hid, rfl⟩ := hclass
    have hlast : u.IsLastOfName id :=
      (h.namesApart hnames).isLastOfName (h.mem_classes_iff.mpr hid)
    have hfind := find?_eq_fileEntry library hlast
    rw [h.qualifiedName_eq, fileEntry_reordered h] at hfind
    rw [hfind, find?_eq_fileEntry library (hnames.isLastOfName hid)]
  · have hne : ∀ id ∈ t.classes, t.qualifiedName id ≠ name :=
      fun id hid hname => hclass ⟨id, hid, hname⟩
    have hne' : ∀ id ∈ u.classes, u.qualifiedName id ≠ name := by
      intro id hid
      rw [h.qualifiedName_eq]
      exact hne id (h.mem_classes_iff.mp hid)
    rw [find?_of_forall_ne library hne', find?_of_forall_ne library hne]

theorem findClass?_reordered (name : String) (scope : Scope) :
    (build u library).findClass? name scope = (build t library).findClass? name scope := by
  rw [findClass?, findClass?, find?_reordered h hnames]

theorem inherits_reordered (c base : ClassSymbol) :
    (build u library).inherits c base = (build t library).inherits c base :=
  TypeTable.inherits_congr (find?_reordered h hnames library) _ _

theorem inheritsDirectly_reordered (c base : ClassSymbol) :
    (build u library).inheritsDirectly c base = (build t library).inheritsDirectly c base := by
  simp only [inheritsDirectly, TypeTable.inheritsDirectly, find?_reordered h hnames]

/-- A node is bound to the same class, from every scope. -/
theorem classOf?_reordered (scope : Scope) (id : NodeId) :
    ((build u library).withScope scope).classOf? id =
      ((build t library).withScope scope).classOf? id := by
  rw [classOf?, classOf?, names_withScope, names_build, TypeNames.lookup_classes_reordered h]
  exact Option.bind_congr fun name _ => findClass?_reordered h hnames library name scope

end Index

/-! ## 4. Spec classes -/

namespace Suite

variable {t u : Tree}

/-- A node declares a spec class in both trees or in neither. -/
theorem declaresSpec_reordered (h : t.Reordered u) (hnames : t.NamesApart) (library : Library)
    (scope : Scope) (id : NodeId) :
    declaresSpec ((Index.build u library).withScope scope).resolver id =
      declaresSpec ((Index.build t library).withScope scope).resolver id := by
  have hspec : isSpec ((Index.build u library).withScope scope).resolver =
      isSpec ((Index.build t library).withScope scope).resolver := by
    funext c
    have hbase : ((Index.build u library).withScope scope).findClass? marker c.scope =
        ((Index.build t library).withScope scope).findClass? marker c.scope :=
      Index.findClass?_reordered h hnames library marker c.scope
    have hbelow : ((Index.build u library).withScope scope).inherits c =
        ((Index.build t library).withScope scope).inherits c :=
      funext (Index.inherits_reordered h hnames library c)
    simp only [isSpec, Index.findClass?_resolver, Index.inherits_resolver, hbase, hbelow]
  rw [declaresSpec, declaresSpec, hspec, Index.classOf?_resolver, Index.classOf?_resolver,
    Index.classOf?_reordered h hnames]

/-- **An annotation may stand anywhere among the children of a class**: of resolvers that take type
names alike, one finds it in the one tree if the other finds it in the other. -/
theorem isJunit4_reordered (h : t.Reordered u) {r r' : Resolver}
    (hnamed : r'.typeNamed? = r.typeNamed?) (id : NodeId) :
    isJunit4 u.view r' id = isJunit4 t.view r id := by
  have hkind : u.view.kind? = t.view.kind? := funext h.kind?_eq
  have hrun : isRunWith u.view r' = isRunWith t.view r := by
    funext child
    simp only [isRunWith, hkind, hnamed]
  rw [isJunit4, isJunit4, View.kindIs, View.kindIs, hkind, hrun]
  exact congrArg _ (h.children_perm id).any_eq

end Suite

/-! ## 5. All answers about types -/

namespace Index

open Suite (declaresSpec isJunit4)

/-- **Answers about types do not depend on the order of declarations**, for every library and every
scope.  If two trees have the same nodes but for the order of children, and no two classes have the
same qualified name, then their indexes answer alike, whatever they are asked: which class a node
declares and which has a name, whether a class is below another, directly or not, what a written
type name means at a place, and which nodes declare spec classes and classes of the JUnit 4
runner. -/
theorem answers_reordered {t u : Tree} (h : t.Reordered u) (hnames : t.NamesApart)
    (library : Library) (scope : Scope) :
    let x := (build t library).withScope scope
    let y := (build u library).withScope scope
    y.classOf? = x.classOf? ∧ y.findClass? = x.findClass? ∧
      y.inherits = x.inherits ∧ y.inheritsDirectly = x.inheritsDirectly ∧
      declaresSpec y.resolver = declaresSpec x.resolver ∧
      y.resolver.typeNamed? = x.resolver.typeNamed? ∧
      isJunit4 u.view y.resolver = isJunit4 t.view x.resolver := by
  intro x y
  have hnamed : y.resolver.typeNamed? = x.resolver.typeNamed? := by
    funext context written
    exact TypeNames.resolve?_reordered h library context written
  refine ⟨?_, ?_, ?_, ?_, ?_, hnamed, ?_⟩
  · exact funext (classOf?_reordered h hnames library scope)
  · funext name scope'
    exact findClass?_reordered h hnames library name scope'
  · funext c base
    exact inherits_reordered h hnames library c base
  · funext c base
    exact inheritsDirectly_reordered h hnames library c base
  · exact funext (Suite.declaresSpec_reordered h hnames library scope)
  · exact funext (Suite.isJunit4_reordered h hnamed)

namespace Example

/-- A tree with all children in the opposite order. -/
def backwards (t : Tree) : Tree :=
  { t with nodes := t.nodes.map fun node => { node with children := node.children.reverse } }

theorem reordered_backwards (t : Tree) : t.Reordered (backwards t) := by
  have hget : ∀ id, (backwards t).get? id =
      (t.get? id).map fun node => { node with children := node.children.reverse } :=
    fun id => Array.getElem?_map
  refine ⟨Array.size_map, fun id => ?_, fun id => ?_, fun id => ?_⟩
  · rw [Tree.kind?, Tree.kind?, hget, Option.map_map]
    rfl
  · rw [Tree.parent?, Tree.parent?, hget, Option.bind_map]
    rfl
  · rw [Tree.children, Tree.children, hget]
    cases t.get? id with
    | none => exact .refl _
    | some node => exact List.reverse_perm _

/-- A file whose first class, at place 2, extends its second, at place 4.  The first is annotated
for the JUnit 4 runner. -/
def lateBase : Tree :=
  (Tree.inPackage (some "com.example")).afterAll
    [.addImport { path := "org.jetbrains.spek.api.Spek" },
      .addClass Tree.root { name := "LoginSpec", supertypes := ["BaseSpec"] },
      .annotate 2 Suite.runWith,
      .addClass Tree.root { name := "BaseSpec", supertypes := ["Spek"], isAbstract := true }]

theorem built_lateBase : lateBase.Built := (Tree.Built.inPackage _).afterAll (by decide)

/-- Two edges lead from the first class to the marker class. -/
theorem declaresSpec_lateBase :
    declaresSpec (build lateBase .framework).resolver 2 = true := by
  have hclass : (build lateBase .framework).classOf? 2 =
      some { qualifiedName := "com.example.LoginSpec", isAbstract := false,
             declaration? := some 2 } := by decide +kernel
  have hlogin : (build lateBase .framework).types.Edge "com.example.LoginSpec"
      "com.example.BaseSpec" :=
    ⟨{ supertypes := ["com.example.BaseSpec"], isAbstract := false, modules := [],
       declaration? := some 2 }, by decide +kernel, by decide⟩
  have hbase : (build lateBase .framework).types.Edge "com.example.BaseSpec" Suite.marker :=
    ⟨{ supertypes := [Suite.marker], isAbstract := true, modules := [],
       declaration? := some 4 }, by decide +kernel, by decide⟩
  have hmarker : (build lateBase .framework).types.find? Suite.marker =
      some { supertypes := [], isAbstract := true, modules := [], declaration? := none } := by
    decide +kernel
  rw [declaresSpec, classOf?_resolver, hclass, Option.any_some, Suite.isSpec_iff,
    TypeTable.inherits_iff]
  exact ⟨rfl, ⟨_, hmarker, rfl⟩, by decide, TypeTable.knows_of_edge hlogin,
    .tail (.single hlogin) hbase⟩

end Example

/-- The other way round, the base class comes first and the answers are the same. -/
theorem answers_backwards :
    Example.lateBase.Built ∧ Example.lateBase.Reordered (Example.backwards Example.lateBase) ∧
    Example.lateBase.NamesApart ∧ Example.lateBase.classes = [2, 4] ∧
    (Example.backwards Example.lateBase).classes = [4, 2] ∧
    declaresSpec (build (Example.backwards Example.lateBase) .framework).resolver 2 = true ∧
    isJunit4 (Example.backwards Example.lateBase).view
      (build (Example.backwards Example.lateBase) .framework).resolver 2 = true := by
  have h := Example.reordered_backwards Example.lateBase
  have hnames : Example.lateBase.NamesApart := by decide +kernel
  obtain ⟨-, -, -, -, hspec, -, hjunit⟩ := answers_reordered h hnames .framework .project
  refine ⟨Example.built_lateBase, h, hnames, by decide +kernel, by decide +kernel, ?_, ?_⟩
  · exact (congrFun hspec 2).trans Example.declaresSpec_lateBase
  · exact (congrFun hjunit 2).trans (by decide +kernel)

end Index

end SpecOutline
