/-
# Qualified names and their way back

The index writes the name of a class from the inside outwards: it collects the classes around the
class, turns the list round and puts the package in front.  The resolver reads a dotted name from
the outside inwards: it cuts the name at its first dot and asks what the first part means.

* `NamedBy` says which names a class goes by without either of them, one class around the other.
  In a linked tree every class goes by exactly one list of names, and it is the one that the index
  collects (`namedBy_iff`).
* Its first name is that of an outermost class, which the package makes known
  (`exists_outermost`).  So where nothing nearer gives that name a meaning (`InSight`), the dotted
  name leads back to the qualified name, at every depth (`typeNamed?_of_inSight`).
-/
import Mathlib.Logic.ExistsUnique
import SpecOutline.Proofs.Symbol.TypeNameOrder
import SpecOutline.Proofs.Text.Joined
import SpecOutline.Proofs.Tree.DocumentOrder

namespace SpecOutline

open SpecOutline.Text

/-! ## 1. The names that a class goes by -/

namespace Tree

variable {t : Tree} {id : NodeId} {head : ClassHead} {names : List String}

/-- `NamedBy t id names`: a class goes by the names of the class around it, if there is one, and
then by its own. -/
inductive NamedBy (t : Tree) : NodeId → List String → Prop
  | outermost {id : NodeId} {head : ClassHead} : t.classHead? id = some head →
      t.view.enclosingClass? id = none → NamedBy t id [head.name]
  | member {id outer : NodeId} {head : ClassHead} {names : List String} :
      t.classHead? id = some head → t.view.enclosingClass? id = some outer →
      NamedBy t outer names → NamedBy t id (names ++ [head.name])

/-- The names of the classes around a node, outermost first. -/
def outerNames (t : Tree) (id : NodeId) : List String :=
  ((t.view.ancestors id).filterMap fun a => (t.classHead? a).map (·.name)).reverse

theorem classNames_of_classHead? (h : t.classHead? id = some head) :
    t.classNames id = t.outerNames id ++ [head.name] := by
  rw [classNames, List.filterMap_cons_some (by rw [h]; rfl), List.reverse_cons, outerNames]

/-- A node that is no class has no name of its own. -/
theorem classNames_of_not_isClass (h : t.view.kindIs Kind.isClass id = false) :
    t.classNames id = t.outerNames id := by
  have hhead : t.classHead? id = none := by
    rw [classHead?]
    cases hk : t.kind? id with
    | none => rfl
    | some kind =>
      have hclass : (some kind).any Kind.isClass = false := hk ▸ h
      simpa [Kind.isClass] using hclass
  rw [classNames, List.filterMap_cons_none (by rw [hhead]; rfl), outerNames]

/-- **The names around a node are those of the nearest class around it.** -/
theorem Linked.outerNames_eq (ht : t.Linked) : ∀ id,
    t.outerNames id = match t.view.enclosingClass? id with
      | none => []
      | some outer => t.classNames outer := by
  refine ht.top_down ?_ ?_
  · intro id hp
    have hancestors := View.ancestors_of_parent?_none (v := t.view) hp
    rw [outerNames, View.enclosingClass?, hancestors]
    rfl
  · intro id p hp ih
    have hnames : t.outerNames id = t.classNames p := by
      rw [outerNames, ht.ancestors_of_parent? hp, classNames]
    rw [hnames, View.enclosingClass?_of_parent? ht.grounded hp]
    -- a parent that is no class passes the question on
    cases hclass : t.view.kindIs Kind.isClass p with
    | true => rfl
    | false => rw [classNames_of_not_isClass hclass, ih]; rfl

/-- The nearest class around a node declares something, and stands before the node. -/
theorem Linked.classHead?_of_enclosingClass? (ht : t.Linked) {outer : NodeId}
    (h : t.view.enclosingClass? id = some outer) :
    (∃ head, t.classHead? outer = some head) ∧ outer < id :=
  ⟨exists_classHead? (ht.mem_classes_of_enclosingClass? h),
    ht.lt_of_mem_ancestors id (List.mem_of_find?_eq_some h)⟩

theorem NamedBy.exists_classHead? (h : t.NamedBy id names) :
    ∃ head, t.classHead? id = some head ∧ names.getLast? = some head.name := by
  cases h with
  | outermost hhead _ => exact ⟨_, hhead, rfl⟩
  | member hhead _ _ => exact ⟨_, hhead, List.getLast?_concat⟩

/-- The names that a class goes by are those that the index collects. -/
theorem NamedBy.classNames_eq (ht : t.Linked) (h : t.NamedBy id names) :
    t.classNames id = names := by
  induction h with
  | outermost hhead houter =>
    rw [classNames_of_classHead? hhead, ht.outerNames_eq, houter]
    rfl
  | member hhead houter _ ih =>
    rw [classNames_of_classHead? hhead, ht.outerNames_eq, houter]
    simp only [ih]

/-- Every class goes by the names that the index collects. -/
theorem Linked.namedBy_classNames (ht : t.Linked) (h : t.classHead? id = some head) :
    t.NamedBy id (t.classNames id) := by
  induction id using Nat.strongRecOn generalizing head with
  | ind id ih =>
    rw [classNames_of_classHead? h, ht.outerNames_eq]
    cases houter : t.view.enclosingClass? id with
    | none => exact .outermost h houter
    | some outer =>
      obtain ⟨⟨outerHead, houterHead⟩, hlt⟩ := ht.classHead?_of_enclosingClass? houter
      exact .member h houter (ih outer hlt houterHead)

/-- **A class goes by the names that the index collects, and by no others.** -/
theorem Linked.namedBy_iff (ht : t.Linked) (h : t.classHead? id = some head) :
    t.NamedBy id names ↔ names = t.classNames id := by
  constructor
  · exact fun hnames => (hnames.classNames_eq ht).symm
  · rintro rfl
    exact ht.namedBy_classNames h

/-- **The first of the names is that of an outermost class.** -/
theorem NamedBy.exists_outermost (h : t.NamedBy id names) :
    ∃ first rest top, names = first :: rest ∧ t.NamedBy top [first] := by
  induction h with
  | outermost hhead houter => exact ⟨_, [], _, rfl, .outermost hhead houter⟩
  | member _ _ _ ih =>
    obtain ⟨first, rest, top, rfl, htop⟩ := ih
    exact ⟨first, _, top, rfl, htop⟩

/-- What holds of the names of all classes holds of the names that a class goes by. -/
theorem NamedBy.forall_mem {P : String → Prop} (h : t.NamedBy id names)
    (hP : ∀ id head, t.classHead? id = some head → P head.name) : ∀ name ∈ names, P name := by
  induction h with
  | outermost hhead _ => exact List.forall_mem_singleton.mpr (hP _ _ hhead)
  | member hhead _ _ ih =>
    exact List.forall_mem_append.mpr ⟨ih, List.forall_mem_singleton.mpr (hP _ _ hhead)⟩

end Tree

/-! ## 2. Names with dots -/

theorem dotted_assoc (first second third : String) :
    dotted (dotted first second) third = dotted first (dotted second third) := by
  simp only [dotted, String.append_assoc]

/-- A first name stands before the others, with a dot between. -/
theorem intercalate_eq_dotted (first second : String) (rest : List String) :
    ".".intercalate (first :: second :: rest) =
      dotted first (".".intercalate (second :: rest)) := by
  rw [String.intercalate_cons_cons, dotted]

/-- **In a package a class is called by the package and the names that it goes by.** -/
theorem Tree.NamedBy.qualifiedName_eq {t : Tree} {id : NodeId} {names : List String}
    (ht : t.Linked) (h : t.NamedBy id names) {package : String}
    (hpackage : t.package? = some package) (hne : package ≠ "") :
    t.qualifiedName id = dotted package (".".intercalate names) := by
  rw [qualifiedName, h.classNames_eq ht, hpackage]
  split
  · next hempty => exact absurd (Option.some.inj hempty) hne
  · next hsome => rw [Option.some.inj hsome]
  · next hnone => cases hnone

namespace TypeNames

variable {first second : String} {rest names : List String}

/-- Nothing is taken out of simple names with dots between them. -/
theorem bareTypeName_intercalate (h : ∀ name ∈ names, IsSimple name) :
    bareTypeName 0 (".".intercalate names).toList = (".".intercalate names).toList := by
  refine bareTypeName_eq_self fun c hc => ?_
  by_cases hdot : c = '.'
  · subst hdot
    decide
  · obtain ⟨name, hname, hc⟩ := (mem_intercalate_iff (by simpa using hdot) names).mp hc
    exact ((h name hname).2 c hc).2

/-- **A name with dots is asked for by its first part**, unless it is known as it is. -/
theorem resolve?_of_dots (n : TypeNames) (context : NodeId)
    (h : ∀ name ∈ first :: second :: rest, IsSimple name)
    (hknown : n.known.contains (".".intercalate (first :: second :: rest)) = false) {outer : String}
    (hfirst : n.simple? context first = some outer) :
    n.resolve? context (".".intercalate (first :: second :: rest)) =
      some (dotted outer (".".intercalate (second :: rest))) := by
  have hchars : (".".intercalate (first :: second :: rest)).toList =
      first.toList ++ '.' :: (".".intercalate (second :: rest)).toList := by
    rw [String.intercalate_cons_cons, String.toList_append, String.toList_append,
      List.append_assoc]
    rfl
  have hcut : cutFirst? '.' (".".intercalate (first :: second :: rest)).toList =
      some (first.toList, (".".intercalate (second :: rest)).toList) := by
    rw [hchars]
    exact cutFirst?_append (fun c hc => ((h first List.mem_cons_self).2 c hc).1) _
  have hempty : (".".intercalate (first :: second :: rest)).toList.isEmpty = false := by
    rw [hchars, List.isEmpty_eq_false_iff]
    simp
  simp only [resolve?, bareTypeName_intercalate h, hcut, hempty, String.ofList_toList, hknown,
    hfirst, Bool.false_eq_true, if_false]

end TypeNames

/-! ## 3. The way back -/

namespace Index

variable {t : Tree} {library : Library} {context d : NodeId} {names : List String}
  {package first : String}

/-- The first of some names has no meaning at a place but that of the package: no import binds it
and no class around the place has a known type of that name.  And the names with dots between them
are not known as they are. -/
structure InSight (t : Tree) (library : Library) (context : NodeId) (names : List String) :
    Prop where
  not_imported : ∀ first ∈ names.head?, ∀ i ∈ t.imports, i.boundName? ≠ some first
  not_nested : ∀ first ∈ names.head?, ∀ outer ∈ t.view.ancestors context,
    (t.classHead? outer).isSome = true →
      (build t library).types.knows (dotted (t.qualifiedName outer) first) = false
  not_qualified : 2 ≤ names.length →
    (build t library).types.knows (".".intercalate names) = false

/-- No class around the place has a type of the first name. -/
theorem InSight.nested?_eq_none (h : InSight t library context names)
    (hfirst : names.head? = some first) :
    (TypeNames.of t library).nested? context first = none := by
  rw [TypeNames.nested?, List.findSome?_eq_none_iff]
  intro outer houter
  rw [lookup_classes]
  by_cases hclass : outer ∈ t.classes
  · obtain ⟨head, hhead⟩ := Tree.exists_classHead? hclass
    have hunknown := h.not_nested first hfirst outer houter (by rw [hhead]; rfl)
    rw [if_pos hclass, Option.bind_some, TypeNames.known?_of, hunknown]
    rfl
  · rw [if_neg hclass]
    rfl

/-- No import binds the first name. -/
theorem InSight.imported?_eq_none (h : InSight t library context names)
    (hfirst : names.head? = some first) : (TypeNames.of t library).imported? first = none := by
  rw [TypeNames.imported?, Option.map_eq_none_iff, List.find?_eq_none]
  intro i hi hbound
  exact h.not_imported first hfirst i hi (beq_iff_eq.mp hbound)

/-- **The package makes its outermost classes known.** -/
theorem inPackage?_of_namedBy (ht : t.Linked) (library : Library)
    (hpackage : t.package? = some package) (hne : package ≠ "") (htop : t.NamedBy d [first]) :
    (TypeNames.of t library).inPackage? first = some (dotted package first) := by
  have hname : t.qualifiedName d = dotted package first := by
    rw [htop.qualifiedName_eq ht hpackage hne, String.intercalate_singleton]
  obtain ⟨head, hhead, -⟩ := htop.exists_classHead?
  have hknows : (build t library).types.knows (dotted package first) = true :=
    knows_build_iff.mpr (.inl ⟨d, ht.mem_classes hhead, hname⟩)
  rw [TypeNames.inPackage?, TypeNames.tree_of, hpackage, Option.bind_some, TypeNames.known?_of,
    if_pos hknows]

/-- The first name means the outermost class. -/
theorem InSight.simple?_eq (ht : t.Linked) (h : InSight t library context names)
    (hfirst : names.head? = some first) (hpackage : t.package? = some package)
    (hne : package ≠ "") (htop : t.NamedBy d [first]) :
    (TypeNames.of t library).simple? context first = some (dotted package first) := by
  rw [TypeNames.simple?, h.nested?_eq_none hfirst, h.imported?_eq_none hfirst,
    inPackage?_of_namedBy ht library hpackage hne htop]
  rfl

/-- **In sight, the names that a class goes by lead to its qualified name.** -/
theorem typeNamed?_of_inSight (ht : t.Linked) (hpackage : t.package? = some package)
    (hne : package ≠ "") (hsimple : ∀ name ∈ names, TypeNames.IsSimple name)
    (hnames : t.NamedBy d names) (h : InSight t library context names) :
    (build t library).resolver.typeNamed? context (".".intercalate names) =
      some (t.qualifiedName d) := by
  have hqualified := hnames.qualifiedName_eq ht hpackage hne
  obtain ⟨first, rest, top, rfl, htop⟩ := hnames.exists_outermost
  have hfirst := h.simple?_eq ht rfl hpackage hne htop
  rw [hqualified]
  cases rest with
  | nil =>
    rw [String.intercalate_singleton]
    exact (TypeNames.resolve?_of_isSimple _ context (hsimple first List.mem_cons_self)).trans
      hfirst
  | cons second rest =>
    have hunknown : (TypeNames.of t library).known.contains
        (".".intercalate (first :: second :: rest)) = false := by
      rw [TypeNames.contains_known_of]
      exact h.not_qualified (by simp)
    have hresolve := TypeNames.resolve?_of_dots (TypeNames.of t library) context hsimple hunknown
      hfirst
    refine hresolve.trans ?_
    rw [intercalate_eq_dotted, dotted_assoc]

/-- **Qualified names are found again**, in every tree that steps have built in a package and whose
classes have simple names, for every library.  A class goes by one list of names, the last of them
its own, and is called by the package and these names with dots between them.  At every place from
which the class is in sight the same names without the package mean the class: no import binds the
first of them, no class around the place has a known type of that name, and, where there are more,
the dotted name is not itself that of a known type. -/
theorem typeNamed?_qualifiedName {t : Tree} (ht : t.Built) (library : Library) {package : String}
    (hpackage : t.package? = some package) (hne : package ≠ "")
    (hsimple : ∀ id head, t.classHead? id = some head → TypeNames.IsSimple head.name)
    {d : NodeId} {head : ClassHead} (hd : t.classHead? d = some head) :
    (∃! names, t.NamedBy d names) ∧
    ∀ names, t.NamedBy d names →
      names.getLast? = some head.name ∧
      t.qualifiedName d = ".".intercalate (package :: names) ∧
      ∀ context, InSight t library context names →
        (build t library).resolver.typeNamed? context (".".intercalate names) =
          some (t.qualifiedName d) := by
  refine ⟨⟨t.classNames d, ht.linked.namedBy_classNames hd, ?_⟩, ?_⟩
  · intro names hnames
    exact (ht.linked.namedBy_iff hd).mp hnames
  · intro names hnames
    refine ⟨?_, ?_, ?_⟩
    · obtain ⟨own, hown, hlast⟩ := hnames.exists_classHead?
      obtain rfl : own = head := Option.some.inj (hown.symm.trans hd)
      exact hlast
    · have hqualified := hnames.qualifiedName_eq ht.linked hpackage hne
      obtain ⟨first, rest, -, rfl, -⟩ := hnames.exists_outermost
      rw [hqualified, intercalate_eq_dotted]
    · intro context hsight
      exact typeNamed?_of_inSight ht.linked hpackage hne (hnames.forall_mem hsimple) hnames hsight

namespace Example

/-- A file with a class `Row` in an object `Table` in a class `Store`, at places 1 to 3, and a
function beside them, at place 4. -/
def nestedClasses : Tree :=
  (Tree.inPackage (some "com.example")).afterAll
    [.addClass Tree.root { name := "Store" }, .addObject 1 { name := "Table" },
      .addClass 2 { name := "Row" }, .addFunction Tree.root { name := "main" }]

theorem built_nestedClasses : nestedClasses.Built :=
  (Tree.Built.inPackage _).afterAll (by decide)

theorem isSimple_nestedClasses : ∀ id head, nestedClasses.classHead? id = some head →
    TypeNames.IsSimple head.name := by
  have hall : ∀ id < nestedClasses.size, ∀ head ∈ nestedClasses.classHead? id,
      TypeNames.IsSimple head.name := by decide
  intro id head hhead
  obtain ⟨kind, hk, -⟩ := Option.bind_eq_some_iff.mp hhead
  obtain ⟨node, hnode, -⟩ := Option.map_eq_some_iff.mp hk
  exact hall id (Tree.lt_size_of_get? hnode) head hhead

/-- The class at place 3 goes by three names. -/
theorem namedBy_row : nestedClasses.NamedBy 3 ["Store", "Table", "Row"] := by
  have hstore : nestedClasses.NamedBy 1 ["Store"] :=
    .outermost (by decide : nestedClasses.classHead? 1 = some { name := "Store" }) (by decide)
  have htable : nestedClasses.NamedBy 2 ["Store", "Table"] :=
    .member (by decide : nestedClasses.classHead? 2 = some { name := "Table" }) (by decide) hstore
  exact .member (by decide : nestedClasses.classHead? 3 = some { name := "Row" }) (by decide)
    htable

end Example

/-- From the function, the class at place 3 is in sight, and its three names lead to it. -/
theorem typeNamed?_qualifiedName_row :
    Example.nestedClasses.Built ∧
    Example.nestedClasses.NamedBy 3 ["Store", "Table", "Row"] ∧
    InSight Example.nestedClasses {} 4 ["Store", "Table", "Row"] ∧
    (build Example.nestedClasses {}).resolver.typeNamed? 4 "Store.Table.Row" =
      some "com.example.Store.Table.Row" := by
  have hsight : InSight Example.nestedClasses {} 4 ["Store", "Table", "Row"] :=
    ⟨by decide +kernel, by decide +kernel, by decide +kernel⟩
  obtain ⟨-, hfound⟩ := typeNamed?_qualifiedName Example.built_nestedClasses {}
    (by decide : _ = some "com.example") (by decide) Example.isSimple_nestedClasses
    (by decide : Example.nestedClasses.classHead? 3 = some { name := "Row" })
  obtain ⟨-, hqualified, hmeaning⟩ := hfound _ Example.namedBy_row
  exact ⟨Example.built_nestedClasses, Example.namedBy_row, hsight,
    (hmeaning 4 hsight).trans (by rw [hqualified]; decide)⟩

end Index

end SpecOutline
