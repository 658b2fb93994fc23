/-
# Which declaration a class node is bound to

The index finds the class of a node in two steps: from the node to its qualified name, and from
the name to an entry of the type table.  The second step forgets the node.  A qualified name
leaves out the functions around a class, so two classes local to different functions may have
the same one, and the table keeps a single entry for both.

* The table knows the names of the classes of the file and of the library, and no others
  (`knows_build_iff`).  For a class of the file it holds what the last class with that name
  declares, and never what the library says (`find?_eq_fileEntry`); any other name is left to the
  library (`find?_of_forall_ne`).
* So every class node is bound, under its own name and whatever the scope, to the last class of
  the file with that name (`classOf?_of_isLastOfName`): to itself exactly if it is the last
  (`classOf?_own_iff`).
-/
import SpecOutline.Proofs.Symbol.Inheritance
import SpecOutline.Proofs.Tree.Sequences
import SpecOutline.Proofs.Tree.Walks

namespace SpecOutline

/-! ## 1. The classes of a file -/

namespace Tree

variable {t : Tree} {id d last : NodeId}

/-- A class of the file declares something. -/
theorem exists_classHead? (h : id ∈ t.classes) : ∃ head, t.classHead? id = some head := by
  obtain ⟨kind, hk, hc⟩ := (Option.any_eq_true _ _).mp (List.mem_filter.mp h).2
  obtain ⟨head, hh⟩ := Option.isSome_iff_exists.mp hc
  exact ⟨head, by rw [classHead?, hk]; exact hh⟩

/-- In a linked tree every node that declares a class is a class of the file. -/
theorem Linked.mem_classes (ht : t.Linked) {head : ClassHead} (h : t.classHead? id = some head) :
    id ∈ t.classes := by
  obtain ⟨kind, hk, hh⟩ := Option.bind_eq_some_iff.mp h
  exact ht.mem_findAll.mpr ⟨kind, hk, by rw [Kind.isClass, hh]; rfl⟩

/-- No later class of the file has the same qualified name. -/
def IsLastOfName (t : Tree) (id : NodeId) : Prop :=
  ∃ before after, t.classes = before ++ id :: after ∧
    ∀ later ∈ after, t.qualifiedName later ≠ t.qualifiedName id

theorem IsLastOfName.mem_classes (h : t.IsLastOfName id) : id ∈ t.classes := by
  obtain ⟨before, after, heq, -⟩ := h
  rw [heq]
  exact List.mem_append_right _ List.mem_cons_self

/-- Among the classes with a name there is a last one. -/
theorem exists_isLastOfName (h : d ∈ t.classes) :
    ∃ last, t.IsLastOfName last ∧ t.qualifiedName last = t.qualifiedName d := by
  have hsome : (t.classes.reverse.find? fun e => t.qualifiedName e == t.qualifiedName d).isSome :=
    List.find?_isSome.mpr ⟨d, List.mem_reverse.mpr h, beq_self_eq_true _⟩
  obtain ⟨last, hfind⟩ := Option.isSome_iff_exists.mp hsome
  obtain ⟨hname, after, before, heq, hafter⟩ := List.find?_eq_some_iff_append.mp hfind
  have hname : t.qualifiedName last = t.qualifiedName d := beq_iff_eq.mp hname
  refine ⟨last, ⟨before.reverse, after.reverse, ?_, ?_⟩, hname⟩
  · have := congrArg List.reverse heq
    simpa using this
  · intro later hlater
    rw [hname]
    simpa using hafter later (List.mem_reverse.mp hlater)

end Tree

/-! ## 2. The type table -/

namespace Index

variable {t : Tree} {library : Library} {id last : NodeId} {name : String}

/-- The table of a file and a library, with the classes of the file read off the tree. -/
theorem types_build (t : Tree) (library : Library) :
    (build t library).types =
      (t.classes.filterMap fun id =>
        fileEntry (TypeNames.of t library) id (t.qualifiedName id)).reverse
      ++ (library.types.map libraryEntry).reverse := by
  simp only [build, typeTable, TypeNames.of, List.filterMap_map]
  rfl

/-- The entry of a class stands under the name it is given. -/
theorem fst_of_fileEntry {n : TypeNames} {e : String × TypeEntry}
    (h : fileEntry n id name = some e) : e.1 = name := by
  obtain ⟨head, -, rfl⟩ := Option.map_eq_some_iff.mp h
  rfl

/-- What a class of the file declares, as an entry: visible from everywhere. -/
theorem fileEntry_of_classHead? (library : Library) (name : String) {head : ClassHead}
    (h : t.classHead? id = some head) :
    ∃ supertypes, fileEntry (TypeNames.of t library) id name =
      some (name, { supertypes, isAbstract := head.isAbstract || head.isInterface, modules := [],
                    declaration? := some id }) := by
  rw [fileEntry, TypeNames.tree_of, h]
  exact ⟨_, rfl⟩

/-- **What the table knows**: the classes of the file and the types of the library. -/
theorem knows_build_iff :
    (build t library).types.knows name = true ↔
      (∃ id ∈ t.classes, t.qualifiedName id = name) ∨
        ∃ type ∈ library.types, type.qualifiedName = name := by
  rw [TypeTable.knows, TypeTable.find?, List.lookup_isSome_iff, types_build]
  constructor
  · rintro ⟨e, he, hkey⟩
    have hkey : name = e.1 := by simpa using hkey
    rcases List.mem_append.mp he with hfile | hlib
    · obtain ⟨id, hid, hentry⟩ := List.mem_filterMap.mp (List.mem_reverse.mp hfile)
      exact Or.inl ⟨id, hid, by rw [hkey, fst_of_fileEntry hentry]⟩
    · obtain ⟨type, htype, rfl⟩ := List.mem_map.mp (List.mem_reverse.mp hlib)
      exact Or.inr ⟨type, htype, hkey.symm⟩
  · rintro (⟨id, hid, rfl⟩ | ⟨type, htype, rfl⟩)
    · obtain ⟨head, hhead⟩ := Tree.exists_classHead? hid
      obtain ⟨supertypes, hentry⟩ := fileEntry_of_classHead? library (t.qualifiedName id) hhead
      refine ⟨_, List.mem_append_left _ (List.mem_reverse.mpr
        (List.mem_filterMap.mpr ⟨id, hid, hentry⟩)), ?_⟩
      exact beq_self_eq_true _
    · exact ⟨libraryEntry type, List.mem_append_right _ (List.mem_reverse.mpr
        (List.mem_map_of_mem htype)), beq_self_eq_true _⟩

/-- Classes with other names have no entry under a name. -/
theorem lookup_fileEntries_eq_none (n : TypeNames) {ids : List NodeId}
    (h : ∀ id ∈ ids, t.qualifiedName id ≠ name) :
    ((ids.filterMap fun id => fileEntry n id (t.qualifiedName id)).reverse).lookup name = none := by
  rw [List.lookup_eq_none_iff]
  intro e he
  obtain ⟨id, hid, hf⟩ := List.mem_filterMap.mp (List.mem_reverse.mp he)
  rw [fst_of_fileEntry hf]
  exact bne_iff_ne.mpr (h id hid).symm

/-- **The last class of the file with a name decides its entry**, whatever earlier classes and
the library declare under it. -/
theorem find?_eq_fileEntry (library : Library) (h : t.IsLastOfName last) :
    (build t library).types.find? (t.qualifiedName last) =
      (fileEntry (TypeNames.of t library) last (t.qualifiedName last)).map (·.2) := by
  obtain ⟨head, hhead⟩ := Tree.exists_classHead? h.mem_classes
  obtain ⟨before, after, heq, hafter⟩ := h
  obtain ⟨supertypes, hentry⟩ := fileEntry_of_classHead? library (t.qualifiedName last) hhead
  -- nothing that stands nearer the front of the table has the name
  rw [TypeTable.find?, types_build, heq, List.filterMap_append, List.filterMap_cons, hentry,
    List.reverse_append, List.reverse_cons, List.append_assoc, List.append_assoc,
    List.lookup_append, lookup_fileEntries_eq_none _ hafter, Option.none_or,
    List.singleton_append, List.lookup_cons, beq_self_eq_true]
  rfl

/-- The same, by what the class declares. -/
theorem find?_of_isLastOfName (library : Library) (h : t.IsLastOfName last) {head : ClassHead}
    (hhead : t.classHead? last = some head) :
    ∃ supertypes, (build t library).types.find? (t.qualifiedName last) =
      some { supertypes, isAbstract := head.isAbstract || head.isInterface, modules := [],
             declaration? := some last } := by
  obtain ⟨supertypes, hentry⟩ := fileEntry_of_classHead? library (t.qualifiedName last) hhead
  exact ⟨supertypes, by rw [find?_eq_fileEntry library h, hentry]; rfl⟩

/-- **A name that no class of the file has is left to the library.** -/
theorem find?_of_forall_ne (library : Library) (h : ∀ id ∈ t.classes, t.qualifiedName id ≠ name) :
    (build t library).types.find? name =
      ((library.types.map libraryEntry).reverse).lookup name := by
  rw [TypeTable.find?, types_build, List.lookup_append, lookup_fileEntries_eq_none _ h,
    Option.none_or]

/-! ## 3. The class of a node -/

/-- The name under which the class at a place is known. -/
theorem lookup_classes (library : Library) (id : NodeId) :
    (TypeNames.of t library).classes.lookup id =
      if id ∈ t.classes then some (t.qualifiedName id) else none := by
  rw [TypeNames.classes_of]
  induction t.classes with
  | nil => rfl
  | cons e es ih =>
    rw [List.map_cons, List.lookup_cons, ih]
    by_cases he : id = e
    · simp [he]
    · rw [beq_eq_false_iff_ne.mpr he]
      simp [he]

/-- **A class node is bound to the last class of the file with its name.** -/
theorem classOf?_of_isLastOfName (library : Library) (scope : Scope) {d : NodeId}
    (hd : d ∈ t.classes) (h : t.IsLastOfName last)
    (hname : t.qualifiedName last = t.qualifiedName d) {head : ClassHead}
    (hhead : t.classHead? last = some head) :
    ((build t library).withScope scope).classOf? d =
      some { qualifiedName := t.qualifiedName d,
             isAbstract := head.isAbstract || head.isInterface, scope,
             declaration? := some last } := by
  obtain ⟨supertypes, hfind⟩ := find?_of_isLastOfName library h hhead
  have hsees : scope.sees [] = true := by cases scope <;> rfl
  have hlookup : ((build t library).withScope scope).names.classes.lookup d =
      some (t.qualifiedName d) := by
    rw [names_withScope, names_build, lookup_classes, if_pos hd]
  rw [classOf?, hlookup, Option.bind_some]
  rw [hname] at hfind
  exact findClass?_eq_some_iff.mpr ⟨_, hfind, hsees, rfl⟩

/-- **Which class a node is bound to**, in every tree that steps have built, for every library
and every scope.  A node that declares a class is bound to the last class of the file with its
qualified name, under that name; so it is bound to what it declares itself, and as abstract as
that is, exactly if no later class of the file has the same qualified name. -/
theorem classOf?_own_iff {t : Tree} (ht : t.Built) (library : Library) (scope : Scope)
    {d : NodeId} {head : ClassHead} (hd : t.classHead? d = some head) :
    (∃ last lastHead, t.IsLastOfName last ∧ t.qualifiedName last = t.qualifiedName d ∧
      t.classHead? last = some lastHead ∧
      ((build t library).withScope scope).classOf? d =
        some { qualifiedName := t.qualifiedName d,
               isAbstract := lastHead.isAbstract || lastHead.isInterface, scope,
               declaration? := some last }) ∧
    ((∃ c, ((build t library).withScope scope).classOf? d = some c ∧
        c.declaration? = some d ∧ c.qualifiedName = t.qualifiedName d ∧
        c.isAbstract = (head.isAbstract || head.isInterface)) ↔
      t.IsLastOfName d) := by
  have hmem : d ∈ t.classes := ht.linked.mem_classes hd
  obtain ⟨last, hlast, hname⟩ := Tree.exists_isLastOfName hmem
  obtain ⟨lastHead, hlastHead⟩ := Tree.exists_classHead? hlast.mem_classes
  have hclass := classOf?_of_isLastOfName library scope hmem hlast hname hlastHead
  refine ⟨⟨last, lastHead, hlast, hname, hlastHead, hclass⟩, ?_, ?_⟩
  · rintro ⟨c, hc, hdecl, -⟩
    obtain rfl : _ = c := Option.some.inj (hclass.symm.trans hc)
    obtain rfl : last = d := Option.some.inj hdecl
    exact hlast
  · intro hown
    exact ⟨_, classOf?_of_isLastOfName library scope hmem hown rfl hd, rfl, rfl, rfl⟩

namespace Example

/-- A file with two functions, each with a class `Local` of its own: an abstract one at place 2
and a concrete one at place 4. -/
def twoLocals : Tree :=
  (Tree.inPackage (some "com.example")).afterAll
    [.addFunction Tree.root { name := "first" },
      .addClass 1 { name := "Local", isAbstract := true },
      .addFunction Tree.root { name := "second" }, .addClass 3 { name := "Local" }]

theorem built_twoLocals : twoLocals.Built := (Tree.Built.inPackage _).afterAll (by decide)

end Example

/-- **A class can be taken for another**: the abstract class at place 2 is bound to the concrete
one at place 4. -/
theorem classOf?_twoLocals_first :
    Example.twoLocals.Built ∧
    Example.twoLocals.classHead? 2 = some { name := "Local", isAbstract := true } ∧
    (build Example.twoLocals {}).classOf? 2 =
      some { qualifiedName := "com.example.Local", isAbstract := false,
             declaration? := some 4 } :=
  ⟨Example.built_twoLocals, by decide +kernel, by decide +kernel⟩

/-- The class at place 4 is the last of its name, and bound to itself from every module. -/
theorem classOf?_twoLocals_second :
    Example.twoLocals.Built ∧ Example.twoLocals.IsLastOfName 4 ∧
    ∃ c, ((build Example.twoLocals {}).withScope (.inModule "main")).classOf? 4 = some c ∧
      c.declaration? = some 4 ∧ c.qualifiedName = Example.twoLocals.qualifiedName 4 ∧
      c.isAbstract = false := by
  have hlast : Example.twoLocals.IsLastOfName 4 := ⟨[2], [], by decide +kernel, by simp⟩
  have hhead : Example.twoLocals.classHead? 4 = some { name := "Local" } := by decide +kernel
  exact ⟨Example.built_twoLocals, hlast,
    (classOf?_own_iff Example.built_twoLocals {} (.inModule "main") hhead).2.mpr hlast⟩

end Index

end SpecOutline
