/-
# Functions of the file hide those of the library

A bare name means a function of the file if there is one with the name that can be called from
where the name stands, and only else a function of the library.  A function outside all classes can
be called from anywhere in the file, a member from inside its class and nowhere else
(`Tree.inReach`).

* The first function in reach, in document order, is what the name means, under its own qualified
  name; with none in reach, the library decides (`Index.functionOf?_eq`).
* A member of a class that is not around the name is not in reach.  Trees that differ in nothing but
  such members (`Tree.AlikeFrom`) give the name the same meaning (`Index.functionOf?_alikeFrom`).
-/
import SpecOutline.Library.Framework
import SpecOutline.Proofs.Symbol.Declarations

namespace SpecOutline

/-! ## 1. Functions in reach -/

namespace Tree

/-- The head of the function at a place. -/
def functionHead? (t : Tree) (id : NodeId) : Option FunctionHead :=
  match t.kind? id with
  | some (.function head) => some head
  | _ => none

/-- Whether what is declared at a place can be called from `reference`: a member only from inside
its class. -/
def isInReach (t : Tree) (reference id : NodeId) : Bool :=
  match t.view.enclosingClass? id with
  | none => true
  | some owner => (t.view.ancestors reference).contains owner

/-- The functions with a name that can be called from a place, in document order. -/
def inReach (t : Tree) (reference : NodeId) (name : String) : List NodeId :=
  (t.descendants root).filter fun id =>
    (t.functionHead? id).any (·.name == name) && t.isInReach reference id

/-- What a function goes by: its name after the class around it, or else after the package of the
file. -/
def functionName (t : Tree) (id : NodeId) (name : String) : String :=
  match t.view.enclosingClass? id, t.package? with
  | some owner, _ => dotted (t.qualifiedName owner) name
  | none, some package => dotted package name
  | none, none => name

/-- The symbol of the function at a place. -/
def functionSymbol? (t : Tree) (id : NodeId) : Option FunctionSymbol :=
  (t.functionHead? id).map fun head =>
    { name := head.name, qualifiedName := t.functionName id head.name,
      receiver? := head.receiver?, declaration? := some id }

variable {t : Tree} {id reference : NodeId} {name : String}

theorem mem_inReach_iff :
    id ∈ t.inReach reference name ↔ id ∈ t.descendants root ∧
      (∃ head, t.functionHead? id = some head ∧ head.name = name) ∧
        t.isInReach reference id = true := by
  rw [inReach, List.mem_filter, Bool.and_eq_true, Option.any_eq_true]
  simp only [beq_iff_eq]

theorem kind?_of_functionHead? {head : FunctionHead} (h : t.functionHead? id = some head) :
    t.kind? id = some (.function head) := by
  unfold functionHead? at h
  split at h
  · next hk => rw [hk, Option.some.inj h]
  · cases h

end Tree

/-! ## 2. What the index makes of them -/

namespace Index

variable {t u : Tree} {library : Library} {reference : NodeId} {name : String}

/-- The symbol that the index has of a function is the one that the tree says. -/
theorem functionSymbol?_of (ht : t.Linked) (library : Library) (id : NodeId) :
    functionSymbol? (TypeNames.of t library) id = t.functionSymbol? id := by
  unfold functionSymbol? Tree.functionSymbol? Tree.functionHead?
  rw [TypeNames.tree_of]
  cases t.kind? id with
  | none => rfl
  | some kind =>
    cases kind with
    | function head =>
      rw [Option.map_some]
      unfold Tree.functionName
      cases howner : t.view.enclosingClass? id with
      | some owner =>
        rw [Option.bind_some, lookup_classes, if_pos (ht.mem_classes_of_enclosingClass? howner)]
        rfl
      | none => cases t.package? <;> rfl
    | _ => rfl

/-- A function is visible where it is in reach. -/
theorem isVisibleAt_eq (t : Tree) (library : Library) (reference id : NodeId)
    {f : FunctionSymbol} (hf : f.declaration? = some id) :
    (build t library).isVisibleAt reference f = t.isInReach reference id := by
  rw [isVisibleAt, hf]
  rfl

/-- **A search among the functions of the file is a search among those in reach.** -/
theorem find?_functions (t : Tree) (library : Library) (reference : NodeId) (name : String) :
    ((build t library).functions.find? fun f =>
        f.name == name && (build t library).isVisibleAt reference f) =
      (t.inReach reference name).head?.bind (functionSymbol? (TypeNames.of t library)) := by
  change ((t.findAll isFunction).filterMap (functionSymbol? _)).find? _ = _
  rw [List.find?_filterMap, Tree.findAll, List.find?_filter, Tree.inReach, List.head?_filter]
  -- what is left is one node: it passes both searches or none
  refine congrArg (fun p => (List.find? p _).bind _) (funext fun id => ?_)
  unfold functionSymbol? Tree.functionHead?
  rw [TypeNames.tree_of]
  cases t.kind? id with
  | none => rfl
  | some kind =>
    cases kind with
    | function head =>
      simp only [Option.any_some, isFunction, true_and, Bool.decide_eq_true]
      rw [isVisibleAt_eq t library reference id rfl]
    | _ => rfl

/-- Without a function in reach, the library decides. -/
theorem functionOf?_of_inReach_nil (library : Library)
    (hr : t.kind? reference = some (.nameRef name)) (hnone : t.inReach reference name = []) :
    (build t library).functionOf? reference =
      ((build t library).libraryFunction? name).map librarySymbol := by
  rw [functionOf?, show (build t library).tree.kind? reference = _ from hr]
  simp only [find?_functions, hnone, List.head?_nil, Option.bind_none, Option.none_or]

/-- **What a bare name means**: the first function in reach, and else what the library says. -/
theorem functionOf?_eq (ht : t.Linked) (library : Library)
    (hr : t.kind? reference = some (.nameRef name)) :
    (build t library).functionOf? reference =
      ((t.inReach reference name).head?.bind t.functionSymbol?).or
        (((build t library).libraryFunction? name).map librarySymbol) := by
  rw [functionOf?, show (build t library).tree.kind? reference = _ from hr]
  simp only [find?_functions]
  rw [funext (functionSymbol?_of ht library)]

/-- A library function is one of the library. -/
theorem mem_of_libraryFunction? {x : Index} {f : LibraryFunction}
    (h : x.libraryFunction? name = some f) : f ∈ x.library.functions := by
  unfold libraryFunction? at h
  split at h
  · exact List.mem_of_find?_eq_some h
  · exact (List.mem_filter.mp (List.mem_of_find?_eq_some h)).1

end Index

/-! ## 3. Functions out of reach -/

/-- The kinds of functions and of nodes that names do not refer to. -/
def Kind.isFunctionOrPlain : Kind → Bool
  | .function _ => true
  | .other _ => true
  | _ => false

/-- The package that a file node declares. -/
def Kind.declaredPackage? : Kind → Option String
  | .file package? => package?
  | _ => none

namespace Tree

theorem package?_eq_bind (t : Tree) : t.package? = (t.kind? root).bind Kind.declaredPackage? := by
  rw [package?]
  cases t.kind? root with
  | none => rfl
  | some kind => cases kind <;> rfl

/-- `u` is `t` but for functions out of reach from `reference`: where one of the trees has such a
function, the other may have another function, or a node that is no function at all. -/
structure AlikeFrom (reference : NodeId) (t u : Tree) : Prop where
  size_eq : u.size = t.size
  parent?_eq : ∀ id, u.parent? id = t.parent? id
  children_eq : ∀ id, u.children id = t.children id
  kind?_eq : ∀ id, u.kind? id = t.kind? id ∨
    t.isInReach reference id = false ∧ (t.kind? id).any Kind.isFunctionOrPlain = true ∧
      (u.kind? id).any Kind.isFunctionOrPlain = true

namespace AlikeFrom

variable {t u : Tree} {reference : NodeId} (h : AlikeFrom reference t u)
include h

/-- What neither functions nor plain nodes have is the same in both trees. -/
theorem bind_kind?_eq {α : Type} {f : Kind → Option α}
    (hf : ∀ kind, kind.isFunctionOrPlain = true → f kind = none) (id : NodeId) :
    (u.kind? id).bind f = (t.kind? id).bind f := by
  rcases h.kind?_eq id with heq | ⟨-, ht, hu⟩
  · rw [heq]
  · obtain ⟨kind, hk, hkind⟩ := (Option.any_eq_true _ _).mp ht
    obtain ⟨kind', hk', hkind'⟩ := (Option.any_eq_true _ _).mp hu
    rw [hk, hk', Option.bind_some, Option.bind_some, hf _ hkind, hf _ hkind']

theorem classHead?_eq (id : NodeId) : u.classHead? id = t.classHead? id := by
  refine h.bind_kind?_eq (fun kind hk => ?_) id
  cases kind with
  | classLike | objectLike => cases hk
  | _ => rfl

theorem kindIs_isClass (id : NodeId) :
    u.view.kindIs Kind.isClass id = t.view.kindIs Kind.isClass id := by
  have hclass : ∀ t : Tree, t.view.kindIs Kind.isClass id = (t.classHead? id).isSome := by
    intro t
    rw [classHead?, Option.isSome_bind]
    rfl
  rw [hclass, hclass, h.classHead?_eq]

theorem package?_eq : u.package? = t.package? := by
  rw [package?_eq_bind, package?_eq_bind]
  refine h.bind_kind?_eq (fun kind hk => ?_) root
  cases kind with
  | file => cases hk
  | _ => rfl

theorem imports_eq : u.imports = t.imports := by
  have himport : u.import? = t.import? := by
    funext id
    refine h.bind_kind?_eq (fun kind hk => ?_) id
    cases kind with
    | importing => cases hk
    | _ => rfl
  rw [imports_eq_filterMap, imports_eq_filterMap, h.size_eq, himport]

theorem ancestors_eq (id : NodeId) : u.view.ancestors id = t.view.ancestors id :=
  ancestors_congr h.size_eq h.parent?_eq id

theorem enclosingClass?_eq (id : NodeId) :
    u.view.enclosingClass? id = t.view.enclosingClass? id := by
  rw [View.enclosingClass?, View.enclosingClass?, h.ancestors_eq, funext h.kindIs_isClass]

theorem qualifiedName_eq (id : NodeId) : u.qualifiedName id = t.qualifiedName id := by
  have hnames : u.classNames id = t.classNames id := by
    simp only [classNames, h.ancestors_eq, h.classHead?_eq]
  rw [qualifiedName, qualifiedName, hnames, h.package?_eq]

/-- The links of one tree are in order if those of the other are. -/
theorem linked (ht : t.Linked) : u.Linked := by
  refine ht.of_eq_links ?_ h.size_eq h.parent?_eq h.children_eq
  obtain ⟨package?, hroot⟩ := ht.file
  rcases h.kind?_eq root with heq | ⟨-, hplain, -⟩
  · exact ⟨package?, heq.trans hroot⟩
  · rw [hroot] at hplain
    cases hplain

/-- **The same functions are in reach.** -/
theorem inReach_eq (name : String) : u.inReach reference name = t.inReach reference name := by
  rw [inReach, inReach, descendants_congr h.size_eq h.children_eq]
  refine List.filter_congr fun id _ => ?_
  have hreach : u.isInReach reference id = t.isInReach reference id := by
    simp only [isInReach, h.enclosingClass?_eq, h.ancestors_eq]
  rcases h.kind?_eq id with heq | ⟨hout, -, -⟩
  · simp only [functionHead?, heq, hreach]
  · rw [hreach, hout, Bool.and_false, Bool.and_false]

/-- A function in reach has the same symbol. -/
theorem functionSymbol?_eq {id : NodeId} (hid : t.isInReach reference id = true) :
    u.functionSymbol? id = t.functionSymbol? id := by
  rcases h.kind?_eq id with heq | ⟨hout, -, -⟩
  · simp only [functionSymbol?, functionHead?, functionName, heq, h.enclosingClass?_eq,
      h.qualifiedName_eq, h.package?_eq]
  · rw [hout] at hid
    cases hid

end AlikeFrom

/-- Replaces the kind of a node; an unknown node has none to replace. -/
def setKind (t : Tree) (id : NodeId) (kind : Kind) : Tree :=
  { t with nodes := t.nodes.modify id fun node => { node with kind } }

/-- A function out of reach may be replaced. -/
theorem alikeFrom_setKind {t : Tree} {reference id : NodeId} {head : FunctionHead} {kind : Kind}
    (hid : t.kind? id = some (.function head)) (hout : t.isInReach reference id = false)
    (hkind : kind.isFunctionOrPlain = true) : AlikeFrom reference t (t.setKind id kind) := by
  obtain ⟨hparent, hchildren⟩ :=
    links_modify t id (fun node => { node with kind }) (fun _ => ⟨rfl, rfl⟩)
  refine ⟨by simp [setKind, size], hparent, hchildren, fun d => ?_⟩
  have hget : (t.setKind id kind).get? d =
      if id = d then (t.get? d).map fun node => { node with kind } else t.get? d :=
    Array.getElem?_modify
  by_cases hd : id = d
  · subst hd
    refine .inr ⟨hout, by rw [hid]; rfl, ?_⟩
    obtain ⟨node, hn, -⟩ := Option.map_eq_some_iff.mp hid
    rw [kind?, hget, if_pos rfl, hn]
    exact hkind
  · rw [kind?, hget, if_neg hd]
    exact .inl rfl

end Tree

namespace Index

variable {t u : Tree} {reference : NodeId} {name : String}

/-- The library is asked the same. -/
theorem libraryFunction?_alikeFrom (h : Tree.AlikeFrom reference t u) (library : Library)
    (name : String) :
    (build u library).libraryFunction? name = (build t library).libraryFunction? name := by
  have himports : (build u library).tree.imports = (build t library).tree.imports := h.imports_eq
  have hpackage : (build u library).tree.package? = (build t library).tree.package? :=
    h.package?_eq
  have havailable : (build u library).isAvailable = (build t library).isAvailable := by
    funext f
    rw [isAvailable, isAvailable, himports, hpackage]
  rw [libraryFunction?, libraryFunction?, aliased?, aliased?, himports, havailable]
  rfl

/-- **What is out of reach does not matter.** -/
theorem functionOf?_alikeFrom (ht : t.Linked) (h : Tree.AlikeFrom reference t u)
    (library : Library) (hr : t.kind? reference = some (.nameRef name)) :
    (build u library).functionOf? reference = (build t library).functionOf? reference := by
  have hr' : u.kind? reference = some (.nameRef name) := by
    rcases h.kind?_eq reference with heq | ⟨-, hplain, -⟩
    · exact heq.trans hr
    · rw [hr] at hplain
      cases hplain
  rw [functionOf?_eq (h.linked ht) library hr', functionOf?_eq ht library hr, h.inReach_eq,
    libraryFunction?_alikeFrom h]
  cases hfirst : (t.inReach reference name).head? with
  | none => rfl
  | some id =>
    have hid : t.isInReach reference id = true :=
      (Tree.mem_inReach_iff.mp (List.mem_of_head? hfirst)).2.2
    rw [Option.bind_some, Option.bind_some, h.functionSymbol?_eq hid]

/-- **Shadowing**, in every tree that steps have built and for every library.  Take the functions of
the file with the name that stands at a node, in document order, that are outside all classes or in
a class around the node.  If there are any, the name means the first of them, called after the class
around it or else after the package of the file, and no function of the library; if there is none,
the name means nothing or a function of the library.  Members of classes that are not around the
node do not matter: whatever functions or other nodes are put in their places, the name means the
same. -/
theorem functionOf?_shadowing {t : Tree} (ht : t.Built) (library : Library) {reference : NodeId}
    {name : String} (hr : t.kind? reference = some (.nameRef name)) :
    (∀ id rest, t.inReach reference name = id :: rest →
      ∃ head, t.kind? id = some (.function head) ∧
        (build t library).functionOf? reference =
          some { name, qualifiedName := t.functionName id name, receiver? := head.receiver?,
                 declaration? := some id } ∧
        ∀ f ∈ library.functions,
          (build t library).functionOf? reference ≠ some (librarySymbol f)) ∧
    (t.inReach reference name = [] →
      (build t library).functionOf? reference = none ∨
        ∃ f ∈ library.functions,
          (build t library).functionOf? reference = some (librarySymbol f)) ∧
    ∀ u, Tree.AlikeFrom reference t u →
      (build u library).functionOf? reference = (build t library).functionOf? reference := by
  refine ⟨?_, ?_, fun u h => functionOf?_alikeFrom ht.linked h library hr⟩
  · intro id rest hreach
    have hmem : id ∈ t.inReach reference name := by rw [hreach]; exact List.mem_cons_self
    obtain ⟨-, ⟨head, hhead, rfl⟩, -⟩ := Tree.mem_inReach_iff.mp hmem
    have hfunction := functionOf?_eq ht.linked library hr
    rw [hreach, List.head?_cons, Option.bind_some, Tree.functionSymbol?, hhead, Option.map_some,
      Option.some_or] at hfunction
    refine ⟨head, Tree.kind?_of_functionHead? hhead, hfunction, fun f _ heq => ?_⟩
    rw [hfunction, Option.some.injEq] at heq
    exact absurd (congrArg FunctionSymbol.declaration? heq) (by simp [librarySymbol])
  · intro hnone
    rw [functionOf?_of_inReach_nil library hr hnone]
    cases hf : (build t library).libraryFunction? name with
    | none => exact .inl rfl
    | some f => exact .inr ⟨f, mem_of_libraryFunction? hf, rfl⟩

namespace Example

/-- A file that imports the vocabulary.  Its class `Helper` has a function `describe` at place 3,
and the name `describe` stands inside the class at place 5 and outside at place 7. -/
def helper : Tree :=
  (Tree.inPackage (some "com.example")).afterAll
    [.addImport { path := "org.jetbrains.spek.api.dsl", star := true },
      .addClass Tree.root { name := "Helper" },
      .addFunction 2 { name := "describe", receiver? := some (.user "String") },
      .addCall 2 "describe", .addCall Tree.root "describe"]

theorem built_helper : helper.Built := (Tree.Built.inPackage _).afterAll (by decide)

end Example

/-- Inside the class the name means its member, and outside a function of the library, also if the
member is called otherwise. -/
theorem functionOf?_shadowing_helper :
    Example.helper.Built ∧ Example.helper.kind? 5 = some (.nameRef "describe") ∧
    Example.helper.kind? 7 = some (.nameRef "describe") ∧
    (build Example.helper .framework).functionOf? 5 =
      some { name := "describe", qualifiedName := "com.example.Helper.describe",
             receiver? := some (.user "String"), declaration? := some 3 } ∧
    (∃ f ∈ Library.framework.functions,
      (build Example.helper .framework).functionOf? 7 = some (librarySymbol f)) ∧
    (build (Example.helper.setKind 3 (.function { name := "it" })) .framework).functionOf? 7 =
      (build Example.helper .framework).functionOf? 7 := by
  have ht := Example.built_helper
  have h₅ : Example.helper.kind? 5 = some (.nameRef "describe") := by decide +kernel
  have h₇ : Example.helper.kind? 7 = some (.nameRef "describe") := by decide +kernel
  obtain ⟨hinside, -, -⟩ := functionOf?_shadowing ht .framework h₅
  obtain ⟨-, houtside, halike⟩ := functionOf?_shadowing ht .framework h₇
  obtain ⟨head, hhead, hmember, -⟩ := hinside 3 [] (by decide +kernel)
  have h₃ : Example.helper.kind? 3 =
      some (.function { name := "describe", receiver? := some (.user "String") }) := by
    decide +kernel
  refine ⟨ht, h₅, h₇, ?_, ?_, halike _ (Tree.alikeFrom_setKind h₃ (by decide +kernel) rfl)⟩
  · have hname : Example.helper.functionName 3 "describe" = "com.example.Helper.describe" := by
      decide +kernel
    rw [h₃, Option.some.injEq, Kind.function.injEq] at hhead
    rw [hmember, hname, ← hhead]
  · exact (houtside (by decide +kernel)).resolve_left (by decide +kernel)

end Index

end SpecOutline
