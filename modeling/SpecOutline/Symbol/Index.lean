/-
# The index of a file

What the names of one file mean, given a library (`SymbolIndex`).

* A class of the file is called by its package, its outer classes and its own name
  (`qualified_name_of`).
* A simple type name means, in this order: a type nested in a class around the place where
  it is written, the nearest first; what an import binds it to; a type of the file's
  package; a type of a star import's package; a type without package
  (`resolve_simple_type`).
* A qualified type name means itself if it is known, and else starts from what its first
  name means (`resolve_type_name`).
* A function name means a function of the file that is visible there, the first in document
  order, or else a function of the library that an import or the package makes visible
  (`resolve_function`).  An alias admits only the function that it renames.

`build` enters the types of the library, then the classes of the file, and looks up what these
extend when all names are entered: `TypeNames` is what it knows then, and `typeTable` the map that
it leaves.  Where `build` enters a name again, the earlier entry is lost; in the table it stands
behind the later one.
-/
import SpecOutline.Library.Basic
import SpecOutline.Symbol.Basic
import SpecOutline.Symbol.TypeTable
import SpecOutline.Tree.Traversal
import SpecOutline.Tree.View

namespace SpecOutline

open SpecOutline.Text

/-! ## 1. Names of classes -/

/-- Two names with a dot between them. -/
def dotted (outer inner : String) : String := outer ++ "." ++ inner

/-- The head of the class or object at a place. -/
def Tree.classHead? (t : Tree) (id : NodeId) : Option ClassHead := (t.kind? id).bind Kind.head?

/-- The names of the classes around and including a node, outermost first. -/
def Tree.classNames (t : Tree) (id : NodeId) : List String :=
  ((id :: t.view.ancestors id).filterMap fun a => (t.classHead? a).map (·.name)).reverse

/-- The qualified name of a class of the file (`qualified_name_of`). -/
def Tree.qualifiedName (t : Tree) (id : NodeId) : String :=
  let name := String.intercalate "." (t.classNames id)
  match t.package? with
  | some "" => name
  | some package => dotted package name
  | none => name

/-! ## 2. What a type name means -/

/-- What decides the meaning of type names in a file: the classes of the file by place, and
the qualified names that are known. -/
structure TypeNames where
  tree : Tree
  classes : List (NodeId × String)
  known : List String

namespace TypeNames

/-- The type names of a file and a library. -/
def of (tree : Tree) (library : Library) : TypeNames :=
  let classes := tree.classes.map fun id => (id, tree.qualifiedName id)
  { tree, classes,
    known := library.types.map (·.qualifiedName) ++ classes.map (·.2) }

@[simp] theorem tree_of (t : Tree) (library : Library) : (of t library).tree = t := rfl

theorem classes_of (t : Tree) (library : Library) :
    (of t library).classes = t.classes.map fun id => (id, t.qualifiedName id) := rfl

/-- A qualified name, if it is known. -/
def known? (n : TypeNames) (name : String) : Option String :=
  if n.known.contains name then some name else none

/-- A simple name as a type nested in a class around a place. -/
def nested? (n : TypeNames) (context : NodeId) (name : String) : Option String :=
  (n.tree.view.ancestors context).findSome? fun a =>
    (n.classes.lookup a).bind fun outer => n.known? (dotted outer name)

/-- A simple name as what an import binds it to. -/
def imported? (n : TypeNames) (name : String) : Option String :=
  (n.tree.imports.find? fun i => i.boundName? == some name).map (·.path)

/-- A simple name as a type of the file's package. -/
def inPackage? (n : TypeNames) (name : String) : Option String :=
  n.tree.package?.bind fun package => n.known? (dotted package name)

/-- A simple name as a type of a star import's package. -/
def starImported? (n : TypeNames) (name : String) : Option String :=
  (n.tree.imports.filter (·.star)).findSome? fun i => n.known? (dotted i.path name)

/-- The meaning of a simple name (`resolve_simple_type`). -/
def simple? (n : TypeNames) (context : NodeId) (name : String) : Option String :=
  (n.nested? context name).or <| (n.imported? name).or <| (n.inPackage? name).or <|
    (n.starImported? name).or (n.known? name)

/-- A type name without type arguments, question marks and blanks, `depth` brackets being
open (`clean_type_name`). -/
def bareTypeName (depth : Nat) : List Char → List Char
  | [] => []
  | c :: cs =>
    if c = '<' then bareTypeName (depth + 1) cs
    else if c = '>' then bareTypeName (depth - 1) cs
    else if c = '?' || isBlank c || depth ≠ 0 then bareTypeName depth cs
    else c :: bareTypeName depth cs

/-- The meaning of a type name as written at a place (`resolve_type_name`). -/
def resolve? (n : TypeNames) (context : NodeId) (written : String) : Option String :=
  let bare := bareTypeName 0 written.toList
  let name := String.ofList bare
  if bare.isEmpty then none
  else match cutFirst? '.' bare with
    | none => n.simple? context name
    | some (first, rest) =>
      if n.known.contains name then some name
      else match n.simple? context (String.ofList first) with
        | some outer => some (dotted outer (String.ofList rest))
        | none => some name

end TypeNames

/-! ## 3. The index -/

/-- The meaning of the names of a file. -/
structure Index where
  names : TypeNames
  library : Library
  scope : Scope
  types : TypeTable
  functions : List FunctionSymbol

namespace Index

/-- The entry of a library type. -/
def libraryEntry (t : LibraryType) : String × TypeEntry :=
  (t.qualifiedName,
    { supertypes := t.supertypes, isAbstract := t.isAbstract, modules := t.modules,
      declaration? := none })

/-- The entry of a class of the file.  A supertype without a meaning stays as written. -/
def fileEntry (n : TypeNames) (id : NodeId) (name : String) : Option (String × TypeEntry) :=
  (n.tree.classHead? id).map fun head =>
    (name,
      { supertypes := head.supertypes.map fun s => (n.resolve? id s).getD s
        isAbstract := head.isAbstract || head.isInterface
        modules := []
        declaration? := some id })

/-- The types of a file and a library; later declarations stand nearer the front, and those
of the file before those of the library. -/
def typeTable (n : TypeNames) (library : Library) : TypeTable :=
  (n.classes.filterMap fun (id, name) => fileEntry n id name).reverse
    ++ (library.types.map libraryEntry).reverse

/-- The symbol of a function of the file, called by the class or else the package around
it. -/
def functionSymbol? (n : TypeNames) (id : NodeId) : Option FunctionSymbol :=
  match n.tree.kind? id with
  | some (.function head) =>
    let class? := (n.tree.view.enclosingClass? id).bind fun c => n.classes.lookup c
    let owner? := class?.or n.tree.package?
    some {
      name := head.name
      qualifiedName := (owner?.map (dotted · head.name)).getD head.name
      receiver? := head.receiver?
      declaration? := some id }
  | _ => none

/-- Whether a kind is that of a function. -/
def isFunction : Kind → Bool
  | .function _ => true
  | _ => false

/-- The index of a file and a library, looking names up from anywhere (`build`). -/
def build (tree : Tree) (library : Library) : Index :=
  let names := TypeNames.of tree library
  { names, library, scope := .project,
    types := typeTable names library
    functions := (tree.findAll isFunction).filterMap (functionSymbol? names) }

/-- The index that looks names up from a scope (`with_scope`). -/
def withScope (x : Index) (scope : Scope) : Index := { x with scope }

@[simp] theorem names_build (t : Tree) (library : Library) :
    (build t library).names = TypeNames.of t library := rfl

@[simp] theorem names_withScope (x : Index) (scope : Scope) :
    (x.withScope scope).names = x.names := rfl

/-- The tree of the file. -/
def tree (x : Index) : Tree := x.names.tree

/-! ## 4. Classes -/

/-- The class with a qualified name, if it is visible from a scope (`find_class`). -/
def findClass? (x : Index) (name : String) (scope : Scope) : Option ClassSymbol :=
  match x.types.find? name with
  | some entry =>
    if scope.sees entry.modules then
      some { qualifiedName := name, isAbstract := entry.isAbstract, scope,
             declaration? := entry.declaration? }
    else none
  | none => none

/-- The class that a node declares (`class_of`). -/
def classOf? (x : Index) (id : NodeId) : Option ClassSymbol :=
  (x.names.classes.lookup id).bind fun name => x.findClass? name x.scope

/-- Whether a class has another among its direct supertypes (`is_inheritor`, not `deep`). -/
def inheritsDirectly (x : Index) (c base : ClassSymbol) : Bool :=
  x.types.inheritsDirectly c.qualifiedName base.qualifiedName

/-- Whether a class has another among its supertypes (`is_inheritor`, `deep`). -/
def inherits (x : Index) (c base : ClassSymbol) : Bool :=
  x.types.inherits c.qualifiedName base.qualifiedName

/-! ## 5. Functions -/

/-- Whether a function of the file is visible at a place: a member only inside its class
(`function_visible_from`). -/
def isVisibleAt (x : Index) (reference : NodeId) (f : FunctionSymbol) : Bool :=
  match f.declaration?.bind x.tree.view.enclosingClass? with
  | none => true
  | some owner => (x.tree.view.ancestors reference).contains owner

/-- Whether the package or an import makes a library function visible under its own name
(`function_visible`). -/
def isAvailable (x : Index) (f : LibraryFunction) : Bool :=
  x.tree.package?.getD "" == f.package ||
    x.tree.imports.any fun i =>
      if i.star then i.path == f.package
      else i.path == f.qualifiedName && i.boundName? == some f.name

/-- The path that an alias stands for. -/
def aliased? (x : Index) (name : String) : Option String :=
  (x.tree.imports.find? fun i => !i.star && i.alias? == some name).map (·.path)

/-- The library function that a name refers to (`library_function`). -/
def libraryFunction? (x : Index) (name : String) : Option LibraryFunction :=
  match x.aliased? name with
  | some path => x.library.functions.find? fun f => f.qualifiedName == path
  | none => (x.library.functionsNamed name).find? x.isAvailable

/-- The symbol of a library function. -/
def librarySymbol (f : LibraryFunction) : FunctionSymbol where
  name := f.name
  qualifiedName := f.qualifiedName
  receiver? := f.receiver?

/-- The function that a bare name refers to (`resolve_function`). -/
def functionOf? (x : Index) (reference : NodeId) : Option FunctionSymbol :=
  match x.tree.kind? reference with
  | some (.nameRef name) =>
    (x.functions.find? fun f => f.name == name && x.isVisibleAt reference f).or
      ((x.libraryFunction? name).map librarySymbol)
  | _ => none

/-! ## 6. The index as a resolver -/

/-- The answers of an index, as a `SymbolResolver` gives them. -/
def resolver (x : Index) : Resolver where
  scopeOf _ := x.scope
  findClass? := x.findClass?
  classOf? := x.classOf?
  inherits := x.inherits
  functionOf? := x.functionOf?
  typeNamed? := x.names.resolve?

@[simp] theorem findClass?_resolver (x : Index) : x.resolver.findClass? = x.findClass? := rfl

@[simp] theorem classOf?_resolver (x : Index) : x.resolver.classOf? = x.classOf? := rfl

@[simp] theorem inherits_resolver (x : Index) : x.resolver.inherits = x.inherits := rfl

end Index

end SpecOutline
