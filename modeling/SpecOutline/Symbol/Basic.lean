/-
# Symbols and resolvers

What a name in a file may mean: a class or a function.  The analyses ask a `Resolver`; the
index of a file and a library is one.
-/
import SpecOutline.Tree.Basic

namespace SpecOutline

/-! ## 1. Scopes -/

/-- From where a type is looked up: from anywhere, or from one module. -/
inductive Scope where
  | project
  | inModule (name : String)
deriving Repr, DecidableEq, Inhabited

/-- Whether a type visible from some modules (from all if none is listed) is visible from
here. -/
def Scope.sees (s : Scope) (modules : List String) : Bool :=
  match s with
  | .project => true
  | .inModule name => modules.isEmpty || modules.contains name

/-! ## 2. Symbols -/

/-- A class, with the scope it was found in and its declaration if that is in the file. -/
structure ClassSymbol where
  qualifiedName : String
  isAbstract : Bool
  scope : Scope := .project
  declaration? : Option NodeId := none
deriving Repr, DecidableEq

/-- The name of a class without its package and outer classes. -/
def ClassSymbol.simpleName (c : ClassSymbol) : String := lastName c.qualifiedName

/-- A function, with its declaration if that is in the file. -/
structure FunctionSymbol where
  name : String
  qualifiedName : String
  receiver? : Option TypeRef := none
  declaration? : Option NodeId := none
deriving Repr, DecidableEq

/-! ## 3. Resolvers -/

/-- What the analyses ask about names. -/
structure Resolver where
  /-- The scope that a node is looked up from. -/
  scopeOf : NodeId → Scope
  /-- The class with a qualified name, if it is visible from a scope. -/
  findClass? : String → Scope → Option ClassSymbol
  /-- The class that a node declares. -/
  classOf? : NodeId → Option ClassSymbol
  /-- Whether a class is a proper subclass of another, over any number of supertypes. -/
  inherits : ClassSymbol → ClassSymbol → Bool
  /-- The function that a bare name refers to. -/
  functionOf? : NodeId → Option FunctionSymbol
  /-- The qualified name of a type as written at a node. -/
  typeNamed? : NodeId → String → Option String

end SpecOutline
