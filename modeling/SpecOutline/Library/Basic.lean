/-
# Libraries

What is declared outside the file under analysis: types with their direct supertypes, and
top-level functions.  A library is a list of declarations; merging appends, so a name may
be declared more than once.
-/
import SpecOutline.Tree.Kind

namespace SpecOutline

open SpecOutline.Text

/-! ## 1. Declarations -/

/-- A type of a library, by its qualified name and those of its direct supertypes.  It is
visible from the listed modules, and from everywhere if none is listed. -/
structure LibraryType where
  qualifiedName : String
  supertypes : List String := []
  isAbstract : Bool := false
  modules : List String := []
deriving Repr, DecidableEq

/-- A top-level function of a library, by its qualified name. -/
structure LibraryFunction where
  qualifiedName : String
  receiver? : Option TypeRef := none
deriving Repr, DecidableEq

namespace LibraryFunction

/-- The name without its package. -/
def name (f : LibraryFunction) : String := lastName f.qualifiedName

/-- The package; empty for a name without a dot. -/
def package (f : LibraryFunction) : String :=
  match cutLast? '.' f.qualifiedName.toList with
  | some (before, _) => String.ofList before
  | none => ""

/-- An extension function on a user type. -/
def extending (receiver qualifiedName : String) : LibraryFunction where
  qualifiedName := qualifiedName
  receiver? := some (.user receiver)

end LibraryFunction

/-! ## 2. Libraries -/

/-- The declarations outside a file. -/
structure Library where
  types : List LibraryType := []
  functions : List LibraryFunction := []
deriving Repr, DecidableEq

namespace Library

/-- The declarations of `l` and then those of `m`. -/
def merge (l m : Library) : Library where
  types := l.types ++ m.types
  functions := l.functions ++ m.functions

/-- The first type with a qualified name. -/
def findType? (l : Library) (qualifiedName : String) : Option LibraryType :=
  l.types.find? fun t => t.qualifiedName == qualifiedName

/-- The functions with a simple name, in order. -/
def functionsNamed (l : Library) (name : String) : List LibraryFunction :=
  l.functions.filter fun f => f.name == name

/-- Adds a type at the end. -/
def addType (l : Library) (t : LibraryType) : Library := { l with types := l.types ++ [t] }

/-- Adds a function at the end. -/
def addFunction (l : Library) (f : LibraryFunction) : Library :=
  { l with functions := l.functions ++ [f] }

end Library

end SpecOutline
