/-
# Libraries as JSON

A library file lists types and functions; either list may be left out, and so may all of a
declaration but its qualified name.
-/
import SpecOutline.Error
import SpecOutline.Json.Parser
import SpecOutline.Library.Basic
import SpecOutline.Tree.Stored

namespace SpecOutline

open SpecOutline.Json

/-- A library type. -/
def LibraryType.toJson (t : LibraryType) : Value :=
  .object ([("fq_name", .text t.qualifiedName), ("supertypes", .texts t.supertypes),
    ("is_abstract", .bool t.isAbstract)] ++ entryIfAny "modules" .text t.modules)

/-- Reads a library type. -/
def LibraryType.ofJson (v : Value) : Except Fault LibraryType := do
  let r ← record .direct ["fq_name", "supertypes", "is_abstract", "modules"] v
  return {
    qualifiedName := ← r.required "fq_name" Value.asText
    supertypes := ← r.orElse "supertypes" [] (Value.asList Value.asText)
    isAbstract := ← r.orElse "is_abstract" false Value.asBool
    modules := ← r.orElse "modules" [] (Value.asList Value.asText) }

/-- A library function. -/
def LibraryFunction.toJson (f : LibraryFunction) : Value :=
  .object ([("fq_name", .text f.qualifiedName)]
    ++ entryIfSome "receiver" TypeRef.toJson f.receiver?)

/-- Reads a library function. -/
def LibraryFunction.ofJson (v : Value) : Except Fault LibraryFunction := do
  let r ← record .direct ["fq_name", "receiver"] v
  return {
    qualifiedName := ← r.required "fq_name" Value.asText
    receiver? := ← r.optional "receiver" (TypeRef.ofJson .direct) }

namespace Library

/-- A library. -/
def toJson (l : Library) : Value :=
  .object [("types", .array (l.types.map LibraryType.toJson)),
    ("functions", .array (l.functions.map LibraryFunction.toJson))]

/-- Reads a library. -/
def ofJson (v : Value) : Except Fault Library := do
  let r ← record .direct ["types", "functions"] v
  return {
    types := ← r.orElse "types" [] (Value.asList LibraryType.ofJson)
    functions := ← r.orElse "functions" [] (Value.asList LibraryFunction.ofJson) }

/-- Reads the text of a library file. -/
def ofText (text : String) : Except SourceError Library :=
  match parse text >>= ofJson with
  | .ok l => .ok l
  | .error fault => .error (.invalidLibrary fault)

end Library

end SpecOutline
