/-
# Symbols as JSON
-/
import SpecOutline.Symbol.Basic
import SpecOutline.Tree.Stored

namespace SpecOutline

open SpecOutline.Json

/-- A scope. -/
def Scope.toJson : Scope → Value
  | .project => .text "project"
  | .inModule name => .object [("module", .text name)]

/-- Reads a scope. -/
def Scope.ofJson : Value → Except Fault Scope
  | .text "project" => .ok .project
  | .object [("project", .null)] => .ok .project
  | .object [("module", v)] => .inModule <$> v.asText
  | v => .error v.unfit

/-- A class symbol. -/
def ClassSymbol.toJson (c : ClassSymbol) : Value :=
  .object ([("fq_name", .text c.qualifiedName), ("is_abstract", .bool c.isAbstract),
    ("scope", c.scope.toJson)] ++ entryIfSome "declaration" .nat c.declaration?)

/-- Reads a class symbol. -/
def ClassSymbol.ofJson (v : Value) : Except Fault ClassSymbol := do
  let r ← record .direct ["fq_name", "is_abstract", "scope", "declaration"] v
  return {
    qualifiedName := ← r.required "fq_name" Value.asText
    isAbstract := ← r.required "is_abstract" Value.asBool
    scope := ← r.orElse "scope" .project Scope.ofJson
    declaration? := ← r.optional "declaration" (Value.asNat placeBound) }

/-- A function symbol. -/
def FunctionSymbol.toJson (f : FunctionSymbol) : Value :=
  .object ([("name", .text f.name), ("fq_name", .text f.qualifiedName)]
    ++ entryIfSome "receiver" TypeRef.toJson f.receiver?
    ++ entryIfSome "declaration" .nat f.declaration?)

end SpecOutline
