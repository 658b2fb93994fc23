/-
# Trees as JSON

Each part of a tree has an encoder `toJson` and a decoder `ofJson`.  A kind is an object
tagged with its label under `type`; what it carries stands beside the tag.  A type is an
object with its sort under `kind` and its text under `text`.  Fields that may be left out
are written only if they hold something; on reading, a missing field stands for nothing.
-/
import SpecOutline.Json.Decode
import SpecOutline.Tree.Basic

namespace SpecOutline

open SpecOutline.Json

/-! ## 1. Entries -/

/-- An entry that is written only if there is a value. -/
def entryIfSome {α : Type} (key : String) (encode : α → Value) :
    Option α → List (String × Value)
  | some a => [(key, encode a)]
  | none => []

/-- An entry that is written only if the list holds something. -/
def entryIfAny {α : Type} (key : String) (encode : α → Value) :
    List α → List (String × Value)
  | [] => []
  | as => [(key, .array (as.map encode))]

/-- The numbers of sixty-four bits are below this. -/
def wordBound : Nat := Nat.pow 2 64

/-- The places of nodes are below this. -/
def placeBound : Nat := Nat.pow 2 32

/-! ## 2. Languages, spans, types -/

/-- A language by its name. -/
def Language.toJson (l : Language) : Value := .text l.key

/-- Reads a language. -/
def Language.ofJson (v : Value) : Except Fault Language := enumeration .direct byKey v

/-- A span with all its fields. -/
def Span.toJson (s : Span) : Value :=
  .object [("start", .nat s.start), ("end", .nat s.stop), ("start_line", .nat s.startLine),
    ("end_line", .nat s.stopLine), ("start_column", .nat s.startColumn),
    ("end_column", .nat s.stopColumn)]

/-- Reads a span. -/
def Span.ofJson (v : Value) : Except Fault Span := do
  let r ← record .direct
    ["start", "end", "start_line", "end_line", "start_column", "end_column"] v
  return {
    start := ← r.required "start" (Value.asNat wordBound)
    stop := ← r.required "end" (Value.asNat wordBound)
    startLine := ← r.required "start_line" (Value.asNat wordBound)
    stopLine := ← r.required "end_line" (Value.asNat wordBound)
    startColumn := ← r.required "start_column" (Value.asNat wordBound)
    stopColumn := ← r.required "end_column" (Value.asNat wordBound) }

/-- A type by its sort and text. -/
def TypeRef.toJson : TypeRef → Value
  | .user text => .object [("kind", .text "user"), ("text", .text text)]
  | .other text => .object [("kind", .text "other"), ("text", .text text)]

/-- Reads a type. -/
def TypeRef.ofJson (place : Place) (v : Value) : Except Fault TypeRef := do
  let r ← record place ["kind", "text"] v
  let make ← r.required "kind"
    (enumeration place [("user", TypeRef.user), ("other", TypeRef.other)])
  return make (← r.required "text" Value.asText)

/-! ## 3. Imports and heads -/

/-- The fields of an import. -/
def Import.entries (i : Import) : List (String × Value) :=
  [("path", .text i.path)] ++ entryIfSome "alias" .text i.alias?
    ++ [("star", .bool i.star)]

/-- An import. -/
def Import.toJson (i : Import) : Value := .object i.entries

/-- Reads an import. -/
def Import.ofJson (place : Place) (v : Value) : Except Fault Import := do
  let r ← record place ["path", "alias", "star"] v
  return {
    path := ← r.required "path" Value.asText
    alias? := ← r.optional "alias" Value.asText
    star := ← r.orElse "star" false Value.asBool }

/-- The fields of a class head. -/
def ClassHead.entries (h : ClassHead) : List (String × Value) :=
  [("name", .text h.name), ("supertypes", .texts h.supertypes),
    ("is_abstract", .bool h.isAbstract), ("is_interface", .bool h.isInterface)]

/-- A class head. -/
def ClassHead.toJson (h : ClassHead) : Value := .object h.entries

/-- Reads a class head. -/
def ClassHead.ofJson (place : Place) (v : Value) : Except Fault ClassHead := do
  let r ← record place ["name", "supertypes", "is_abstract", "is_interface"] v
  return {
    name := ← r.required "name" Value.asText
    supertypes := ← r.orElse "supertypes" [] (Value.asList Value.asText)
    isAbstract := ← r.orElse "is_abstract" false Value.asBool
    isInterface := ← r.orElse "is_interface" false Value.asBool }

/-- The fields of a function head. -/
def FunctionHead.entries (h : FunctionHead) : List (String × Value) :=
  [("name", .text h.name)] ++ entryIfSome "receiver" TypeRef.toJson h.receiver?

/-- Reads a function head. -/
def FunctionHead.ofJson (place : Place) (v : Value) : Except Fault FunctionHead := do
  let r ← record place ["name", "receiver"] v
  return {
    name := ← r.required "name" Value.asText
    receiver? := ← r.optional "receiver" (TypeRef.ofJson place) }

/-! ## 4. Kinds -/

namespace Kind

/-- The tag of a kind. -/
def tag : Kind → String
  | .other _ => "other"
  | k => k.label

/-- What stands beside the tag of a kind. -/
def entries : Kind → List (String × Value)
  | .file package? => entryIfSome "package" .text package?
  | .importing directive => directive.entries
  | .classLike head => head.entries
  | .objectLike head => head.entries
  | .function head => head.entries
  | .annotated typeName => [("type_name", .text typeName)]
  | .nameRef name => [("name", .text name)]
  | .stringTemplate text => [("text", .text text)]
  | .other name => [("kind", .text name)]
  | _ => []

/-- A kind. -/
def toJson (k : Kind) : Value := .object (("type", .text k.tag) :: k.entries)

/-- Reads a single text field of a kind. -/
def textField (name : String) (v : Value) : Except Fault String := do
  (← record .aside [name] v).required name Value.asText

/-- Reads what stands beside a tag. -/
def ofTag (tag : String) (rest : Value) : Except Fault Kind :=
  match tag with
  | "file" => do
    return .file (← (← record .aside ["package"] rest).optional "package" Value.asText)
  | "import" => .importing <$> Import.ofJson .aside rest
  | "class" => .classLike <$> ClassHead.ofJson .aside rest
  | "object" => .objectLike <$> ClassHead.ofJson .aside rest
  | "function" => .function <$> FunctionHead.ofJson .aside rest
  | "annotation" => .annotated <$> textField "type_name" rest
  | "call" => (fun _ => .call) <$> noFields rest
  | "name_reference" => .nameRef <$> textField "name" rest
  | "dot_qualified" => (fun _ => .dotQualified) <$> noFields rest
  | "value_argument" => (fun _ => .valueArgument) <$> noFields rest
  | "lambda_argument" => (fun _ => .lambdaArgument) <$> noFields rest
  | "lambda_expression" => (fun _ => .lambdaExpression) <$> noFields rest
  | "function_literal" => (fun _ => .functionLiteral) <$> noFields rest
  | "block" => (fun _ => .block) <$> noFields rest
  | "string_template" => .stringTemplate <$> textField "text" rest
  | "other" => .other <$> textField "kind" rest
  | _ => .error .mismatch

/-- Reads a kind that stands at a place where `room` more levels may open inside it. -/
def ofJson (room : Nat) (v : Value) : Except Fault Kind := do
  let (tag, rest) ← tagged "type" room v
  ofTag tag rest

end Kind

/-! ## 5. Nodes and trees -/

/-- The number of levels that may be open at once while a text is read. -/
def depthBound : Nat := 127

/-- A node. -/
def Node.toJson (n : Node) : Value :=
  .object ([("kind", n.kind.toJson)] ++ entryIfSome "parent" .nat n.parent?
    ++ entryIfAny "children" .nat n.children ++ [("span", n.span.toJson)])

/-- Reads a node of a tree: its kind stands inside the tree, its list of nodes, the node and
itself. -/
def Node.ofJson (v : Value) : Except Fault Node := do
  let r ← record .direct ["kind", "parent", "children", "span"] v
  return {
    kind := ← r.required "kind" (Kind.ofJson (depthBound - 4))
    parent? := ← r.optional "parent" (Value.asNat placeBound)
    children := ← r.orElse "children" [] (Value.asList (Value.asNat placeBound))
    span := ← r.orElse "span" {} Span.ofJson }

/-- A tree. -/
def Tree.toJson (t : Tree) : Value :=
  .object (entryIfSome "path" .text t.path? ++ [("language", t.language.toJson),
      ("nodes", .array (t.nodes.toList.map Node.toJson))]
    ++ entryIfAny "error_regions" Span.toJson t.errorRegions)

/-- Reads a tree. -/
def Tree.ofJson (v : Value) : Except Fault Tree := do
  let r ← record .direct ["path", "language", "nodes", "error_regions"] v
  return {
    path? := ← r.optional "path" Value.asText
    language := ← r.required "language" Language.ofJson
    nodes := (← r.required "nodes" (Value.asList Node.ofJson)).toArray
    errorRegions := ← r.orElse "error_regions" [] (Value.asList Span.ofJson) }

end SpecOutline
