/-
# From parse trees to trees

A parse tree is lowered to shapes, which are then grafted onto an empty file (`lower`).

* Comments and the package header leave nothing; wrappers that only group (`statements`,
  `value_arguments`, `delegation_specifiers`) leave their contents.
* A call whose callee is itself a call is one call: `f(x) { }` and `f(x)(y)` have the callee
  `f` and all arguments in source order (`lower_call_parts`).  A lambda among the arguments
  outside parentheses is a trailing lambda (`lower_call_suffix`).
* A lambda becomes an expression, a literal and a block; its statements stand in the block,
  its parameters beside it (`lower_lambda`).
* Class, object and function heads keep their name, supertypes, receiver and annotations; the
  other modifiers go (`lower_class`, `lower_function`, `lower_annotations`).
* Every other phrase stays, under its own name.

`lower_node` looks at the kind of a phrase, and so do `lower_call_parts` and `lower_call_suffix`
for what stands in a call.  `Role` says which rule of the three a phrase falls under, and `shapes`
is all three at once.
-/
import SpecOutline.ParseTree.Basic
import SpecOutline.ParseTree.Header
import SpecOutline.Tree.Builder

namespace SpecOutline

open SpecOutline.Text

/-! ## 1. Roles -/

/-- Where a phrase stands: as the callee of a call, behind it, or anywhere else. -/
inductive Position where
  | anywhere
  | callee
  | suffix
deriving Repr, DecidableEq

/-- The rule that a phrase is lowered by. -/
inductive Role where
  | skipped
  | wrapper
  | stringLiteral
  | identifier
  | importing
  | classDeclaration
  | objectDeclaration
  | functionDeclaration
  | call
  | lambda
  | selection
  | valueArgument
  | annotated
  /-- A call in the place of a callee, merged into the call around it. -/
  | mergedCall
  /-- A group of arguments behind a callee. -/
  | argumentGroup
  /-- A lambda behind a callee, in the phrase that carries its annotations. -/
  | annotatedLambda
  /-- A lambda behind a callee. -/
  | trailingLambda
  | plain
deriving Repr, DecidableEq

/-- The kinds of identifiers. -/
def identifierKinds : List String := ["simple_identifier", "identifier"]

/-- The kinds that may name a class. -/
def classNameKinds : List String := ["type_identifier", "simple_identifier", "identifier"]

/-- The kinds of comments. -/
def commentKinds : List String :=
  ["line_comment", "multiline_comment", "block_comment", "comment"]

/-- The kinds of string literals that are kept as text. -/
def stringKinds : List String :=
  ["string_literal", "line_string_literal", "multi_line_string_literal"]

/-- The kinds that may be the receiver type of a function. -/
def receiverKinds : List String :=
  ["receiver_type", "type_reference", "user_type", "nullable_type", "function_type",
    "parenthesized_type"]

/-- The kinds that only group. -/
def wrapperKinds : List String := ["statements", "value_arguments", "delegation_specifiers"]

/-- The rule for a phrase of a kind that stands anywhere: the choice of `lower_node`. -/
def Role.ofKind (kind : String) : Role :=
  if kind ∈ commentKinds ∨ kind = "package_header" then .skipped
  else if kind ∈ wrapperKinds then .wrapper
  else if kind ∈ stringKinds then .stringLiteral
  else if kind ∈ identifierKinds then .identifier
  else match kind with
    | "import_header" => .importing
    | "import" => .importing
    | "class_declaration" => .classDeclaration
    | "interface_declaration" => .classDeclaration
    | "object_declaration" => .objectDeclaration
    | "function_declaration" => .functionDeclaration
    | "call_expression" => .call
    | "lambda_literal" => .lambda
    | "navigation_expression" => .selection
    | "value_argument" => .valueArgument
    | "annotation" => .annotated
    | _ => .plain

/-- The rule for a phrase of a kind at a position: the choices of `lower_call_parts` for a callee
and of `lower_call_suffix` for what follows it. -/
def Role.at (position : Position) (kind : String) : Role :=
  match position with
  | .anywhere => ofKind kind
  | .callee => if kind = "call_expression" then .mergedCall else ofKind kind
  | .suffix =>
    match kind with
    | "call_suffix" => .argumentGroup
    | "value_arguments" => .argumentGroup
    | "annotated_lambda" => .annotatedLambda
    | "lambda_literal" => .trailingLambda
    | kind => ofKind kind

/-! ## 2. Types and annotations -/

/-- A text without any blank (`strip_whitespace`). -/
def squeezed (s : String) : String := String.ofList (squeeze s.toList)

/-- A text without the blanks around it. -/
def trimmed (s : String) : String := String.ofList (trim s.toList)

namespace ParseTree

mutual

/-- The type that a type phrase means: wrappers are looked through (`type_ref_of`). -/
def typeRef : ParseTree → TypeRef
  | .node info children =>
    if info.kind = "user_type" then .user (squeezed info.text)
    else if info.kind ∈ ["receiver_type", "type_reference", "type"] then
      (innerTypeRef? children).getD (.other (trimmed info.text))
    else .other (trimmed info.text)

/-- The type of the first phrase in a row that is no modifier. -/
def innerTypeRef? : List ParseTree → Option TypeRef
  | [] => none
  | t :: ts =>
    if t.isNamed && t.kind ∉ ["type_modifiers", "annotation"] then some (typeRef t)
    else innerTypeRef? ts

end

/-- The type of an annotation as written: its first user type, or what stands between the
last colon and the first parenthesis (`annotation_type_name`). -/
def annotationType (t : ParseTree) : String :=
  match t.phraseBelow? ["user_type"] with
  | some type => squeezed type.text
  | none =>
    let written := t.text.toList.dropWhile (· == '@')
    String.ofList (squeeze (beforeFirst '(' (afterLast ':' written)))

/-- An annotation as a shape. -/
def annotationShape (t : ParseTree) : Shape :=
  .node (.annotated t.annotationType) t.span []

/-- The annotations among modifiers (`lower_annotations`). -/
def annotationShapes (modifiers : ParseTree) : List Shape :=
  (modifiers.phrases.filter fun c => c.kind == "annotation").map annotationShape

/-! ## 3. Heads -/

/-- The place among the children of the first one in a field, or else of the first phrase of
one of some kinds. -/
def placeOf? (field : String) (kinds : List String) (children : List ParseTree) :
    Option Nat :=
  (children.findIdx? fun c => c.info.field? == some field).or
    (children.findIdx? fun c => c.isNamed && c.kind ∈ kinds)

/-- The text of the child at a place; empty where there is none. -/
def textAt (children : List ParseTree) (place? : Option Nat) : String :=
  ((place?.bind (children[·]?)).map text).getD ""

mutual

/-- The delegation specifiers in a row of trees, looking through wrappers
(`delegation_specifiers`). -/
def delegationsAmong : List ParseTree → List ParseTree
  | [] => []
  | t :: ts => delegations t ++ delegationsAmong ts

/-- The delegation specifiers that a phrase of a class head holds or is. -/
def delegations : ParseTree → List ParseTree
  | .node info children =>
    if !info.isNamed then []
    else match info.kind with
      | "delegation_specifier" => [.node info children]
      | "delegation_specifiers" => delegationsAmong children
      | _ => []

end

/-- The modifiers of a declaration. -/
def modifiers? (children : List ParseTree) : Option ParseTree :=
  children.find? fun c => c.isNamed && c.kind == "modifiers"

/-- The annotations of a class. -/
def classAnnotations (children : List ParseTree) : List Shape :=
  ((modifiers? children).map annotationShapes).getD []

/-- The place of a class's name. -/
def classNamePlace? (children : List ParseTree) : Option Nat :=
  placeOf? "name" classNameKinds children

/-- The head of a class, interface or object phrase, as `lower_class` reads it. -/
def classHead (info : PhraseInfo) (children : List ParseTree) : ClassHead where
  name := textAt children (classNamePlace? children)
  supertypes := (delegationsAmong children).filterMap fun d =>
    (d.phraseBelow? ["user_type"]).map fun type => squeezed type.text
  isAbstract := (modifiers? children).any (hasBelow "abstract")
  isInterface := info.kind == "interface_declaration"
    || children.any fun c => c.kind == "interface"

/-- The place of a function's receiver type: in its field, or else the first type phrase
before the name. -/
def receiverPlace? (name? : Option Nat) (children : List ParseTree) : Option Nat :=
  let named := children.zipIdx.filter fun c => c.1.isNamed
  let early := named.takeWhile fun c => some c.2 != name?
  (children.findIdx? fun c => c.info.field? == some "receiver").or
    ((early.find? fun c => c.1.kind ∈ receiverKinds).map (·.2))

/-- The place of a function's name. -/
def functionNamePlace? (children : List ParseTree) : Option Nat :=
  placeOf? "name" identifierKinds children

/-- The head of a function phrase, as `lower_function` reads it. -/
def functionHead (children : List ParseTree) : FunctionHead :=
  let name? := functionNamePlace? children
  { name := textAt children name?
    receiver? := ((receiverPlace? name? children).bind (children[·]?)).map typeRef }

/-! ## 4. Shapes -/

mutual

/-- The shapes of a phrase at a position (`lower_node`). -/
def shapes (position : Position) : ParseTree → List Shape
  | .node info children =>
    match Role.at position info.kind with
    | .skipped => []
    | .wrapper => shapesAmong .anywhere children
    | .stringLiteral => [.node (.stringTemplate info.text) info.span []]
    | .identifier => [.node (.nameRef info.text) info.span []]
    | .importing => [.node (.importing (.ofText info.text)) info.span []]
    | .classDeclaration =>
      [.node (.classLike (classHead info children)) info.span
        (classAnnotations children ++ members false (classNamePlace? children).toList 0 children)]
    | .objectDeclaration =>
      [.node (.objectLike (classHead info children)) info.span
        (classAnnotations children ++ members false (classNamePlace? children).toList 0 children)]
    | .functionDeclaration =>
      let name? := functionNamePlace? children
      [.node (.function (functionHead children)) info.span
        (members true (name?.toList ++ (receiverPlace? name? children).toList) 0 children)]
    | .call => [.node .call info.span (callParts children)]
    | .lambda => [.lambda info.span (lambdaItems children)]
    | .selection => [.node .dotQualified info.span (shapesAmong .anywhere children)]
    | .valueArgument => [.node .valueArgument info.span (shapesAmong .anywhere children)]
    | .annotated => [annotationShape (.node info children)]
    | .mergedCall => callParts children
    | .argumentGroup => shapesAmong .suffix children
    | .annotatedLambda => [.node .lambdaArgument info.span (firstLambda children)]
    | .trailingLambda =>
      [.node .lambdaArgument info.span [.lambda info.span (lambdaItems children)]]
    | .plain => [.node (.other info.kind) info.span (shapesAmong .anywhere children)]

/-- The shapes of the phrases in a row of trees: `lower_children`, or the arguments of a call at
the position behind its callee. -/
def shapesAmong (position : Position) : List ParseTree → List Shape
  | [] => []
  | t :: ts =>
    if t.isNamed then shapes position t ++ shapesAmong position ts
    else shapesAmong position ts

/-- The callee and the arguments of a call (`lower_call_parts`). -/
def callParts : List ParseTree → List Shape
  | [] => []
  | t :: ts =>
    if t.isNamed then shapes .callee t ++ shapesAmong .suffix ts else callParts ts

/-- The first lambda in a row of trees. -/
def firstLambda : List ParseTree → List Shape
  | [] => []
  | t :: ts =>
    if t.isNamed && t.kind == "lambda_literal" then shapes .anywhere t else firstLambda ts

/-- What stands between the braces of a lambda (`lower_lambda`). -/
def lambdaItems : List ParseTree → List LambdaItem
  | [] => []
  | t :: ts =>
    if !t.isNamed then lambdaItems ts
    else if t.kind == "lambda_parameters" then
      (shapes .anywhere t).map .parameter ++ lambdaItems ts
    else (shapes .anywhere t).map .statement ++ lambdaItems ts

/-- The shapes of the phrases in a row that starts at place `i`, but for those at the places
`skip`: the second half of `lower_class` and of `lower_function`.  Of modifiers, at most the
annotations stay. -/
def members (keepAnnotations : Bool) (skip : List Nat) (i : Nat) :
    List ParseTree → List Shape
  | [] => []
  | t :: ts =>
    if !t.isNamed || i ∈ skip then members keepAnnotations skip (i + 1) ts
    else if t.kind == "modifiers" then
      (if keepAnnotations then annotationShapes t else [])
        ++ members keepAnnotations skip (i + 1) ts
    else shapes .anywhere t ++ members keepAnnotations skip (i + 1) ts

end

/-! ## 5. Trees -/

/-- The package that the header of a file names. -/
def package? (t : ParseTree) : Option String :=
  (t.phraseOf? ["package_header"]).bind fun header =>
    match packageOfHeader header.text with
    | "" => none
    | package => some package

/-- The tree of a parse tree (`lower`). -/
def lower (t : ParseTree) : Tree :=
  let file := ((Tree.empty .kotlin).setSpan Tree.root t.span).setPackage t.package?
  { file.graftAll Tree.root (shapesAmong .anywhere t.children) with
    errorRegions := t.errorSpans }

end ParseTree

end SpecOutline
