/-
# Blocks

A block is a call such as `describe("a widget") { ... }`: it stands directly in the body of a
lambda, its callee is a bare name of a block function, and its arguments are a string literal
and a trailing lambda.  The first half of the module names the shapes, the second half puts
the conditions together.
-/
import SpecOutline.Suite.Path
import SpecOutline.Symbol.Basic
import SpecOutline.Tree.View

namespace SpecOutline.Suite

/-! ## 1. Shapes -/

/-- The lambda whose body a node stands in directly (`enclosing_lambda`). -/
def enclosingLambda? (v : View) (id : NodeId) : Option NodeId := do
  let block ← v.parentIf? id (· == .block)
  let literal ← v.parentIf? block (· == .functionLiteral)
  v.parentIf? literal (· == .lambdaExpression)

/-- Whether a kind is that of a bare name. -/
def isNameRef : Kind → Bool
  | .nameRef _ => true
  | _ => false

/-- The callee of a call, if it is a bare name (`name_reference_callee`). -/
def namedCallee? (v : View) (call : NodeId) : Option NodeId :=
  (v.firstChild? call).filter (v.kindIs isNameRef)

/-- The arguments of a call, the trailing lambda included (`value_arguments`). -/
def arguments (v : View) (call : NodeId) : List NodeId := v.childrenWhere call Kind.isArgument

/-- A literal without one pair of quotes around it (`remove_surrounding_quotes`). -/
def unquoted (text : String) : String :=
  match text.toList with
  | '"' :: rest =>
    if rest.getLast? = some '"' then String.ofList rest.dropLast else text
  | _ => text

/-- The string literal that the first argument of a call is, without its quotes
(`literal_description`). -/
def description? (v : View) (call : NodeId) : Option String := do
  let argument ← (arguments v call).head?
  let expression ← v.firstChild? argument
  match v.kind? expression with
  | some (.stringTemplate text) => some (unquoted text)
  | _ => none

/-- The call that a lambda is the trailing lambda of (`trailing_lambda_owner`). -/
def trailingOwner? (v : View) (lambda : NodeId) : Option NodeId := do
  let argument ← v.parentIf? lambda (· == .lambdaArgument)
  v.parentIf? argument Kind.isCall

/-- Whether a call has two arguments, the second a trailing lambda. -/
def hasBlockArguments (v : View) (call : NodeId) : Bool :=
  match arguments v call with
  | [_, last] => v.kind? last == some .lambdaArgument
  | _ => false

/-- Whether a function extends one of the types that block functions extend
(`has_dsl_receiver`). -/
def extendsBlockReceiver (f : FunctionSymbol) : Bool :=
  (f.receiver?.bind TypeRef.simpleName?).any isBlockReceiver

/-- The function that a call calls by a bare name. -/
def calledFunction? (v : View) (r : Resolver) (call : NodeId) : Option FunctionSymbol :=
  (namedCallee? v call).bind r.functionOf?

/-! ## 2. Blocks -/

/-- A call that is a block. -/
structure Block where
  kind : BlockKind
  function : String
  description : String
deriving Repr, DecidableEq

/-- The label of a function applied to a description. -/
def blockLabel (function description : String) : String := function ++ " " ++ description

/-- The label of a block. -/
def Block.label (b : Block) : String := blockLabel b.function b.description

/-- The block that a call is (`classify_block`). -/
def block? (v : View) (r : Resolver) (call : NodeId) : Option Block := do
  let _ ← enclosingLambda? v call
  let function ← calledFunction? v r call
  guard (hasBlockArguments v call)
  guard (extendsBlockReceiver function)
  let description ← description? v call
  let kind ← BlockKind.ofFunction? function.name
  return { kind, function := function.name, description }

/-- Whether a call is a block (`is_spec_block`). -/
def isBlock (v : View) (r : Resolver) (call : NodeId) : Bool := (block? v r call).isSome

end SpecOutline.Suite
