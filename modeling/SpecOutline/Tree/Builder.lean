/-
# Building trees

A tree grows by grafting shapes: a `Shape` is a subtree before it has places in a table.
Grafting numbers the nodes of a shape in preorder, with one exception that the shape of a
lambda makes visible: a lambda's block is numbered before its parameters, and parameters and
statements follow in the order in which they stand in the source.

`Step` lists what can be done to a tree under construction; a step is refused only if it
names a parent that the table will not have.
-/
import SpecOutline.Tree.Basic

namespace SpecOutline

/-! ## 1. Shapes -/

mutual

/-- A subtree without places: a node with its children, or a lambda with what stands between
its braces. -/
inductive Shape where
  | node (kind : Kind) (span : Span) (children : List Shape)
  | lambda (span : Span) (items : List LambdaItem)

/-- What stands between the braces of a lambda. -/
inductive LambdaItem where
  | parameter (shape : Shape)
  | statement (shape : Shape)

end

namespace Shape

/-- A node without children. -/
def leaf (kind : Kind) : Shape := .node kind {} []

/-- A lambda with nothing between its braces. -/
def emptyLambda : Shape := .lambda {} []

/-- A call of the bare name `callee`. -/
def bareCall (callee : String) : Shape := .node .call {} [leaf (.nameRef callee)]

/-- A string literal in quotes, as an argument. -/
def stringArgument (text : String) : Shape :=
  .node .valueArgument {} [leaf (.stringTemplate ("\"" ++ text ++ "\""))]

/-- A lambda in the parentheses of a call. -/
def lambdaValueArgument : Shape := .node .valueArgument {} [emptyLambda]

/-- A lambda after the parentheses of a call, around `body`. -/
def trailingLambda (body : List Shape) : Shape :=
  .node .lambdaArgument {} [.lambda {} (body.map .statement)]

/-- The call `name("description") { body }`. -/
def blockCall (name description : String) (body : List Shape) : Shape :=
  .node .call {} [leaf (.nameRef name), stringArgument description, trailingLambda body]

/-- The declaration `class name : Super({ body })`. -/
def specClass (head : ClassHead) (body : List Shape) : Shape :=
  .node (.classLike head) {}
    [.node (.other "delegation_specifier") {}
      [.node (.other "constructor_invocation") {}
        [.node .valueArgument {} [.lambda {} (body.map .statement)]]]]

end Shape

/-! ## 2. Grafting -/

namespace Tree

/-- The tree of an empty file. -/
def empty (language : Language) : Tree where
  language := language
  nodes := #[{ kind := .file none }]

/-- Adds a node as the last child of `parent`; it takes the next free place. -/
def append (t : Tree) (parent : NodeId) (kind : Kind) (span : Span) : Tree :=
  { t with
    nodes := (t.nodes.push { kind, parent? := some parent, span }).modify parent
      fun node => { node with children := node.children ++ [t.size] } }

mutual

/-- Adds a shape below `parent`. -/
def graft (t : Tree) (parent : NodeId) : Shape → Tree
  | .node kind span children => graftAll (t.append parent kind span) t.size children
  | .lambda span items =>
    let t₁ := t.append parent .lambdaExpression span
    let t₂ := t₁.append t.size .functionLiteral span
    let t₃ := t₂.append t₁.size .block span
    graftItems t₃ t₁.size t₂.size items

/-- Adds shapes below `parent`, one after the other. -/
def graftAll (t : Tree) (parent : NodeId) : List Shape → Tree
  | [] => t
  | s :: ss => graftAll (graft t parent s) parent ss

/-- Adds the items of a lambda: parameters below its literal, statements below its block. -/
def graftItems (t : Tree) (literal block : NodeId) : List LambdaItem → Tree
  | [] => t
  | .parameter s :: rest => graftItems (graft t literal s) literal block rest
  | .statement s :: rest => graftItems (graft t block s) literal block rest

end

/-- Replaces the kind of the file node by that of a file in a package. -/
def setPackage (t : Tree) (package? : Option String) : Tree :=
  { t with nodes := t.nodes.modify root fun node => { node with kind := .file package? } }

/-- Replaces the span of a node; an unknown node has none to replace. -/
def setSpan (t : Tree) (id : NodeId) (span : Span) : Tree :=
  { t with nodes := t.nodes.modify id fun node => { node with span } }

/-- The tree of an empty Kotlin file in a package. -/
def inPackage (package? : Option String) : Tree := (empty .kotlin).setPackage package?

/-! ## 3. Steps -/

/-- What can be done to a tree under construction. -/
inductive Step where
  | root
  | setPath (path : String)
  | setPackage (package? : Option String)
  | setSpan (node : NodeId) (span : Span)
  | addErrorRegion (span : Span)
  | add (parent : NodeId) (kind : Kind) (span : Span)
  | addImport (directive : Import)
  | addClass (parent : NodeId) (head : ClassHead)
  | addObject (parent : NodeId) (head : ClassHead)
  | addSpecClass (head : ClassHead)
  | addFunction (parent : NodeId) (head : FunctionHead)
  | annotate (parent : NodeId) (typeName : String)
  | addLambda (parent : NodeId)
  | addCall (parent : NodeId) (callee : String)
  | addStringArgument (call : NodeId) (text : String)
  | addLambdaValueArgument (call : NodeId)
  | addTrailingLambda (call : NodeId)
  | addBlockCall (parent : NodeId) (name description : String)
deriving Repr

/-- Why a step is refused. -/
inductive BuildError where
  | unknownParent (id : NodeId)
deriving Repr, DecidableEq

/-- What a step grafts: below which node, which shape, and how far behind the first free
place the nodes lie that the step answers. -/
def Step.growth? : Step → Option (NodeId × Shape × List Nat)
  | .add parent kind span => some (parent, .node kind span [], [0])
  | .addImport directive => some (Tree.root, .leaf (.importing directive), [0])
  | .addClass parent head => some (parent, .leaf (.classLike head), [0])
  | .addObject parent head => some (parent, .leaf (.objectLike head), [0])
  | .addSpecClass head => some (Tree.root, .specClass head [], [0, 6])
  | .addFunction parent head => some (parent, .leaf (.function head), [0])
  | .annotate parent typeName => some (parent, .leaf (.annotated typeName), [0])
  | .addLambda parent => some (parent, .emptyLambda, [2])
  | .addCall parent callee => some (parent, .bareCall callee, [0])
  | .addStringArgument call text => some (call, .stringArgument text, [0])
  | .addLambdaValueArgument call => some (call, .lambdaValueArgument, [3])
  | .addTrailingLambda call => some (call, .trailingLambda [], [3])
  | .addBlockCall parent name description =>
    some (parent, .blockCall name description [], [0, 7])
  | _ => none

/-- Carries out a step that adds no node. -/
def edit (t : Tree) : Step → Tree
  | .setPath path => { t with path? := some path }
  | .setPackage package? => t.setPackage package?
  | .setSpan node span => t.setSpan node span
  | .addErrorRegion span => { t with errorRegions := t.errorRegions ++ [span] }
  | _ => t

/-- Carries out a step, with the nodes it answers.  A node may be its own parent, so the next
free place is still a parent. -/
def perform (t : Tree) (step : Step) : Except BuildError (Tree × List NodeId) :=
  match step.growth? with
  | some (parent, shape, answers) =>
    if parent ≤ t.size then .ok (t.graft parent shape, answers.map (t.size + ·))
    else .error (.unknownParent parent)
  | none =>
    match step with
    | .root => .ok (t, [root])
    | step => .ok (t.edit step, [])

/-- Carries out steps in turn. -/
def performAll (t : Tree) (steps : List Step) : Except BuildError Tree :=
  steps.foldlM (fun t step => (·.1) <$> t.perform step) t

end Tree

end SpecOutline
