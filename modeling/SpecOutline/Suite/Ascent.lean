/-
# From a block to its path

The path of a block (`extract_path`) is found by going up: from a call to the lambda around it,
and from there to the call whose trailing lambda that is, for as long as there is one.  Every call
on the way has to stand in a lambda, call a function by a bare name and describe itself by a
literal; the class that owns the first call ends the path.

* `pathOf` is the operation: it asks `classify_block` first and `containing_spec_class` last, both
  of the call that it started from.
* `ascend` is its loop.  The loop counts the segments it has and stops at `MAX_NESTING_DEPTH`;
  `ascend` counts down the room that is left.
* `segmentOf` is one turn of the loop: `enclosing_lambda`, `name_reference_callee`,
  `resolve_function` and `literal_description`, in this order, and an error for each of them.
-/
import SpecOutline.Error
import SpecOutline.Suite.Block
import SpecOutline.Suite.SpecClass

namespace SpecOutline.Suite

/-- One turn of the loop: the segment of a call on the way up, and the lambda around it. -/
def segmentOf (v : View) (r : Resolver) (call : NodeId) :
    Except PathError (BlockSegment × NodeId) := do
  let some lambda := enclosingLambda? v call | .error (.notInClosure call)
  let some callee := namedCallee? v call | .error (.calleeNotNameReference call)
  let some function := r.functionOf? callee | .error (.unresolvedCallee call)
  let some description := description? v call | .error (.missingDescription call)
  let kind := if isTestFunction function.name then BlockKind.test else .group
  return (⟨kind, blockLabel function.name description⟩, lambda)

/-- The segments from a call up, with room for a number of them; `start` is where the way up
began. -/
def ascend (v : View) (r : Resolver) (start : NodeId) :
    (room : Nat) → (call : NodeId) → Except PathError (List BlockSegment)
  | 0, _ => .error (.nestingTooDeep start nestingLimit)
  | room + 1, call => do
    let (segment, lambda) ← segmentOf v r call
    match trailingOwner? v lambda with
    | some outer => return segment :: (← ascend v r start room outer)
    | none => return [segment]

/-- The path of a block (`extract_path`). -/
def pathOf (v : View) (r : Resolver) (call : NodeId) : Except PathError Path :=
  if isBlock v r call then do
    let blocks ← ascend v r call nestingLimit call
    match owner? v r call with
    | some spec => return ⟨blocks, spec.qualifiedName⟩
    | none => .error (.noOwningSpec call)
  else .error (.notASpecBlock call)

end SpecOutline.Suite
