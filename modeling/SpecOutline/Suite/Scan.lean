/-
# Scanning a tree

All blocks of a file that a spec class owns, and on request the spec classes themselves, each
in document order and the classes first.
-/
import SpecOutline.Suite.Ascent
import SpecOutline.Symbol.Index

namespace SpecOutline.Suite

/-- What a scan lists. -/
structure Options where
  /-- Leave out classes that the JUnit 4 runner runs. -/
  skipJunit4 : Bool := false
  /-- List the spec classes too. -/
  includeSpecs : Bool := false
deriving Repr, DecidableEq

/-- Something found, and where. -/
structure Finding where
  path : Path
  span : Span
deriving Repr, DecidableEq

/-- The line on which something was found. -/
def Finding.line (f : Finding) : Nat := f.span.startLine

/-- Whether the nearest class around a node is one that the JUnit 4 runner runs
(`in_junit4_class`). -/
def inJunit4Class (v : View) (r : Resolver) (id : NodeId) : Bool :=
  (v.enclosingClass? id).any (isJunit4 v r)

/-- What a call contributes to a scan. -/
def findingOf? (t : Tree) (r : Resolver) (options : Options) (call : NodeId) :
    Option Finding :=
  if options.skipJunit4 && inJunit4Class t.view r call then none
  else if (owner? t.view r call).isNone || !isBlock t.view r call then none
  else match pathOf t.view r call with
    | .ok path => some { path, span := t.span call }
    | .error _ => none

/-- The blocks of a tree (`scan`). -/
def scan (t : Tree) (r : Resolver) (options : Options) : List Finding :=
  t.calls.filterMap (findingOf? t r options)

/-- What a class contributes to a scan. -/
def specFinding? (t : Tree) (r : Resolver) (options : Options) (id : NodeId) :
    Option Finding :=
  if options.skipJunit4 && isJunit4 t.view r id then none
  else match r.classOf? id with
    | some c =>
      if isSpec r c then some { path := .ofSpec c.qualifiedName, span := t.span id } else none
    | none => none

/-- The spec classes of a tree (`scan_specs`). -/
def scanSpecs (t : Tree) (r : Resolver) (options : Options) : List Finding :=
  t.classes.filterMap (specFinding? t r options)

/-- All that a scan of a tree against a library lists (`scan_tree`). -/
def scanTree (t : Tree) (library : Library) (options : Options) : List Finding :=
  let r := (Index.build t library).resolver
  (if options.includeSpecs then scanSpecs t r options else []) ++ scan t r options

end SpecOutline.Suite
