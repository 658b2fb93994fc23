/-
# Spec classes

A spec class is a concrete class below the marker class.  A node belongs to the nearest class
around it, and to a suite if that class is a spec class; classes further out do not count.
-/
import SpecOutline.Suite.Vocabulary
import SpecOutline.Symbol.Basic
import SpecOutline.Tree.View

namespace SpecOutline.Suite

/-- Whether a class is a spec class: the marker is visible from where the class was found, and
the class is concrete and below it (`is_spec`). -/
def isSpec (r : Resolver) (c : ClassSymbol) : Bool :=
  match r.findClass? marker c.scope with
  | some base => !c.isAbstract && r.inherits c base
  | none => false

/-- Whether a node declares a spec class (`is_spec_declaration`). -/
def declaresSpec (r : Resolver) (id : NodeId) : Bool := (r.classOf? id).any (isSpec r)

/-- The spec class that owns a node (`containing_spec_class`). -/
def owner? (v : View) (r : Resolver) (id : NodeId) : Option ClassSymbol :=
  ((v.enclosingClass? id).bind r.classOf?).filter (isSpec r)

/-- Whether an annotation at a node hands its class to the JUnit 4 runner.  A type without a
meaning counts as written. -/
def isRunWith (v : View) (r : Resolver) (id : NodeId) : Bool :=
  match v.kind? id with
  | some (.annotated typeName) => (r.typeNamed? id typeName).getD typeName == runWith
  | _ => false

/-- Whether a node declares a class that the JUnit 4 runner runs (`is_junit4`). -/
def isJunit4 (v : View) (r : Resolver) (id : NodeId) : Bool :=
  v.kindIs Kind.isClass id && (v.children id).any (isRunWith v r)

end SpecOutline.Suite
