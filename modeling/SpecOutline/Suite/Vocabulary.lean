/-
# The vocabulary of a suite

Every name that a suite is recognised by, in one place: the marker class, the annotation
that hands a class to another runner, the functions that open blocks, and the types they
extend.
-/

namespace SpecOutline.Suite

/-- The class that every spec class inherits. -/
def marker : String := "org.jetbrains.spek.api.Spek"

/-- The annotation that hands a class to the JUnit 4 runner. -/
def runWith : String := "org.junit.runner.RunWith"

/-- The functions that open a group. -/
def groupFunctions : List String := ["describe", "context", "given", "on"]

/-- The function that opens a test. -/
def testFunction : String := "it"

/-- The types that block functions extend, by simple name. -/
def blockReceivers : List String :=
  ["Dsl", "Spec", "SpecBody", "TestBody", "ActionBody", "TestContainer"]

/-- How many blocks deep a path may go. -/
def nestingLimit : Nat := 256

/-- Whether a function opens a group. -/
def isGroupFunction (name : String) : Bool := groupFunctions.contains name

/-- Whether a function opens a test. -/
def isTestFunction (name : String) : Bool := name == testFunction

/-- Whether a type is one that block functions extend. -/
def isBlockReceiver (name : String) : Bool := blockReceivers.contains name

/-- What a block is. -/
inductive BlockKind where
  | group
  | test
deriving Repr, DecidableEq

/-- What a function opens, if it opens a block. -/
def BlockKind.ofFunction? (name : String) : Option BlockKind :=
  if isTestFunction name then some .test
  else if isGroupFunction name then some .group
  else none

end SpecOutline.Suite
