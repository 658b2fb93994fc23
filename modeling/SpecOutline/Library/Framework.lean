/-
# The test framework

The declarations of Spek, version 1, that a suite is recognised by: the marker class, the
receivers of its vocabulary, and the vocabulary itself.  Every block function also
has a pending variant, with an `x` in front of its name.
-/
import SpecOutline.Library.Basic

namespace SpecOutline.Library

/-- The package of the marker class. -/
def apiPackage : String := "org.jetbrains.spek.api"

/-- A name of the package that holds the vocabulary. -/
def inVocabulary (name : String) : String := "org.jetbrains.spek.api.dsl." ++ name

/-- A block function and its pending variant, as extensions of a type. -/
def blockFunctions (receiver name : String) : List LibraryFunction :=
  [.extending receiver (inVocabulary name), .extending receiver (inVocabulary ("x" ++ name))]

/-- The declarations of the framework. -/
def framework : Library where
  types := [
    { qualifiedName := apiPackage ++ ".Spek", isAbstract := true },
    { qualifiedName := "org.jetbrains.spek.subject.SubjectSpek", isAbstract := true,
      supertypes := [apiPackage ++ ".Spek"] },
    { qualifiedName := inVocabulary "Dsl", isAbstract := true },
    { qualifiedName := inVocabulary "TestContainer", isAbstract := true },
    { qualifiedName := inVocabulary "TestBody", isAbstract := true },
    { qualifiedName := inVocabulary "ActionBody", isAbstract := true,
      supertypes := [inVocabulary "TestContainer"] },
    { qualifiedName := inVocabulary "SpecBody", isAbstract := true,
      supertypes := [inVocabulary "TestContainer"] },
    { qualifiedName := inVocabulary "Spec", isAbstract := true,
      supertypes := [inVocabulary "SpecBody"] },
    { qualifiedName := "org.junit.runner.RunWith", isAbstract := true }]
  functions := ["describe", "context", "given", "on"].flatMap (blockFunctions "SpecBody")
    ++ blockFunctions "TestContainer" "it"

end SpecOutline.Library
