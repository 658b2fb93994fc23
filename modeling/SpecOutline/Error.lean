/-
# Errors

Causes, and the one place where each gets its words.  `message` is the text of an error by
itself; `chain` is the text for someone at a terminal, where each error is followed by its
cause, and so on down.
-/
import SpecOutline.Json.Value
import SpecOutline.Source.Language
import SpecOutline.Tree.Basic

namespace SpecOutline

/-! ## 1. Files and JSON -/

/-- Why a file cannot be read. -/
inductive FileError where
  | notFound
  | notADirectory
  | isADirectory
  | notUtf8
deriving Repr, DecidableEq

/-- The words of the operating system, and those for a text that is none. -/
def FileError.message : FileError → String
  | .notFound => "No such file or directory (os error 2)"
  | .notADirectory => "Not a directory (os error 20)"
  | .isADirectory => "Is a directory (os error 21)"
  | .notUtf8 => "stream did not contain valid UTF-8"

/-- What is wrong with a JSON text. -/
def Json.Fault.message : Json.Fault → String
  | .endOfText => "the text ends too early"
  | .malformed => "the text is not JSON"
  | .mismatch => "the value does not have the expected shape"

/-! ## 2. Sources and libraries -/

/-- Why a source gives no tree, or a file no library. -/
inductive SourceError where
  | unsupportedLanguage (language : Language)
  | noParseTree
  | file (error : FileError)
  | invalidLibrary (fault : Json.Fault)
deriving Repr, DecidableEq

namespace SourceError

/-- The words for an error. -/
def message : SourceError → String
  | .unsupportedLanguage language => "Unsupported language: " ++ language.tag
  | .noParseTree => "Parser error: no parse tree"
  | .file error => "I/O error: " ++ error.message
  | .invalidLibrary fault => "Invalid library model: " ++ fault.message

/-- The words for the causes of an error. -/
def causes : SourceError → List String
  | .file error => [error.message]
  | .invalidLibrary fault => [fault.message]
  | _ => []

end SourceError

/-! ## 3. Paths -/

/-- Why a call has no path: one of the conditions that a block and the blocks around it have
to meet fails at a call. -/
inductive PathError where
  | notASpecBlock (call : NodeId)
  | notInClosure (call : NodeId)
  | calleeNotNameReference (call : NodeId)
  | unresolvedCallee (call : NodeId)
  | missingDescription (call : NodeId)
  | noOwningSpec (call : NodeId)
  | nestingTooDeep (call : NodeId) (limit : Nat)
deriving Repr, DecidableEq

/-- The words for an error. -/
def PathError.message : PathError → String
  | .notASpecBlock call => s!"call #{call} is not a spec block"
  | .notInClosure call => s!"call #{call} is not nested in a closure body"
  | .calleeNotNameReference call => s!"callee of call #{call} is not a name reference"
  | .unresolvedCallee call => s!"callee of call #{call} does not resolve to a function"
  | .missingDescription call => s!"call #{call} has no literal description"
  | .noOwningSpec call => s!"no spec class owns call #{call}"
  | .nestingTooDeep call limit =>
    s!"blocks around call #{call} nest deeper than {limit} levels"

/-! ## 4. Runs -/

/-- Why a run stops. -/
inductive RunError where
  | file (error : FileError)
  | pathNotFound (path : String)
  | invalidConfig (reason : String)
  | json (fault : Json.Fault)
  | source (error : SourceError)
  | inContext (context : String) (error : RunError)
deriving Repr, DecidableEq

namespace RunError

/-- The words for an error. -/
def message : RunError → String
  | .file error => "IO error: " ++ error.message
  | .pathNotFound path => "Path not found: " ++ path
  | .invalidConfig reason => "Invalid configuration: " ++ reason
  | .json fault => "JSON error: " ++ fault.message
  | .source error => error.message
  | .inContext context error => context ++ ": " ++ error.message

/-- The words for the causes of an error, the nearest first. -/
def causes : RunError → List String
  | .file error => [error.message]
  | .json fault => [fault.message]
  | .source error => error.causes
  | .inContext _ error => error.message :: error.causes
  | _ => []

/-- The words for an error and all its causes. -/
def chain (e : RunError) : String := String.intercalate ": " (e.message :: e.causes)

/-- Whether an error goes back to a JSON text. -/
def isJson : RunError → Bool
  | .json _ => true
  | .source (.invalidLibrary _) => true
  | .inContext _ error => error.isJson
  | _ => false

end RunError

end SpecOutline
