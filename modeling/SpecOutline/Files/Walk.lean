/-
# Finding source files

Roots are files, read as they are, or directories, walked.  A walk takes a file if its path
below the root is not ignored and is included, and if it is not too large, not binary and a
text.  An ignoring pattern names a path, a part of one, or a glob; including patterns are
globs, and none at all includes everything.  A pattern that is no glob matches nothing by
itself.
-/
import SpecOutline.Files.Content
import SpecOutline.Files.Volume
import SpecOutline.Glob.Match
import SpecOutline.Suite.Report

namespace SpecOutline

open SpecOutline.Text

/-! ## 1. Rules -/

/-- Which files a walk takes. -/
structure WalkRules where
  ignorePatterns : List String := [".git", "build"]
  includePatterns : List String := ["**/*.kt", "**/*.kts"]
  maxFileSize : Nat := 1048576
deriving Repr, DecidableEq

/-- Whether a text is a glob that matches a path. -/
def globMatches (path pattern : String) : Bool :=
  match Glob.parse pattern with
  | .ok p => p.matches path
  | .error _ => false

/-- Whether one of some patterns ignores a path. -/
def shouldIgnore (patterns : List String) (path : String) : Bool :=
  let parts := (pieces '/' path.toList).map String.ofList
  patterns.any fun p => path == p || parts.contains p || globMatches path p

/-- Whether some patterns include a path. -/
def shouldInclude (patterns : List String) (path : String) : Bool :=
  patterns.isEmpty || patterns.any (globMatches path)

/-- Whether a file is larger than a limit. -/
def isTooLarge (size limit : Nat) : Bool := limit < size

/-- A path in the form in which it is shown: with slashes only, and without the mark of a
path that is taken literally. -/
def Pathname.shown (path : String) : String :=
  let cs := path.toList
  let rest := (afterStart? "\\\\?\\".toList cs).or (afterStart? "\\\\.\\".toList cs)
  Pathname.slashed (String.ofList (rest.getD cs))

/-! ## 2. Walks -/

/-- What a file below a root contributes to a walk. -/
def WalkRules.source? (rules : WalkRules) (root : String) (names : List String)
    (octets : List UInt8) : Option SourceFile :=
  let below := String.intercalate "/" names
  let path := Pathname.shown below
  if shouldIgnore rules.ignorePatterns path then none
  else if !shouldInclude rules.includePatterns path then none
  else if isTooLarge octets.length rules.maxFileSize || Content.isBinary octets then none
  else (Content.text? octets).map fun content =>
    { path := Pathname.shown (Pathname.join root path)
      location := Pathname.join root below
      content }

namespace Volume

/-- The source files below a directory. -/
def walk (v : Volume) (rules : WalkRules) (root : String) :
    Except RunError (List SourceFile) :=
  match v root with
  | .ok (.directory entries) =>
    .ok ((Entry.directory entries).walk.filterMap fun (names, octets) =>
      rules.source? root names octets)
  | .ok (.file _) => .error (.invalidConfig ("'" ++ root ++ "' is not a directory"))
  | .error _ => .error (.pathNotFound root)

/-- A source file, under the path it is given by. -/
def readSource (v : Volume) (path : String) : Except RunError SourceFile :=
  match v.read path with
  | .error e => .error (.inContext path (.file e))
  | .ok octets =>
    match Content.text? octets with
    | some content => .ok { path := Pathname.shown path, location := path, content }
    | none => .error (.invalidConfig ("'" ++ path ++ "' is not a text file"))

/-- The source files that a root stands for. -/
def sourcesAt (v : Volume) (rules : WalkRules) (root : String) :
    Except RunError (List SourceFile) :=
  if v.isFile root then do return [← v.readSource root] else v.walk rules root

/-- The source files that some roots stand for, root by root. -/
def collect (v : Volume) (rules : WalkRules) (roots : List String) :
    Except RunError (List SourceFile) := do
  return (← roots.mapM (v.sourcesAt rules)).flatten

/-- The tree of a source file, whose text has to be well-formed UTF-8 and is taken as it
is. -/
def parseFile (v : Volume) (grammar : Grammar) (path : String) :
    Except SourceError Tree := do
  let language := Language.ofPathname path
  if language.isSupported then
    match v.readText path with
    | .ok text =>
      let tree ← grammar.read text language
      return { tree with path? := some (Pathname.slashed path) }
    | .error e => .error (.file e)
  else .error (.unsupportedLanguage language)

end Volume

end SpecOutline
