/-
# Settings

What a settings file may say: which files to look at, whether classes of the JUnit 4 runner
are left out, and which library to use.  Whatever it does not say has a default.
-/
import SpecOutline.Files.Walk
import SpecOutline.Library.Framework
import SpecOutline.Library.Stored

namespace SpecOutline

open SpecOutline.Json

/-! ## 1. Settings -/

/-- What is looked at, and how. -/
structure Settings where
  includePatterns : List String := ["**/*.kt", "**/*.kts"]
  ignorePatterns : List String := [".git", ".gradle", ".idea", "build", "out", "target"]
  maxFileSize : Nat := 1048576
  skipJunit4 : Bool := false
  library? : Option String := none
deriving Repr, DecidableEq

namespace Settings

/-- The rules for walks. -/
def walkRules (s : Settings) : WalkRules where
  ignorePatterns := s.ignorePatterns
  includePatterns := s.includePatterns
  maxFileSize := s.maxFileSize

/-- The options for scans. -/
def scanOptions (s : Settings) : Suite.Options where
  skipJunit4 := s.skipJunit4

/-- Accepts settings whose patterns are all globs, those that include being tried first. -/
def validate (s : Settings) : Except RunError Unit :=
  (s.includePatterns ++ s.ignorePatterns).forM fun pattern =>
    match Glob.parse pattern with
    | .ok _ => .ok ()
    | .error e =>
      .error (.invalidConfig ("bad pattern '" ++ pattern ++ "': " ++ e.message pattern))

/-! ## 2. Settings as JSON -/

/-- Settings. -/
def toJson (s : Settings) : Value :=
  .object ([("include_patterns", .texts s.includePatterns),
    ("ignore_patterns", .texts s.ignorePatterns), ("max_file_size", .nat s.maxFileSize),
    ("skip_junit4_specs", .bool s.skipJunit4)] ++ entryIfSome "library" .text s.library?)

/-- Reads settings. -/
def ofJson (v : Value) : Except Fault Settings := do
  let default : Settings := {}
  let r ← record .direct ["include_patterns", "ignore_patterns", "max_file_size",
    "skip_junit4_specs", "library"] v
  return {
    includePatterns := ← r.orElse "include_patterns" default.includePatterns
      (Value.asList Value.asText)
    ignorePatterns := ← r.orElse "ignore_patterns" default.ignorePatterns
      (Value.asList Value.asText)
    maxFileSize := ← r.orElse "max_file_size" default.maxFileSize (Value.asNat wordBound)
    skipJunit4 := ← r.orElse "skip_junit4_specs" default.skipJunit4 Value.asBool
    library? := ← r.optional "library" Value.asText }

/-- Reads the text of a settings file. -/
def ofText (text : String) : Except RunError Settings :=
  match parse text >>= ofJson with
  | .ok s => do
    s.validate
    return s
  | .error fault => .error (.json fault)

end Settings

/-! ## 3. Settings and libraries of a volume -/

namespace Volume

/-- The settings in a file. -/
def settings (v : Volume) (path : String) : Except RunError Settings :=
  if v.exists? path then
    match v.readText path with
    | .ok text =>
      match Settings.ofText text with
      | .ok s => .ok s
      | .error e => .error (.inContext ("loading config " ++ path) e)
    | .error e => .error (.file e)
  else .error (.pathNotFound path)

/-- The library in a file. -/
def library (v : Volume) (path : String) : Except SourceError Library :=
  match v.readText path with
  | .ok text => Library.ofText text
  | .error e => .error (.file e)

/-- The library that settings name, or else that of the framework. -/
def libraryFor (v : Volume) (s : Settings) : Except RunError Library :=
  match s.library? with
  | none => .ok Library.framework
  | some path =>
    match v.library path with
    | .ok l => .ok l
    | .error e => .error (.inContext ("loading library model " ++ path) (.source e))

end Volume

end SpecOutline
