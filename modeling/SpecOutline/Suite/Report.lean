/-
# Reports

What a scan found in a source file, in the form in which it is shown: as a line with the
place, the kind and the target between tabs, or as JSON.
-/
import SpecOutline.Source.Reading
import SpecOutline.Suite.Scan

namespace SpecOutline

open SpecOutline.Json

/-- A source file: the path it is shown under, the path it was read from, and its text. -/
structure SourceFile where
  path : String
  location : String
  content : String
deriving Repr, DecidableEq

namespace Suite

/-- A finding in reporting form; its path has the class first. -/
structure Report where
  file : String
  line : Nat
  kind : SegmentKind
  path : List Segment
  target : String
deriving Repr, DecidableEq

namespace Report

/-- The report of a finding in a file. -/
def of (file : String) (f : Finding) : Report where
  file := file
  line := f.line
  kind := f.path.kind
  path := f.path.outermostFirst
  target := f.path.target

/-- The line that shows a report. -/
def textLine (r : Report) : String :=
  r.file ++ ":" ++ toString r.line ++ "\t" ++ r.kind.name ++ "\t" ++ r.target

/-- A report as JSON. -/
def toJson (r : Report) : Value :=
  .object [("file", .text r.file), ("line", .nat r.line), ("kind", .text r.kind.name),
    ("path", .array (r.path.map Segment.toJson)), ("target", .text r.target)]

end Report

/-- The reports of a source file.  Its language is that of the place it was read from. -/
def scanSource (grammar : Grammar) (library : Library) (options : Options)
    (source : SourceFile) : Except RunError (List Report) :=
  match grammar.read source.content (.ofPathname source.location) with
  | .ok tree =>
    .ok ((scanTree { tree with path? := some source.path } library options).map
      (.of source.path))
  | .error e => .error (.inContext source.path (.source e))

end Suite

end SpecOutline
