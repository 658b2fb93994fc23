/-
# Listings

A run collects the sources below its roots, scans them in turn and shows all reports, or shows
none if anything fails on the way.
-/
import SpecOutline.CommandLine.Arguments
import SpecOutline.Json.Printer
import SpecOutline.Settings

namespace SpecOutline.CommandLine

open SpecOutline.Suite

/-! ## 1. Reports of roots -/

/-- What a run looks things up in and how. -/
structure Setup where
  volume : Volume
  grammar : Grammar
  rules : WalkRules
  library : Library
  options : Options

/-- The reports of some sources, source by source. -/
def Setup.scanAll (s : Setup) (sources : List SourceFile) : Except RunError (List Report) := do
  return (← sources.mapM (scanSource s.grammar s.library s.options)).flatten

/-- The reports of all sources below some roots. -/
def Setup.reports (s : Setup) (roots : List String) : Except RunError (List Report) := do
  s.scanAll (← s.volume.collect s.rules roots)

/-! ## 2. Runs -/

/-- Reports in a form. -/
def Format.render (reports : List Report) : Format → String
  | .text => String.join (reports.map fun r => r.textLine ++ "\n")
  | .json => (Json.Value.array (reports.map Report.toJson)).pretty ++ "\n"

/-- The settings that arguments ask for. -/
def Arguments.settings (a : Arguments) (v : Volume) : Except RunError Settings := do
  let base ← match a.settings? with
    | some path => v.settings path
    | none => .ok {}
  return { base with library? := a.library?.or base.library? }

/-- The setup that arguments ask for. -/
def Arguments.setup (a : Arguments) (v : Volume) (g : Grammar) : Except RunError Setup := do
  let settings ← a.settings v
  let library ← v.libraryFor settings
  return {
    volume := v, grammar := g, rules := settings.walkRules, library
    options := { settings.scanOptions with includeSpecs := a.includeSpecs } }

/-- What a run prints. -/
def Arguments.run (a : Arguments) (v : Volume) (g : Grammar) : Except RunError String := do
  let setup ← a.setup v g
  return a.format.render (← setup.reports a.paths)

/-! ## 3. Programs -/

/-- How a program ends. -/
structure Outcome where
  code : Nat
  output : String := ""
  error? : Option String := none
deriving Repr, DecidableEq

/-- The name and version of the program. -/
def versionLine : String := "spek-paths 0.1.0\n"

/-- How to call the program. -/
def usageText : String :=
  String.join <| [
    "Usage: spek-paths [OPTIONS] <PATH>...",
    "",
    "Options:",
    "  -f, --format <text|json>  form of the listing",
    "  -c, --config <FILE>       settings file",
    "      --library <FILE>      library file",
    "      --include-specs       list the spec classes too",
    "  -v, --verbose             more messages",
    "  -h, --help                this text",
    "  -V, --version             the version"].map (· ++ "\n")

/-- Runs the program on a command line. -/
def execute (args : List String) (v : Volume) (g : Grammar) : Outcome :=
  match read args with
  | .error .version => { code := 0, output := versionLine }
  | .error .help => { code := 0, output := usageText }
  | .error .usage => { code := 2, error? := some usageText }
  | .ok a =>
    match a.run v g with
    | .ok output => { code := 0, output }
    | .error e => { code := 1, error? := some ("Error: " ++ e.chain) }

end SpecOutline.CommandLine
