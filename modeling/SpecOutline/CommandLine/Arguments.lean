/-
# Command line arguments

Options may stand before, between and after the paths, short ones in clusters, and take their
value after an equals sign, after the letter or as the next argument, which must not look like
an option.  An option that takes a value may be given once.  After `--` everything is a path.
Arguments are read from left to right, and the first that asks for the version or for help, or
is at fault, decides.
-/
import SpecOutline.Text.Split

namespace SpecOutline.CommandLine

open SpecOutline.Text

/-! ## 1. What can be asked for -/

/-- The form of a listing. -/
inductive Format where
  | text
  | json
deriving Repr, DecidableEq

/-- The form with a name. -/
def Format.named? : String → Option Format
  | "text" => some .text
  | "json" => some .json
  | _ => none

/-- What to list, and how. -/
structure Arguments where
  paths : List String
  format : Format := .text
  settings? : Option String := none
  library? : Option String := none
  includeSpecs : Bool := false
deriving Repr, DecidableEq

/-- What a command line asks for, other than a listing. -/
inductive Stop where
  | version
  | help
  | usage
deriving Repr, DecidableEq

/-- An option that takes a value. -/
inductive ValueOption where
  | format
  | settings
  | library
deriving Repr, DecidableEq

/-! ## 2. Reading options -/

/-- What has been read so far; the paths stand in reverse. -/
structure Draft where
  paths : List String := []
  format? : Option Format := none
  settings? : Option String := none
  library? : Option String := none
  includeSpecs : Bool := false

namespace Draft

/-- Sets an option that is not yet set; a file must have a name. -/
def set (d : Draft) (o : ValueOption) (value : String) : Except Stop Draft :=
  match o with
  | .format =>
    match d.format?, Format.named? value with
    | none, some f => .ok { d with format? := some f }
    | _, _ => .error .usage
  | .settings =>
    if d.settings?.isNone && value != "" then .ok { d with settings? := some value }
    else .error .usage
  | .library =>
    if d.library?.isNone && value != "" then .ok { d with library? := some value }
    else .error .usage

/-- Adds a path, which must not be empty. -/
def addPath (d : Draft) (path : String) : Except Stop Draft :=
  if path = "" then .error .usage else .ok { d with paths := path :: d.paths }

/-- Asks for spec classes, once. -/
def setIncludeSpecs (d : Draft) : Except Stop Draft :=
  if d.includeSpecs then .error .usage else .ok { d with includeSpecs := true }

/-- The arguments, if there is a path. -/
def finish (d : Draft) : Except Stop Arguments :=
  if d.paths.isEmpty then .error .usage
  else .ok {
    paths := d.paths.reverse
    format := d.format?.getD .text
    settings? := d.settings?
    library? := d.library?
    includeSpecs := d.includeSpecs }

end Draft

/-- Where reading stands after an argument: whether an option still lacks its value. -/
abbrev Reading := Except Stop (Draft × Option ValueOption)

/-- Reads an option that takes a value, which may be attached to it. -/
def withValue (d : Draft) (o : ValueOption) : Option String → Reading
  | some value => do return (← d.set o value, none)
  | none => .ok (d, some o)

/-- Reads a long option, without its dashes. -/
def longOption (d : Draft) (cs : List Char) : Reading :=
  let (name, value?) := match cutFirst? '=' cs with
    | some (name, value) => (name, some (String.ofList value))
    | none => (cs, none)
  match String.ofList name, value? with
  | "format", _ => withValue d .format value?
  | "config", _ => withValue d .settings value?
  | "library", _ => withValue d .library value?
  | "include-specs", none => do return (← d.setIncludeSpecs, none)
  | "verbose", none => .ok (d, none)
  | "version", none => .error .version
  | "help", none => .error .help
  | _, _ => .error .usage

/-- The value attached to a short option, an equals sign before it apart. -/
def attached? : List Char → Option String
  | [] => none
  | '=' :: cs => some (String.ofList cs)
  | cs => some (String.ofList cs)

/-- Reads a cluster of short options, without its dash. -/
def shortOptions (d : Draft) : List Char → Reading
  | [] => .ok (d, none)
  | 'v' :: cs => shortOptions d cs
  | 'f' :: cs => withValue d .format (attached? cs)
  | 'c' :: cs => withValue d .settings (attached? cs)
  | 'V' :: _ => .error .version
  | 'h' :: _ => .error .help
  | _ :: _ => .error .usage

/-! ## 3. Reading a command line -/

/-- Whether an argument looks like an option; a lone dash does not. -/
def looksLikeOption (arg : String) : Bool :=
  match arg.toList with
  | '-' :: _ :: _ => true
  | _ => false

/-- Reads one argument. -/
def readOne (d : Draft) (arg : String) : Reading :=
  match arg.toList with
  | '-' :: '-' :: cs => longOption d cs
  | '-' :: c :: cs => shortOptions d (c :: cs)
  | _ => do return (← d.addPath arg, none)

/-- Reads arguments, the first of which is the value of `waiting?` if an option waits for
one. -/
def readAll (d : Draft) (waiting? : Option ValueOption) :
    List String → Except Stop Arguments
  | [] => if waiting?.isSome then .error .usage else d.finish
  | arg :: rest =>
    match waiting? with
    | some o =>
      if looksLikeOption arg then .error .usage
      else do readAll (← d.set o arg) none rest
    | none =>
      if arg = "--" then do (← rest.foldlM Draft.addPath d).finish
      else do
        let (d, waiting?) ← readOne d arg
        readAll d waiting? rest

/-- Reads a command line. -/
def read (args : List String) : Except Stop Arguments := readAll {} none args

end SpecOutline.CommandLine
