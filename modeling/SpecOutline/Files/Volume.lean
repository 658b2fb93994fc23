/-
# Files and directories

A volume answers for every pathname with what is there.  A volume that holds one directory
follows a pathname part by part, and is at fault where a part is missing or lies below a
file.
-/
import SpecOutline.Error
import SpecOutline.Files.Pathname
import SpecOutline.Text.Utf8

namespace SpecOutline

open SpecOutline.Text

/-! ## 1. Entries -/

/-- What stands at a pathname: a file with its octets, or a directory with named entries. -/
inductive Entry where
  | file (octets : List UInt8)
  | directory (entries : List (String × Entry))
deriving Repr, Inhabited

/-- A volume: what stands at each pathname. -/
abbrev Volume := String → Except FileError Entry

namespace Entry

/-- An empty directory. -/
def empty : Entry := .directory []

/-- Puts something below a directory; directories on the way are made. -/
def put : (parts : List String) → (new here : Entry) → Entry
  | [], new, _ => new
  | part :: rest, new, here =>
    let entries := match here with
      | .directory entries => entries
      | .file _ => []
    let below := (entries.lookup part).getD empty
    .directory ((part, put rest new below) :: entries.filter fun e => e.1 != part)

/-- Follows the parts of a pathname from a directory; `above` are the directories around it,
the nearest first. -/
def follow (above : List Entry) (here : Entry) : List String → Except FileError Entry
  | [] => .ok here
  | part :: rest =>
    match here with
    | .file _ => .error .notADirectory
    | .directory entries =>
      if part = "" ∨ part = "." then follow above here rest
      else if part = ".." then
        match above with
        | [] => follow [] here rest
        | up :: ups => follow ups up rest
      else match entries.lookup part with
        | some below => follow (here :: above) below rest
        | none => .error .notFound

/-- The volume of a directory. -/
def volume (top : Entry) : Volume := fun path =>
  if path = "" then .error .notFound
  else follow [] top ((pieces '/' path.toList).map String.ofList)

/-- Adds a file or directory to a directory. -/
def add (top : Entry) (path : String) (new : Entry) : Entry :=
  put (Pathname.parts path) new top

/-- Makes sure that there is a directory. -/
def addDirectory (top : Entry) (path : String) : Entry :=
  match follow [] top (Pathname.parts path) with
  | .ok (.directory _) => top
  | _ => top.add path empty

mutual

/-- The files at or below an entry, each with its names from there. -/
def files (names : List String) : Entry → List (List String × List UInt8)
  | .file octets => [(names, octets)]
  | .directory entries => filesAmong names entries

/-- The files among the entries of a directory. -/
def filesAmong (names : List String) :
    List (String × Entry) → List (List String × List UInt8)
  | [] => []
  | (name, e) :: rest => files (names ++ [name]) e ++ filesAmong names rest

end

/-- The order of a walk that takes the entries of each directory by name: names are compared
from the top. -/
def namesLe : List String → List String → Bool
  | [], _ => true
  | _ :: _, [] => false
  | a :: as, b :: bs => a < b || (a == b && namesLe as bs)

/-- The files below a directory, in the order of a walk. -/
def walk (e : Entry) : List (List String × List UInt8) :=
  (e.files []).mergeSort fun a b => namesLe a.1 b.1

end Entry

/-! ## 2. Questions to a volume -/

namespace Volume

/-- Whether there is anything at a pathname. -/
def exists? (v : Volume) (path : String) : Bool :=
  match v path with
  | .ok _ => true
  | .error _ => false

/-- Whether there is a file at a pathname. -/
def isFile (v : Volume) (path : String) : Bool :=
  match v path with
  | .ok (.file _) => true
  | _ => false

/-- The octets of a file. -/
def read (v : Volume) (path : String) : Except FileError (List UInt8) :=
  match v path with
  | .ok (.file octets) => .ok octets
  | .ok (.directory _) => .error .isADirectory
  | .error e => .error e

/-- The text of a file that has to be well-formed UTF-8. -/
def readText (v : Volume) (path : String) : Except FileError String := do
  match decodeStrict? (← v.read path) with
  | some cs => return String.ofList cs
  | none => .error .notUtf8

end Volume

end SpecOutline
