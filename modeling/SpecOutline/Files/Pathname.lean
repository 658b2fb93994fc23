/-
# Pathnames

A pathname is a text with `/` between its parts.  Empty parts and `.` name nothing, so the
parts of `a//b/./c/` are `a`, `b` and `c`.  Only the parts are looked at when a file is
found; only the text is looked at when a path is shown.
-/
import SpecOutline.Text.Split

namespace SpecOutline.Pathname

open SpecOutline.Text

/-! ## 1. Parts -/

/-- The parts of a pathname that name something. -/
def parts (path : String) : List String :=
  ((pieces '/' path.toList).map String.ofList).filter fun p => p != "" && p != "."

/-- Whether a pathname starts at the top of the file system. -/
def isAbsolute (path : String) : Bool := path.toList.head? == some '/'

/-- The last part, unless it is the parent directory. -/
def fileName? (path : String) : Option String :=
  match (parts path).getLast? with
  | some ".." => none
  | last => last

/-- What follows the last dot of the last part; none where the only dot leads. -/
def extension? (path : String) : Option String := do
  let name ← fileName? path
  match cutLast? '.' name.toList with
  | some (_ :: _, after) => some (String.ofList after)
  | _ => none

/-! ## 2. Texts -/

/-- `rel` as seen from `root`: one slash between them, unless `root` ends in one or is empty;
a `rel` that starts at the top stands for itself. -/
def join (root rel : String) : String :=
  if isAbsolute rel then rel
  else if root.isEmpty || root.toList.getLast? == some '/' then root ++ rel
  else root ++ "/" ++ rel

/-- Every backslash as a slash. -/
def slashed (path : String) : String := path.map fun c => if c == '\\' then '/' else c

end SpecOutline.Pathname
