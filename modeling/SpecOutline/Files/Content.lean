/-
# The text of a source file

Octets are read as UTF-8.  Where they are not well-formed, faulty runs are replaced, and the
result still counts as a text if fewer than a tenth as many characters as octets are
replacements.  A carriage return before a line feed goes, so lines stay lines.
-/
import SpecOutline.Text.Utf8

namespace SpecOutline.Content

open SpecOutline.Text

/-- How many octets are looked at to tell a binary file. -/
def probeLength : Nat := 8192

/-- Whether a file is binary: an octet zero stands near its start. -/
def isBinary (octets : List UInt8) : Bool := (octets.take probeLength).contains 0

/-- Every character with the one after it. -/
def withNext (cs : List Char) : List (Char × Option Char) :=
  cs.zip (cs.tail.map some ++ [none])

/-- Takes out every carriage return that a line feed follows. -/
def unifyLines (cs : List Char) : List Char :=
  ((withNext cs).filter fun c => !(c.1 == '\r' && c.2 == some '\n')).map (·.1)

/-- Whether a loosely read text has too many replacements to be one. -/
def isGarbled (cs : List Char) : Bool :=
  (String.ofList cs).utf8ByteSize / 10 ≤ cs.count replacement

/-- The text of the octets before line ends are unified. -/
def decoded? (octets : List UInt8) : Option (List Char) :=
  match decodeStrict? octets with
  | some cs => some cs
  | none =>
    let cs := decodeLoose octets
    if isGarbled cs then none else some cs

/-- The text of a source file. -/
def text? (octets : List UInt8) : Option String :=
  (decoded? octets).map fun cs => String.ofList (unifyLines cs)

end SpecOutline.Content
