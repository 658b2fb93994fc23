/-
# Snapshots

A directory as JSON: a list of files and directories by pathname, directories on the way being
made.  A file holds a text, or octets in hexadecimal digits.  A snapshot adds the parse trees
of the texts, so that a run needs nothing but its arguments and a snapshot.
-/
import SpecOutline.Files.Volume
import SpecOutline.Json.Parser
import SpecOutline.ParseTree.Rows
import SpecOutline.Text.Hex

namespace SpecOutline

open SpecOutline.Json SpecOutline.Text

/-! ## 1. Directories -/

/-- Reads octets from their digits. -/
def octetsOfJson (v : Value) : Except Fault (List UInt8) := do
  match octetsOfHex? (← v.asText).toList with
  | some octets => return octets
  | none => .error .mismatch

namespace Entry

/-- Reads a file or directory and adds it to a directory. -/
def addJson (top : Entry) (v : Value) : Except Fault Entry := do
  let r ← record .direct ["path", "text", "hex", "dir"] v
  let path ← r.required "path" Value.asText
  if (← r.optional "dir" Value.asBool).getD false then return top.addDirectory path
  else match ← r.optional "text" Value.asText with
    | some text => return top.add path (.file text.toUTF8.toList)
    | none => return top.add path (.file (← r.required "hex" octetsOfJson))

/-- Reads a directory. -/
def ofJson (v : Value) : Except Fault Entry := do
  (← v.asList pure).foldlM addJson empty

end Entry

/-! ## 2. Snapshots -/

/-- A directory and the parse trees of texts. -/
structure Snapshot where
  top : Entry
  grammar : Grammar

/-- Reads the text of a snapshot. -/
def Snapshot.ofText (text : String) : Except Fault Snapshot := do
  let r ← record .direct ["files", "trees"] (← parse text)
  return {
    top := ← r.orElse "files" Entry.empty Entry.ofJson
    grammar := ← r.orElse "trees" (fun _ => none) Grammar.ofJson }

end SpecOutline
