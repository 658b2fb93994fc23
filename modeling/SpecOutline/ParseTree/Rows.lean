/-
# Parse trees in rows

A parse tree is exchanged as a table: one row per node in preorder, each with the offsets of
its text and the number of its children.  Read from the last row to the first, the trees
found so far are those that still lack a parent, in order, and a row takes its children off
their front.
-/
import SpecOutline.Json.Decode
import SpecOutline.ParseTree.Basic
import SpecOutline.Tree.Stored

namespace SpecOutline

open SpecOutline.Json

/-- A node of a parse tree, as a row of a table. -/
structure PhraseRow where
  kind : String
  /-- The sum of 1 for a phrase, 2 for an error, 4 for something missing and 8 for an error at
  or below the node. -/
  flags : Nat
  start : Nat
  stop : Nat
  field? : Option String
  childCount : Nat
deriving Repr

namespace PhraseRow

/-- What a row says about its node. -/
def info (source : Source) (r : PhraseRow) : PhraseInfo where
  kind := r.kind
  isNamed := r.flags.testBit 0
  isError := r.flags.testBit 1
  isMissing := r.flags.testBit 2
  hasError := r.flags.testBit 3
  field? := r.field?
  text := source.slice r.start r.stop
  span := source.span r.start r.stop

/-- Reads a row. -/
def ofJson (v : Value) : Except Fault PhraseRow := do
  let r ← record .direct ["kind", "flags", "start", "end", "field", "child_count"] v
  return {
    kind := ← r.required "kind" Value.asText
    flags := ← r.required "flags" (Value.asNat wordBound)
    start := ← r.required "start" (Value.asNat wordBound)
    stop := ← r.required "end" (Value.asNat wordBound)
    field? := ← r.required "field" (Value.asOption Value.asText)
    childCount := ← r.required "child_count" (Value.asNat wordBound) }

end PhraseRow

namespace ParseTree

/-- Puts a row in front of the trees that still lack a parent. -/
def addRow (source : Source) (r : PhraseRow) (trees : List ParseTree) : List ParseTree :=
  .node (r.info source) (trees.take r.childCount) :: trees.drop r.childCount

/-- The parse tree of a text that a table gives. -/
def ofRows? (text : String) (rows : List PhraseRow) : Option ParseTree :=
  match rows.foldr (addRow (Source.ofText text)) [] with
  | [t] => some t
  | _ => none

end ParseTree

/-- The grammar that knows the parse trees of some texts. -/
def Grammar.ofTables (tables : List (String × List PhraseRow)) : Grammar := fun text =>
  (tables.lookup text).bind (ParseTree.ofRows? text)

/-- Reads the parse trees of some texts: pairs of a text and its rows. -/
def Grammar.ofJson (v : Value) : Except Fault Grammar :=
  Grammar.ofTables <$> v.asList fun pair => do
    let r ← record .direct ["text", "rows"] pair
    return (← r.required "text" Value.asText,
      ← r.required "rows" (Value.asList PhraseRow.ofJson))

end SpecOutline
