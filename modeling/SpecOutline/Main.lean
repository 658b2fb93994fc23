/-
# The program

Lists the blocks of suites.  The arguments say which files to look at and how to list what is
found there; standard input holds a snapshot of the files and their parse trees, as one line
of JSON.
-/
import SpecOutline.CommandLine.Listing
import SpecOutline.Files.Snapshot

open SpecOutline

/-- Runs the program on its arguments and the snapshot on standard input. -/
def main (args : List String) : IO UInt32 := do
  match Snapshot.ofText (← (← IO.getStdin).getLine) with
  | .error fault =>
    IO.eprintln ("Error: snapshot: " ++ fault.message)
    return 1
  | .ok snapshot =>
    let outcome := CommandLine.execute args snapshot.top.volume snapshot.grammar
    IO.print outcome.output
    if let some error := outcome.error? then IO.eprintln error
    return outcome.code.toUInt32
