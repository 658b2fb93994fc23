/-
# Places in a source text

A span is a range of octets with the lines and columns of its ends.  Lines count from one,
columns count octets from zero, and only the line feed ends a line.
-/

namespace SpecOutline

/-! ## 1. Spans -/

/-- A range of octets of a source text, its end excluded. -/
structure Span where
  start : Nat := 0
  stop : Nat := 0
  startLine : Nat := 0
  stopLine : Nat := 0
  startColumn : Nat := 0
  stopColumn : Nat := 0
deriving Repr, DecidableEq, Inhabited

namespace Span

/-- The number of octets; none for a span that ends before it starts. -/
def length (s : Span) : Nat := s.stop - s.start

/-- Whether a span holds no octet. -/
def isEmpty (s : Span) : Bool := s.length == 0

/-- `s` lies inside `t`. -/
def Within (s t : Span) : Prop := t.start ≤ s.start ∧ s.stop ≤ t.stop

end Span

/-! ## 2. Source texts -/

/-- The offsets of the line feeds among the octets from offset `i` on. -/
def lineFeedsFrom (i : Nat) : List UInt8 → List Nat
  | [] => []
  | b :: bs => if b = 10 then i :: lineFeedsFrom (i + 1) bs else lineFeedsFrom (i + 1) bs

/-- A source text with its octets at hand. -/
structure Source where
  octets : ByteArray
  lineFeeds : List Nat

namespace Source

/-- The source of a text. -/
def ofText (text : String) : Source where
  octets := text.toUTF8
  lineFeeds := lineFeedsFrom 0 text.toUTF8.toList

/-- The text between two offsets; empty where they cut a character. -/
def slice (s : Source) (start stop : Nat) : String :=
  (String.fromUTF8? (s.octets.extract start stop)).getD ""

/-- The line of an offset: one more than the line feeds before it. -/
def lineAt (s : Source) (offset : Nat) : Nat := s.lineFeeds.countP (· < offset) + 1

/-- The column of an offset: the octets since the last line feed before it. -/
def columnAt (s : Source) (offset : Nat) : Nat :=
  match (s.lineFeeds.filter (· < offset)).getLast? with
  | some feed => offset - (feed + 1)
  | none => offset

/-- The span between two offsets. -/
def span (s : Source) (start stop : Nat) : Span where
  start := start
  stop := stop
  startLine := s.lineAt start
  stopLine := s.lineAt stop
  startColumn := s.columnAt start
  stopColumn := s.columnAt stop

end Source

end SpecOutline
