/-
# Blanks

The characters that layout may put around and inside a name: those with the Unicode
property `White_Space`.  A text is a `List Char` here; trimming takes blanks off its ends,
`squeeze` takes out all of them.
-/

namespace SpecOutline.Text

/-! ## 1. The property -/

/-- The characters with the Unicode property `White_Space`. -/
def isBlank (c : Char) : Bool :=
  let n := c.toNat
  (9 ≤ n && n ≤ 13) || n == 0x20 || n == 0x85 || n == 0xA0 || n == 0x1680
    || (0x2000 ≤ n && n ≤ 0x200A) || n == 0x2028 || n == 0x2029 || n == 0x202F
    || n == 0x205F || n == 0x3000

/-! ## 2. Trimming -/

/-- `cs` without the longest run at its end whose characters satisfy `p`. -/
def dropEndWhile (p : Char → Bool) (cs : List Char) : List Char :=
  (cs.reverse.dropWhile p).reverse

/-- `cs` without the blanks at its start. -/
def trimStart (cs : List Char) : List Char := cs.dropWhile isBlank

/-- `cs` without the blanks at its end. -/
def trimEnd (cs : List Char) : List Char := dropEndWhile isBlank cs

/-- `cs` without the blanks at both ends. -/
def trim (cs : List Char) : List Char := trimEnd (trimStart cs)

/-- `cs` without any blank. -/
def squeeze (cs : List Char) : List Char := cs.filter fun c => !isBlank c

/-- Squeezing works piece by piece. -/
theorem squeeze_append (as bs : List Char) : squeeze (as ++ bs) = squeeze as ++ squeeze bs :=
  List.filter_append ..

end SpecOutline.Text
