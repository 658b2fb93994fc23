/-
# Writing JSON

Two layouts: `compact` puts no blank between tokens, `pretty` puts every item and entry on a
line of its own, indented by two spaces a level, and leaves empty arrays and objects closed.
Strings escape the quote, the backslash and the control characters below the space, the
latter by their short names where they have one.
-/
import SpecOutline.Json.Value

namespace SpecOutline.Json

/-! ## 1. Scalars -/

/-- A hexadecimal digit, in lower case. -/
def hexChar (n : Nat) : Char :=
  if n < 10 then Char.ofNat ('0'.toNat + n) else Char.ofNat ('a'.toNat + (n - 10))

/-- How a character is written inside a string literal. -/
def quoteChar (c : Char) : List Char :=
  match c with
  | '"' => ['\\', '"']
  | '\\' => ['\\', '\\']
  | '\x08' => ['\\', 'b']
  | '\x0c' => ['\\', 'f']
  | '\n' => ['\\', 'n']
  | '\r' => ['\\', 'r']
  | '\t' => ['\\', 't']
  | c =>
    if c.toNat < 0x20 then ['\\', 'u', '0', '0', hexChar (c.toNat / 16), hexChar (c.toNat % 16)]
    else [c]

/-- A string literal. -/
def quote (s : String) : String :=
  "\"" ++ String.ofList (s.toList.flatMap quoteChar) ++ "\""

/-- A number literal. -/
def Number.render : Number → String
  | .natural n => toString n
  | .decimal negative mantissa places exponent =>
    (if negative then "-" else "") ++ toString mantissa ++ "e" ++ toString (exponent - places)

/-! ## 2. One line -/

mutual

/-- A value without blanks between its tokens. -/
def Value.compact : Value → String
  | .null => "null"
  | .bool b => if b then "true" else "false"
  | .number n => n.render
  | .text s => quote s
  | .unpaired => "null"
  | .array items => "[" ++ String.intercalate "," (compactItems items) ++ "]"
  | .object entries => "\x7b" ++ String.intercalate "," (compactEntries entries) ++ "\x7d"

/-- The items of an array, each without blanks. -/
def compactItems : List Value → List String
  | [] => []
  | v :: vs => v.compact :: compactItems vs

/-- The entries of an object, each without blanks. -/
def compactEntries : List (String × Value) → List String
  | [] => []
  | (k, v) :: es => (quote k ++ ":" ++ v.compact) :: compactEntries es

end

/-! ## 3. Many lines -/

/-- The start of a line at `level`. -/
def indent (level : Nat) : String := String.ofList (List.replicate (2 * level) ' ')

/-- Bracketed parts, each on a line of its own one level deeper. -/
def bracketed (level : Nat) (opening closing : String) : List String → String
  | [] => opening ++ closing
  | parts =>
    opening ++ "\n" ++ String.intercalate ",\n" (parts.map (indent (level + 1) ++ ·))
      ++ "\n" ++ indent level ++ closing

mutual

/-- A value laid out on lines, its first line standing at `level`. -/
def Value.prettyAt (level : Nat) : Value → String
  | .array items => bracketed level "[" "]" (prettyItems (level + 1) items)
  | .object entries => bracketed level "\x7b" "\x7d" (prettyEntries (level + 1) entries)
  | v => v.compact

/-- The items of an array, each laid out at `level`. -/
def prettyItems (level : Nat) : List Value → List String
  | [] => []
  | v :: vs => v.prettyAt level :: prettyItems level vs

/-- The entries of an object, each laid out at `level`. -/
def prettyEntries (level : Nat) : List (String × Value) → List String
  | [] => []
  | (k, v) :: es => (quote k ++ ": " ++ v.prettyAt level) :: prettyEntries level es

end

/-- A value laid out on lines. -/
def Value.pretty (v : Value) : String := v.prettyAt 0

end SpecOutline.Json
