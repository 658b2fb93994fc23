/-
# Reading JSON

`parse` reads one JSON value that fills a whole text, blanks around it apart.  Blanks are
space, tab, line feed and carriage return only; literals, numbers and strings are those of
RFC 8259.  A text that stops where more is needed is at fault for ending, any other
departure from the grammar for being malformed.
-/
import SpecOutline.Json.Value
import SpecOutline.Text.Hex

namespace SpecOutline.Json

open SpecOutline.Text

/-! ## 1. Blanks, literals, numbers -/

/-- The blanks between the tokens of a JSON text. -/
def isGap (c : Char) : Bool := c == ' ' || c == '\n' || c == '\t' || c == '\r'

/-- Skips blanks. -/
def skipGap (cs : List Char) : List Char := cs.dropWhile isGap

/-- The fault of a text that should go on here: at its end, or with the wrong character. -/
def faultAt : List Char → Fault
  | [] => .endOfText
  | _ :: _ => .malformed

/-- Reads the characters of `word`. -/
def expectWord : (word cs : List Char) → Except Fault (List Char)
  | [], cs => .ok cs
  | w :: ws, c :: cs => if w = c then expectWord ws cs else .error .malformed
  | _ :: _, [] => .error .endOfText

/-- The number that a list of decimal digits denotes. -/
def digitsValue (ds : List Char) : Nat :=
  ds.foldl (fun n d => n * 10 + (d.toNat - '0'.toNat)) 0

/-- Reads at least one decimal digit. -/
def someDigits (cs : List Char) : Except Fault (List Char × List Char) :=
  match cs.takeWhile Char.isDigit with
  | [] => .error (faultAt cs)
  | ds => .ok (ds, cs.dropWhile Char.isDigit)

/-- Reads the digits before the point, which start with a zero only if they are one. -/
def wholePart (cs : List Char) : Except Fault (List Char × List Char) := do
  let (ds, rest) ← someDigits cs
  match ds with
  | '0' :: _ :: _ => .error .malformed
  | _ => .ok (ds, rest)

/-- Reads the point and the digits after it, if there is a point. -/
def fractionPart : List Char → Except Fault (Option (List Char) × List Char)
  | '.' :: cs => do
    let (ds, rest) ← someDigits cs
    return (some ds, rest)
  | cs => .ok (none, cs)

/-- Reads the power of ten, if one is written. -/
def exponentPart (cs : List Char) : Except Fault (Option Int × List Char) :=
  let mark := cs.head?
  if mark = some 'e' ∨ mark = some 'E' then
    match cs.tail with
    | '-' :: ds => do
      let (ds, rest) ← someDigits ds
      return (some (-(digitsValue ds : Int)), rest)
    | '+' :: ds => do
      let (ds, rest) ← someDigits ds
      return (some (digitsValue ds), rest)
    | ds => do
      let (ds, rest) ← someDigits ds
      return (some (digitsValue ds), rest)
  else .ok (none, cs)

/-- Reads a number without its sign. -/
def magnitude (negative : Bool) (cs : List Char) : Except Fault (Number × List Char) := do
  let (whole, cs) ← wholePart cs
  let (fraction, cs) ← fractionPart cs
  let (exponent, cs) ← exponentPart cs
  match negative, fraction, exponent with
  | false, none, none => return (.natural (digitsValue whole), cs)
  | _, _, _ =>
    let places := fraction.getD []
    return (.decimal negative (digitsValue (whole ++ places)) places.length
      (exponent.getD 0), cs)

/-- Reads a number. -/
def number : List Char → Except Fault (Number × List Char)
  | '-' :: cs => magnitude true cs
  | cs => magnitude false cs

/-! ## 2. Strings -/

/-- Reads the four hexadecimal digits of an escape.  A text with fewer than four octets left
ends too early, whatever they are. -/
def fourHex (cs : List Char) : Except Fault (Nat × List Char) :=
  match cs with
  | a :: b :: c :: d :: rest =>
    match hexValue? a, hexValue? b, hexValue? c, hexValue? d with
    | some a, some b, some c, some d => .ok (((a * 16 + b) * 16 + c) * 16 + d, rest)
    | _, _, _, _ => .error .malformed
  | cs => .error (if (String.ofList cs).utf8ByteSize < 4 then .endOfText else .malformed)

/-- Whether `n` is the first half of a surrogate pair. -/
def isHighHalf (n : Nat) : Bool := 0xD800 ≤ n && n ≤ 0xDBFF

/-- Whether `n` is the second half of a surrogate pair. -/
def isLowHalf (n : Nat) : Bool := 0xDC00 ≤ n && n ≤ 0xDFFF

/-- Reads the code of an escape, and a second escape where the first is half of a pair;
`none` for a half that has no other half. -/
def escapedCode (cs : List Char) : Except Fault (Option Char × List Char) := do
  let (n, rest) ← fourHex cs
  if isLowHalf n then return (none, rest)
  else if isHighHalf n then
    match rest with
    | '\\' :: 'u' :: more =>
      let (m, after) ← fourHex more
      if isLowHalf m then
        return (some (Char.ofNat (0x10000 + (n - 0xD800) * 0x400 + (m - 0xDC00))), after)
      else return (none, rest)
    | _ => return (none, rest)
  else return (some (Char.ofNat n), rest)

/-- Reads what follows a backslash. -/
def escaped : List Char → Except Fault (Option Char × List Char)
  | [] => .error .endOfText
  | 'u' :: cs => escapedCode cs
  | c :: cs =>
    match c with
    | '"' | '\\' | '/' => .ok (some c, cs)
    | 'b' => .ok (some '\x08', cs)
    | 'f' => .ok (some '\x0c', cs)
    | 'n' => .ok (some '\n', cs)
    | 'r' => .ok (some '\r', cs)
    | 't' => .ok (some '\t', cs)
    | _ => .error .malformed

/-- Reads a string literal after its opening quote, onto the characters already read, which
stand in reverse; `none` once a surrogate has no other half.  The first argument bounds the
number of characters. -/
def stringBody : Nat → Option (List Char) → List Char →
    Except Fault (Option String × List Char)
  | 0, _, _ => .error .endOfText
  | _ + 1, _, [] => .error .endOfText
  | _ + 1, found, '"' :: cs => .ok (found.map fun cs => String.ofList cs.reverse, cs)
  | fuel + 1, found, '\\' :: cs => do
    let (c, rest) ← escaped cs
    stringBody fuel (found.bind fun cs => c.map (· :: cs)) rest
  | fuel + 1, found, c :: cs =>
    if c.toNat < 0x20 then .error .malformed
    else stringBody fuel (found.map (c :: ·)) cs

/-! ## 3. Values -/

mutual

/-- Reads one value, blanks before it apart.  The first argument bounds the number of
values and separators. -/
def value : Nat → List Char → Except Fault (Value × List Char)
  | 0, _ => .error .endOfText
  | fuel + 1, cs =>
    match skipGap cs with
    | [] => .error .endOfText
    | '"' :: rest => do
      let (s, rest) ← stringBody fuel (some []) rest
      return (s.elim .unpaired .text, rest)
    | '[' :: rest =>
      match skipGap rest with
      | ']' :: rest => .ok (.array [], rest)
      | rest => items fuel [] rest
    | '\x7b' :: rest =>
      match skipGap rest with
      | '\x7d' :: rest => .ok (.object [], rest)
      | rest => entries fuel [] rest
    | 't' :: rest => do return (.bool true, ← expectWord ['r', 'u', 'e'] rest)
    | 'f' :: rest => do return (.bool false, ← expectWord ['a', 'l', 's', 'e'] rest)
    | 'n' :: rest => do return (.null, ← expectWord ['u', 'l', 'l'] rest)
    | c :: rest =>
      if c == '-' || c.isDigit then do
        let (n, rest) ← number (c :: rest)
        return (.number n, rest)
      else .error .malformed

/-- Reads the items of an array that has a first one, up to the closing bracket. -/
def items : Nat → List Value → List Char → Except Fault (Value × List Char)
  | 0, _, _ => .error .endOfText
  | fuel + 1, found, cs => do
    let (v, rest) ← value fuel cs
    match skipGap rest with
    | ']' :: rest => return (.array (v :: found).reverse, rest)
    | ',' :: rest => items fuel (v :: found) rest
    | rest => .error (faultAt rest)

/-- Reads the entries of an object that has a first one, up to the closing brace. -/
def entries : Nat → List (String × Value) → List Char → Except Fault (Value × List Char)
  | 0, _, _ => .error .endOfText
  | fuel + 1, found, cs =>
    match skipGap cs with
    | '"' :: rest => do
      let (k, rest) ← stringBody fuel (some []) rest
      match k, skipGap rest with
      | some k, ':' :: rest => do
        let (v, rest) ← value fuel rest
        match skipGap rest with
        | '\x7d' :: rest => return (.object ((k, v) :: found).reverse, rest)
        | ',' :: rest => entries fuel ((k, v) :: found) rest
        | rest => .error (faultAt rest)
      | some _, rest => .error (faultAt rest)
      | none, _ => .error .malformed
    | rest => .error (faultAt rest)

end

/-- Reads the JSON value that a text holds.  No value or separator is without a character of
its own or one that opens it, so twice the length bounds them. -/
def parse (s : String) : Except Fault Value := do
  let cs := s.toList
  let (v, rest) ← value (2 * cs.length + 2) cs
  match skipGap rest with
  | [] => return v
  | _ :: _ => .error .malformed

end SpecOutline.Json
