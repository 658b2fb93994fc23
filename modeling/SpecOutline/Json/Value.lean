/-
# JSON values

The data of a JSON text: numbers keep what was written, since only plain naturals are ever
read as numbers, and objects keep their entries in order, repeated keys included.  A string
literal with an unpaired surrogate escape is no text, but it is no fault either until
someone asks for its text; it is the value `unpaired`.
-/

namespace SpecOutline.Json

/-! ## 1. Values -/

/-- A number as written: a plain natural, or sign, mantissa, places after the point and
power of ten of any other literal. -/
inductive Number where
  | natural (n : Nat)
  | decimal (negative : Bool) (mantissa places : Nat) (exponent : Int)
deriving Repr, DecidableEq

/-- A JSON value. -/
inductive Value where
  | null
  | bool (b : Bool)
  | number (n : Number)
  | text (s : String)
  | unpaired
  | array (items : List Value)
  | object (entries : List (String × Value))
deriving Repr, Inhabited

/-- Why a text gives no value of the wanted kind: it ends too early, it is not JSON, or it
is JSON of another shape. -/
inductive Fault where
  | endOfText
  | malformed
  | mismatch
deriving Repr, DecidableEq

/-- The number `n` as a value. -/
def Value.nat (n : Nat) : Value := .number (.natural n)

/-- The texts `ss` as an array. -/
def Value.texts (ss : List String) : Value := .array (ss.map .text)

/-! ## 2. Which values can be kept

A value that is set aside before its type is known has to be kept whole: its numbers must
be finite as double-precision floats, its strings must be texts, and it may nest only so
deep. -/

/-- The magnitude from which on a decimal rounds to infinity: halfway between the largest
double and `2 ^ 1024`. -/
def overflowBound : Nat := Nat.pow 2 1024 - Nat.pow 2 970

/-- Whether a literal denotes a finite double-precision float. -/
def Number.isFinite : Number → Bool
  | .natural n => n < overflowBound
  | .decimal _ mantissa places exponent =>
    let power : Int := exponent - places
    if mantissa = 0 then true
    else if power < 0 then
      mantissa / Nat.pow 10 (min power.natAbs (mantissa.log2 + 1)) < overflowBound
    else power ≤ 308 && mantissa * Nat.pow 10 power.natAbs < overflowBound

mutual

/-- Whether a value can be set aside where `room` more levels of arrays and objects may
open. -/
def Value.canKeep (room : Nat) : Value → Bool
  | .number n => n.isFinite
  | .unpaired => false
  | .array items =>
    match room with
    | 0 => false
    | room + 1 => allCanKeep room items
  | .object entries =>
    match room with
    | 0 => false
    | room + 1 => entriesCanKeep room entries
  | _ => true

/-- Whether all items can be set aside. -/
def allCanKeep (room : Nat) : List Value → Bool
  | [] => true
  | v :: vs => v.canKeep room && allCanKeep room vs

/-- Whether the values of all entries can be set aside. -/
def entriesCanKeep (room : Nat) : List (String × Value) → Bool
  | [] => true
  | (_, v) :: es => v.canKeep room && entriesCanKeep room es

end

end SpecOutline.Json
