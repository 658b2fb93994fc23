/-
# Octets as hexadecimal digits

An octet is written as two digits, the higher half first.  Letters may be of either case.
-/

namespace SpecOutline.Text

/-- The value of a hexadecimal digit. -/
def hexValue? (c : Char) : Option Nat :=
  if c.isDigit then some (c.toNat - '0'.toNat)
  else if 'a' ≤ c && c ≤ 'f' then some (c.toNat - 'a'.toNat + 10)
  else if 'A' ≤ c && c ≤ 'F' then some (c.toNat - 'A'.toNat + 10)
  else none

/-- The octet that two digits write. -/
def hexOctet? (high low : Char) : Option UInt8 := do
  return UInt8.ofNat (16 * (← hexValue? high) + (← hexValue? low))

/-- The octets that some digits write; none if a digit is left over. -/
def octetsOfHex? : List Char → Option (List UInt8)
  | [] => some []
  | high :: low :: rest => do return (← hexOctet? high low) :: (← octetsOfHex? rest)
  | [_] => none

end SpecOutline.Text
