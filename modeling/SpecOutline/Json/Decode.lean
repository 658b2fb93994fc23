/-
# From JSON values to data

Decoders for the shapes that stored files use: scalars, lists, options, records, enumerations
and objects with a type tag.

* A record is an object, or an array of its fields in declaration order.  Unknown keys are
  passed over; a known key may stand only once.
* An enumeration is one of its names, or an object whose single key is the name, with null.
* A tagged object names its variant under the tag and holds the variant's fields beside it;
  as an array, the tag comes first.  The rest of it is set aside until the tag is known.

What stands directly in a text is read as the text is scanned, so surplus items and values
that can start no enumeration count as malformed text there; in a part set aside they are a
mismatch like any other.
-/
import SpecOutline.Json.Value

namespace SpecOutline.Json

/-! ## 1. Where a value stands -/

/-- Whether a value is read straight from a text or from a part that was set aside. -/
inductive Place where
  | direct
  | aside
deriving Repr, DecidableEq

/-- The fault of a value that goes on where it should end, or starts where it cannot. -/
def Place.surplus : Place → Fault
  | .direct => .malformed
  | .aside => .mismatch

/-! ## 2. Scalars, lists, options -/

namespace Value

/-- The fault of a value that is not what was asked for. -/
def unfit : Value → Fault
  | .unpaired => .malformed
  | .number n => if n.isFinite then .mismatch else .malformed
  | _ => .mismatch

/-- A text. -/
def asText : Value → Except Fault String
  | .text s => .ok s
  | v => .error v.unfit

/-- A truth value. -/
def asBool : Value → Except Fault Bool
  | .bool b => .ok b
  | v => .error v.unfit

/-- A natural number below `bound`, written without sign, point and exponent. -/
def asNat (bound : Nat) : Value → Except Fault Nat
  | .number (.natural n) =>
    if n < bound then .ok n else .error (Value.nat n).unfit
  | v => .error v.unfit

/-- A list. -/
def asList {α : Type} (decode : Value → Except Fault α) : Value → Except Fault (List α)
  | .array items => items.mapM decode
  | v => .error v.unfit

/-- Null, or a value. -/
def asOption {α : Type} (decode : Value → Except Fault α) : Value → Except Fault (Option α)
  | .null => .ok none
  | v => some <$> decode v

end Value

/-! ## 3. Records -/

/-- The values of a record by field name. -/
abbrev Record := String → Option Value

/-- Whether a known key stands twice. -/
def hasRepeat (names : List String) (entries : List (String × Value)) : Bool :=
  names.any fun n => 1 < entries.countP fun e => e.1 == n

/-- The record with the fields `names` that a value holds. -/
def record (place : Place) (names : List String) : Value → Except Fault Record
  | .object entries =>
    if hasRepeat names entries then .error .mismatch
    else .ok fun n => if n ∈ names then entries.lookup n else none
  | .array items =>
    if names.length < items.length then .error place.surplus
    else .ok fun n => (names.zip items).lookup n
  | v => .error v.unfit

/-- A field that has to be there. -/
def Record.required {α : Type} (r : Record) (name : String)
    (decode : Value → Except Fault α) : Except Fault α :=
  match r name with
  | some v => decode v
  | none => .error .mismatch

/-- A field that may be left out, standing for `default` then. -/
def Record.orElse {α : Type} (r : Record) (name : String) (default : α)
    (decode : Value → Except Fault α) : Except Fault α :=
  match r name with
  | some v => decode v
  | none => .ok default

/-- A field that may be left out or null. -/
def Record.optional {α : Type} (r : Record) (name : String)
    (decode : Value → Except Fault α) : Except Fault (Option α) :=
  r.orElse name none (Value.asOption decode)

/-! ## 4. Enumerations and tags -/

/-- A member of an enumeration by its name. -/
def memberNamed {α : Type} (members : List (String × α)) (name : String) : Except Fault α :=
  match members.lookup name with
  | some a => .ok a
  | none => .error .mismatch

/-- A member of an enumeration. -/
def enumeration {α : Type} (place : Place) (members : List (String × α)) :
    Value → Except Fault α
  | .text s => memberNamed members s
  | .object [(k, .null)] => memberNamed members k
  | .object [(_, v)] => .error v.unfit
  | .unpaired => .error .malformed
  | _ => .error place.surplus

/-- The name under the tag of a tagged object, and the rest of it set aside.  `room` is how
many levels may open inside the object. -/
def tagged (tag : String) (room : Nat) : Value → Except Fault (String × Value)
  | .object entries => do
    match entries.filter fun e => e.1 == tag with
    | [(_, name)] =>
      let name ← name.asText
      let rest := entries.filter fun e => e.1 != tag
      if entriesCanKeep room rest then return (name, .object rest) else .error .malformed
    | _ => .error .mismatch
  | .array (name :: rest) => do
    let name ← name.asText
    if allCanKeep room rest then return (name, .array rest) else .error .malformed
  | .array [] => .error .mismatch
  | v => .error v.unfit

/-- The rest of a tagged object whose variant has no fields. -/
def noFields : Value → Except Fault Unit
  | .array (_ :: _) => .error .mismatch
  | _ => .ok ()

end SpecOutline.Json
