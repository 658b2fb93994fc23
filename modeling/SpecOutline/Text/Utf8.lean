/-
# Octets to text

Reads a list of octets as UTF-8.  `decode` gives one entry per character, and one `none`
per faulty run: the longest start of a well-formed character that the next octet does not
continue, or a single octet that starts none.  A text is strictly readable if no entry is
`none`; read loosely, every faulty run becomes the replacement character.
-/

namespace SpecOutline.Text

/-! ## 1. The shape of one character -/

/-- What a first octet announces: how many octets follow, in which range the first of them
lies, and the part of the code point it carries itself. -/
structure Lead where
  follow : Nat
  low : UInt8
  high : UInt8
  value : Nat

/-- The announcement of a first octet; `none` for an octet that starts no character. -/
def lead? (b : UInt8) : Option Lead :=
  if b < 0x80 then some ⟨0, 0x80, 0xBF, b.toNat⟩
  else if b < 0xC2 then none
  else if b < 0xE0 then some ⟨1, 0x80, 0xBF, b.toNat - 0xC0⟩
  else if b = 0xE0 then some ⟨2, 0xA0, 0xBF, 0⟩
  else if b = 0xED then some ⟨2, 0x80, 0x9F, 0xD⟩
  else if b < 0xF0 then some ⟨2, 0x80, 0xBF, b.toNat - 0xE0⟩
  else if b = 0xF0 then some ⟨3, 0x90, 0xBF, 0⟩
  else if b < 0xF4 then some ⟨3, 0x80, 0xBF, b.toNat - 0xF0⟩
  else if b = 0xF4 then some ⟨3, 0x80, 0x8F, 4⟩
  else none

/-- The longest start of at most `n` octets that continue a character whose next octet
lies between `low` and `high`. -/
def continuation : (n : Nat) → (low high : UInt8) → List UInt8 → List UInt8
  | 0, _, _, _ => []
  | _ + 1, _, _, [] => []
  | n + 1, low, high, b :: bs =>
    if low ≤ b && b ≤ high then b :: continuation n 0x80 0xBF bs else []

/-- The code point of a first octet's part followed by continuation octets. -/
def codePoint (value : Nat) (tail : List UInt8) : Nat :=
  tail.foldl (fun n b => n * 64 + (b.toNat - 0x80)) value

/-! ## 2. Decoding -/

/-- The first entry of a non-empty list of octets, and the octets after it. -/
def decodeOne (b : UInt8) (bs : List UInt8) : Option Char × List UInt8 :=
  match lead? b with
  | none => (none, bs)
  | some l =>
    let tail := continuation l.follow l.low l.high bs
    let unit :=
      if tail.length = l.follow then some (Char.ofNat (codePoint l.value tail)) else none
    (unit, bs.drop tail.length)

/-- One entry uses up at least its first octet. -/
theorem length_decodeOne_le (b : UInt8) (bs : List UInt8) :
    (decodeOne b bs).2.length ≤ bs.length := by
  rw [decodeOne]
  split <;> simp

/-- Adds the entries of a list of octets to those already found, which stand in reverse. -/
def decodeOnto (found : List (Option Char)) : List UInt8 → List (Option Char)
  | [] => found.reverse
  | b :: bs => decodeOnto ((decodeOne b bs).1 :: found) (decodeOne b bs).2
termination_by bs => bs.length
decreasing_by
  have := length_decodeOne_le b bs
  simp only [List.length_cons]
  omega

/-- The characters of a list of octets, `none` standing for a faulty run. -/
def decode (bs : List UInt8) : List (Option Char) := decodeOnto [] bs

/-- Entries found earlier stand in front. -/
theorem decodeOnto_eq (found : List (Option Char)) (bs : List UInt8) :
    decodeOnto found bs = found.reverse ++ decode bs := by
  rw [decode]
  induction hn : bs.length using Nat.strongRecOn generalizing found bs with
  | ind n ih =>
    cases bs with
    | nil => simp [decodeOnto]
    | cons b bs =>
      have hlt : (decodeOne b bs).2.length < n := by
        have := length_decodeOne_le b bs
        rw [← hn, List.length_cons]
        omega
      rw [decodeOnto, decodeOnto, ih _ hlt _ _ rfl, ih _ hlt [_] _ rfl]
      simp

/-- No octets, no characters. -/
theorem decode_nil : decode [] = [] := by simp [decode, decodeOnto]

/-- Decoding takes one entry after the other. -/
theorem decode_cons (b : UInt8) (bs : List UInt8) :
    decode (b :: bs) = (decodeOne b bs).1 :: decode (decodeOne b bs).2 := by
  rw [decode, decodeOnto, decodeOnto_eq]
  rfl

/-- The character that stands for a faulty run. -/
def replacement : Char := Char.ofNat 0xFFFD

/-- The text of well-formed octets. -/
def decodeStrict? (bs : List UInt8) : Option (List Char) := (decode bs).mapM id

/-- The text of any octets, every faulty run replaced. -/
def decodeLoose (bs : List UInt8) : List Char := (decode bs).map fun u => u.getD replacement

/-- The octets of a text. -/
def encode (s : String) : List UInt8 := s.toUTF8.toList

end SpecOutline.Text
