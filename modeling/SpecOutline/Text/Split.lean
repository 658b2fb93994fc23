/-
# Cutting texts

Cuts at a separating character, at the first place where a word occurs, and after a known
start or before a known end.  A text without the separator is its own single piece.
-/

namespace SpecOutline.Text

/-! ## 1. At a character -/

/-- The pieces of a text between the occurrences of `sep`, in order. -/
def pieces (sep : Char) : List Char → List (List Char)
  | [] => [[]]
  | c :: cs =>
    if c = sep then [] :: pieces sep cs
    else match pieces sep cs with
      | [] => [[c]]
      | p :: ps => (c :: p) :: ps

/-- What stands before the first `sep`; the whole text where there is none. -/
def beforeFirst (sep : Char) (cs : List Char) : List Char := cs.takeWhile (· != sep)

/-- What stands after the last `sep`; the whole text where there is none. -/
def afterLast (sep : Char) (cs : List Char) : List Char :=
  (cs.reverse.takeWhile (· != sep)).reverse

/-- The text around the first `sep`. -/
def cutFirst? (sep : Char) (cs : List Char) : Option (List Char × List Char) :=
  match cs.dropWhile (· != sep) with
  | [] => none
  | _ :: rest => some (cs.takeWhile (· != sep), rest)

/-- The text around the last `sep`. -/
def cutLast? (sep : Char) (cs : List Char) : Option (List Char × List Char) :=
  (cutFirst? sep cs.reverse).map fun (after, before) => (before.reverse, after.reverse)

/-! ## 2. At a word -/

/-- What follows the start `word` of a text that begins with it. -/
def afterStart? : (word cs : List Char) → Option (List Char)
  | [], cs => some cs
  | _ :: _, [] => none
  | w :: ws, c :: cs => if w = c then afterStart? ws cs else none

/-- What precedes the end `word` of a text that ends with it. -/
def beforeEnd? (word cs : List Char) : Option (List Char) :=
  (afterStart? word.reverse cs.reverse).map List.reverse

/-- The text around the first occurrence of `word`. -/
def cutWord? (word : List Char) : List Char → Option (List Char × List Char)
  | [] => if word = [] then some ([], []) else none
  | c :: cs =>
    match afterStart? word (c :: cs) with
    | some rest => some ([], rest)
    | none => (cutWord? word cs).map fun (before, after) => (c :: before, after)

/-- A text begins with `word` exactly if it is `word` followed by something. -/
theorem afterStart?_eq_some_iff {word cs rest : List Char} :
    afterStart? word cs = some rest ↔ cs = word ++ rest := by
  induction word generalizing cs with
  | nil => simp [afterStart?]
  | cons w ws ih =>
    cases cs with
    | nil => simp [afterStart?]
    | cons c cs =>
      by_cases h : w = c
      · simp [afterStart?, h, ih]
      · simp [afterStart?, h, Ne.symm h]

/-- A text ends with `word` exactly if it is something followed by `word`. -/
theorem beforeEnd?_eq_some_iff {word cs rest : List Char} :
    beforeEnd? word cs = some rest ↔ cs = rest ++ word := by
  simp only [beforeEnd?, Option.map_eq_some_iff, afterStart?_eq_some_iff]
  constructor
  · rintro ⟨r, h, rfl⟩
    simpa using congrArg List.reverse h
  · rintro rfl
    exact ⟨rest.reverse, by simp, by simp⟩

/-- Cutting at a word loses nothing but the word. -/
theorem eq_of_cutWord? {word cs before after : List Char}
    (h : cutWord? word cs = some (before, after)) : cs = before ++ word ++ after := by
  induction cs generalizing before with
  | nil =>
    by_cases hw : word = []
    · simp_all [cutWord?]
    · simp [cutWord?, hw] at h
  | cons c cs ih =>
    rw [cutWord?] at h
    split at h
    · next rest hr =>
      obtain ⟨rfl, rfl⟩ : [] = before ∧ rest = after := by simpa using h
      simpa using afterStart?_eq_some_iff.1 hr
    · obtain ⟨⟨b, a⟩, hc, he⟩ := Option.map_eq_some_iff.1 h
      obtain ⟨rfl, rfl⟩ : c :: b = before ∧ a = after := by simpa using he
      simp [ih hc]

end SpecOutline.Text
