/-
# What is written is read

`WrittenAs v cs` says that a text writes a value, whatever its layout: blanks may stand around
every item, key and value.  It speaks of neither the reader nor a printer.

The reader takes every such text for its value, and stops where the text ends
(`value_of_writtenAs`).  Numbers, strings and blanks are read on their own first; then one lemma
for each of the three functions of the reader follows the rules of `WrittenAs`.  The bound on the
number of steps is never reached: no step takes less than half a character (`2 * cs.length` in
the statements).
-/
import SpecOutline.Json.Parser
import SpecOutline.Json.Printer

namespace SpecOutline.Json

open SpecOutline.Text

/-! ## 1. Texts that write a value -/

/-- Blanks only. -/
def IsGap (cs : List Char) : Prop := ∀ c ∈ cs, isGap c = true

/-- A string literal, as characters. -/
def quoted (s : String) : List Char := '"' :: (s.toList.flatMap quoteChar ++ ['"'])

mutual

/-- A text writes a value. -/
inductive WrittenAs : Value → List Char → Prop
  | null : WrittenAs .null ['n', 'u', 'l', 'l']
  | bool (b : Bool) :
      WrittenAs (.bool b) (if b then ['t', 'r', 'u', 'e'] else ['f', 'a', 'l', 's', 'e'])
  | nat (n : Nat) : WrittenAs (.nat n) (Nat.toDigits 10 n)
  | text (s : String) : WrittenAs (.text s) (quoted s)
  | noItems {gap : List Char} : IsGap gap → WrittenAs (.array []) ('[' :: (gap ++ [']']))
  | items {vs : List Value} {cs : List Char} :
      ItemsWrittenAs vs cs → WrittenAs (.array vs) ('[' :: (cs ++ [']']))
  | noEntries {gap : List Char} :
      IsGap gap → WrittenAs (.object []) ('\x7b' :: (gap ++ ['\x7d']))
  | entries {es : List (String × Value)} {cs : List Char} :
      EntriesWrittenAs es cs → WrittenAs (.object es) ('\x7b' :: (cs ++ ['\x7d']))

/-- A text writes the items of an array that has some, with commas between them. -/
inductive ItemsWrittenAs : List Value → List Char → Prop
  | last {v : Value} {before cs after : List Char} :
      IsGap before → WrittenAs v cs → IsGap after →
      ItemsWrittenAs [v] (before ++ (cs ++ after))
  | more {v : Value} {vs : List Value} {before cs after rest : List Char} :
      IsGap before → WrittenAs v cs → IsGap after → ItemsWrittenAs vs rest →
      ItemsWrittenAs (v :: vs) (before ++ (cs ++ (after ++ ',' :: rest)))

/-- A text writes the entries of an object that has some, with commas between them. -/
inductive EntriesWrittenAs : List (String × Value) → List Char → Prop
  | last {k : String} {v : Value} {before left right cs after : List Char} :
      IsGap before → IsGap left → IsGap right → WrittenAs v cs → IsGap after →
      EntriesWrittenAs [(k, v)] (before ++ (quoted k ++ (left ++ ':' :: (right ++ (cs ++ after)))))
  | more {k : String} {v : Value} {es : List (String × Value)}
      {before left right cs after rest : List Char} :
      IsGap before → IsGap left → IsGap right → WrittenAs v cs → IsGap after →
      EntriesWrittenAs es rest →
      EntriesWrittenAs ((k, v) :: es)
        (before ++ (quoted k ++ (left ++ ':' :: (right ++ (cs ++ (after ++ ',' :: rest))))))

end

/-! ## 2. Reading blanks and numbers -/

theorem isGap_nil : IsGap [] := by
  rintro c ⟨⟩

theorem skipGap_append {gap : List Char} (hgap : IsGap gap) (cs : List Char) :
    skipGap (gap ++ cs) = skipGap cs := by
  induction gap with
  | nil => rfl
  | cons c gap ih =>
    rw [List.cons_append, skipGap, List.dropWhile_cons_of_pos (hgap c List.mem_cons_self)]
    exact ih fun d hd => hgap d (List.mem_cons_of_mem c hd)

theorem skipGap_cons {c : Char} (hc : isGap c = false) (cs : List Char) :
    skipGap (c :: cs) = c :: cs := by
  rw [skipGap, List.dropWhile_cons_of_neg (by simp [hc])]

/-- Nothing that goes on a number: no digit, point or mark of an exponent. -/
def EndsNumber (rest : List Char) : Prop :=
  ∀ c ∈ rest.head?, c.isDigit = false ∧ c ≠ '.' ∧ c ≠ 'e' ∧ c ≠ 'E'

/-- The digits of a number are read up to where it ends. -/
theorem someDigits_append {ds rest : List Char} (hds : ∀ c ∈ ds, c.isDigit = true)
    (hne : ds ≠ []) (hrest : EndsNumber rest) : someDigits (ds ++ rest) = .ok (ds, rest) := by
  have hstop : rest.takeWhile Char.isDigit = [] ∧ rest.dropWhile Char.isDigit = rest := by
    cases rest with
    | nil => exact ⟨rfl, rfl⟩
    | cons c rest => simp [(hrest c rfl).1]
  rw [someDigits, List.takeWhile_append_of_pos hds, List.dropWhile_append_of_pos hds, hstop.1,
    hstop.2, List.append_nil]
  cases ds with
  | nil => exact absurd rfl hne
  | cons d ds => rfl

/-- The first of the digits of a number, and the rest of them. -/
theorem toDigits_eq_cons (n : Nat) :
    ∃ d ds, Nat.toDigits 10 n = d :: ds ∧ d.isDigit = true := by
  cases h : Nat.toDigits 10 n with
  | nil => exact absurd h Nat.toDigits_ne_nil
  | cons d ds =>
    exact ⟨d, ds, rfl, Nat.isDigit_of_mem_toDigits (b := 10) (n := n) (by omega) (by omega)
      (by rw [h]; exact List.mem_cons_self)⟩

/-- Only zero is written with a zero in front. -/
theorem toDigits_ne_zero_cons (n : Nat) (d : Char) (ds : List Char) :
    Nat.toDigits 10 n ≠ '0' :: d :: ds := by
  have hhead : ∀ n, 0 < n → (Nat.toDigits 10 n).head? ≠ some '0' := by
    intro n
    induction n using Nat.strongRecOn with
    | ind n ih =>
      intro hn
      by_cases hlt : n < 10
      · have hone : ∀ n < 10, 0 < n → n.digitChar ≠ '0' := by decide
        rw [Nat.toDigits_of_lt_base hlt]
        simpa using hone n hlt hn
      · have htenth := ih (n / 10) (by omega) (by omega)
        obtain ⟨d, ds, hcons, -⟩ := toDigits_eq_cons (n / 10)
        rw [Nat.toDigits_of_base_le (by omega) (by omega), hcons]
        rw [hcons] at htenth
        exact htenth
  intro h
  cases n with
  | zero => simp at h
  | succ n => exact hhead (n + 1) (Nat.succ_pos n) (by rw [h]; rfl)

theorem digitsValue_toDigits (n : Nat) : digitsValue (Nat.toDigits 10 n) = n := by
  have h := Nat.ofDigitChars_ten_toDigits (n := n)
  rw [Nat.ofDigitChars_eq_foldl] at h
  simpa only [digitsValue, Nat.mul_comm] using h

theorem wholePart_toDigits (n : Nat) {rest : List Char} (hrest : EndsNumber rest) :
    wholePart (Nat.toDigits 10 n ++ rest) = .ok (Nat.toDigits 10 n, rest) := by
  have hdigits : ∀ c ∈ Nat.toDigits 10 n, c.isDigit = true :=
    fun c hc => Nat.isDigit_of_mem_toDigits (by omega) (by omega) hc
  rw [wholePart, someDigits_append hdigits Nat.toDigits_ne_nil hrest]
  simp only [bind, Except.bind]
  split
  · next d ds h => exact absurd h (toDigits_ne_zero_cons n d ds)
  · rfl

/-- **A natural number is read back.** -/
theorem number_toDigits (n : Nat) {rest : List Char} (hrest : EndsNumber rest) :
    number (Nat.toDigits 10 n ++ rest) = .ok (.natural n, rest) := by
  have hmagnitude : magnitude false (Nat.toDigits 10 n ++ rest) = .ok (.natural n, rest) := by
    have hfraction : fractionPart rest = .ok (none, rest) := by
      cases rest with
      | nil => rfl
      | cons c rest =>
        rw [fractionPart]
        rintro cs ⟨⟩
        exact (hrest '.' rfl).2.1 rfl
    have hexponent : exponentPart rest = .ok (none, rest) := by
      rw [exponentPart, if_neg]
      rintro (he | he)
      · exact (hrest _ he).2.2.1 rfl
      · exact (hrest _ he).2.2.2 rfl
    rw [magnitude, wholePart_toDigits n hrest]
    simp only [bind, Except.bind, hfraction, hexponent, digitsValue_toDigits]
    rfl
  obtain ⟨d, ds, hcons, hd⟩ := toDigits_eq_cons n
  rw [hcons, List.cons_append, number, ← List.cons_append, ← hcons, hmagnitude]
  rintro cs ⟨⟩
  exact absurd hd (by decide)

/-! ## 3. Reading strings -/

theorem hexValue?_hexChar : ∀ d < 16, hexValue? (hexChar d) = some d := by decide

/-- The escape of a control character by its code. -/
theorem escapedCode_control {c : Char} (hc : c.toNat < 0x20) (rest : List Char) :
    escapedCode ('0' :: '0' :: hexChar (c.toNat / 16) :: hexChar (c.toNat % 16) :: rest) =
      .ok (some c, rest) := by
  have hhigh := hexValue?_hexChar (c.toNat / 16) (by omega)
  have hlow := hexValue?_hexChar (c.toNat % 16) (by omega)
  have hzero : hexValue? '0' = some 0 := by decide
  have hcode : c.toNat / 16 * 16 + c.toNat % 16 = c.toNat := by omega
  have hfour : fourHex ('0' :: '0' :: hexChar (c.toNat / 16) :: hexChar (c.toNat % 16) :: rest) =
      .ok (c.toNat, rest) := by
    simp only [fourHex, hhigh, hlow, hzero, Nat.zero_mul, Nat.zero_add, hcode]
  have hhalf : isLowHalf c.toNat = false ∧ isHighHalf c.toNat = false := by
    simp only [isLowHalf, isHighHalf, Bool.and_eq_false_iff, decide_eq_false_iff_not]
    omega
  rw [escapedCode, hfour]
  simp only [bind, Except.bind, hhalf.1, hhalf.2, Char.ofNat_toNat]
  rfl

/-- **A character of a string is read back**, at the cost of one step. -/
theorem stringBody_quoteChar (fuel : Nat) (found : List Char) (c : Char) (rest : List Char) :
    stringBody (fuel + 1) (some found) (quoteChar c ++ rest) =
      stringBody fuel (some (c :: found)) rest := by
  unfold quoteChar
  split
  all_goals try rfl
  · next h1 h2 h3 h4 h5 h6 h7 =>
    split
    · next hc =>
      simp only [List.cons_append, List.nil_append, stringBody, escaped, escapedCode_control hc]
      rfl
    · next hc =>
      rw [List.cons_append, List.nil_append, stringBody, if_neg hc]
      · rfl
      · exact h1
      · exact h2

/-- **A string is read back**, if there is a step for each of its characters and one more. -/
theorem stringBody_quoteChars {fuel : Nat} (cs found rest : List Char) (hfuel : cs.length < fuel) :
    stringBody fuel (some found) (cs.flatMap quoteChar ++ '"' :: rest) =
      .ok (some (String.ofList (found.reverse ++ cs)), rest) := by
  induction cs generalizing fuel found with
  | nil =>
    obtain ⟨fuel, rfl⟩ : ∃ k, fuel = k + 1 := ⟨fuel - 1, by simp at hfuel; omega⟩
    simp [stringBody]
  | cons c cs ih =>
    obtain ⟨fuel, rfl⟩ : ∃ k, fuel = k + 1 := ⟨fuel - 1, by omega⟩
    rw [List.flatMap_cons, List.append_assoc, stringBody_quoteChar,
      ih (c :: found) (Nat.lt_of_succ_lt_succ hfuel)]
    simp

theorem length_quoted (s : String) : s.toList.length + 2 ≤ (quoted s).length := by
  have hone : ∀ c, 1 ≤ (quoteChar c).length := by
    intro c
    unfold quoteChar
    split
    all_goals try simp
    split <;> simp
  have hall : ∀ cs : List Char, cs.length ≤ (cs.flatMap quoteChar).length := by
    intro cs
    induction cs with
    | nil => simp
    | cons c cs ih =>
      have := hone c
      rw [List.flatMap_cons, List.length_append, List.length_cons]
      omega
  have := hall s.toList
  simp only [quoted, List.length_cons, List.length_append, List.length_nil]
  omega

/-- The string after an opening quote. -/
theorem stringBody_quoted (fuel : Nat) (s : String) (rest : List Char)
    (hfuel : (quoted s).length ≤ fuel + 1) :
    ∃ cs, quoted s ++ rest = '"' :: cs ∧ stringBody fuel (some []) cs = .ok (some s, rest) := by
  refine ⟨s.toList.flatMap quoteChar ++ '"' :: rest, by simp [quoted], ?_⟩
  have := length_quoted s
  rw [stringBody_quoteChars _ _ _ (by omega)]
  simp

/-! ## 4. Reading values -/

/-- A blank ends a number, and so does what ends one behind blanks. -/
theorem endsNumber_append {gap rest : List Char} (hgap : IsGap gap) (hrest : EndsNumber rest) :
    EndsNumber (gap ++ rest) := by
  cases gap with
  | nil => exact hrest
  | cons c gap =>
    rintro d ⟨⟩
    have hblank : c = ' ' ∨ c = '\n' ∨ c = '\t' ∨ c = '\r' := by
      simpa [isGap, or_assoc] using hgap c List.mem_cons_self
    rcases hblank with rfl | rfl | rfl | rfl <;> decide

theorem endsNumber_cons {c : Char} (rest : List Char)
    (hc : c.isDigit = false ∧ c ≠ '.' ∧ c ≠ 'e' ∧ c ≠ 'E') : EndsNumber (c :: rest) := by
  rintro d ⟨⟩
  exact hc

/-- The first character of a written value is no blank, and it closes nothing. -/
theorem WrittenAs.eq_cons {v : Value} {cs : List Char} (h : WrittenAs v cs) :
    ∃ c rest, cs = c :: rest ∧ isGap c = false ∧ c ≠ ']' := by
  cases h with
  | nat n =>
    obtain ⟨d, ds, hcons, hd⟩ := toDigits_eq_cons n
    refine ⟨d, ds, hcons, ?_, ?_⟩
    · simp only [isGap, Bool.or_eq_false_iff, beq_eq_false_iff_ne]
      refine ⟨⟨⟨?_, ?_⟩, ?_⟩, ?_⟩ <;> (rintro rfl; exact absurd hd (by decide))
    · rintro rfl
      exact absurd hd (by decide)
  | bool b => cases b <;> exact ⟨_, _, rfl, by decide, by decide⟩
  | _ => exact ⟨_, _, rfl, by decide, by decide⟩

theorem value_append {gap : List Char} (hgap : IsGap gap) (fuel : Nat) (cs : List Char) :
    value fuel (gap ++ cs) = value fuel cs := by
  cases fuel with
  | zero => simp only [value]
  | succ fuel => simp only [value, skipGap_append hgap]

theorem skipGap_skipGap (cs : List Char) : skipGap (skipGap cs) = skipGap cs := by
  induction cs with
  | nil => rfl
  | cons c cs ih =>
    cases hc : isGap c with
    | true =>
      have hskip : skipGap (c :: cs) = skipGap cs := List.dropWhile_cons_of_pos hc
      rw [hskip, ih]
    | false => rw [skipGap_cons hc, skipGap_cons hc]

theorem items_skipGap (fuel : Nat) (found : List Value) (cs : List Char) :
    items fuel found (skipGap cs) = items fuel found cs := by
  have hvalue : ∀ fuel, value fuel (skipGap cs) = value fuel cs := by
    intro fuel
    cases fuel <;> simp only [value, skipGap_skipGap]
  cases fuel <;> simp only [items, hvalue]

theorem entries_skipGap (fuel : Nat) (found : List (String × Value)) (cs : List Char) :
    entries fuel found (skipGap cs) = entries fuel found cs := by
  cases fuel <;> simp only [entries, skipGap_skipGap]

/-- An opening bracket before something that is not the closing one. -/
theorem value_bracket (fuel : Nat) {cs : List Char} (hcs : (skipGap cs).head? ≠ some ']') :
    value (fuel + 1) ('[' :: cs) = items fuel [] cs := by
  rw [value, skipGap_cons (by decide), ← items_skipGap]
  simp only
  split
  · next heq => exact absurd (by rw [heq]; rfl) hcs
  · rfl

/-- An opening brace before something that is not the closing one. -/
theorem value_brace (fuel : Nat) {cs : List Char} (hcs : (skipGap cs).head? ≠ some '\x7d') :
    value (fuel + 1) ('\x7b' :: cs) = entries fuel [] cs := by
  rw [value, skipGap_cons (by decide), ← entries_skipGap]
  simp only
  split
  · next heq => exact absurd (by rw [heq]; rfl) hcs
  · rfl

section Step

variable {fuel : Nat} {cs rest more : List Char} {v : Value}

/-- The last item of an array. -/
theorem items_last {found : List Value} (hv : value fuel cs = .ok (v, rest))
    (hrest : skipGap rest = ']' :: more) :
    items (fuel + 1) found cs = .ok (.array (v :: found).reverse, more) := by
  simp only [items, hv, bind, Except.bind, hrest]
  rfl

/-- An item with others behind it. -/
theorem items_more {found : List Value} (hv : value fuel cs = .ok (v, rest))
    (hrest : skipGap rest = ',' :: more) :
    items (fuel + 1) found cs = items fuel (v :: found) more := by
  simp only [items, hv, bind, Except.bind, hrest]

variable {k : String} {found : List (String × Value)} {afterQuote afterKey afterColon : List Char}
  (hquote : skipGap cs = '"' :: afterQuote)
  (hkey : stringBody fuel (some []) afterQuote = .ok (some k, afterKey))
  (hcolon : skipGap afterKey = ':' :: afterColon) (hv : value fuel afterColon = .ok (v, rest))
include hquote hkey hcolon hv

/-- The last entry of an object. -/
theorem entries_last (hrest : skipGap rest = '\x7d' :: more) :
    entries (fuel + 1) found cs = .ok (.object ((k, v) :: found).reverse, more) := by
  simp only [entries, hquote, hkey, bind, Except.bind, hcolon, hv, hrest]
  rfl

/-- An entry with others behind it. -/
theorem entries_more (hrest : skipGap rest = ',' :: more) :
    entries (fuel + 1) found cs = entries fuel ((k, v) :: found) more := by
  simp only [entries, hquote, hkey, bind, Except.bind, hcolon, hv, hrest]

end Step

/-- What an array with items begins with, blanks apart, does not close it. -/
theorem ItemsWrittenAs.head?_ne {vs : List Value} {cs : List Char} (h : ItemsWrittenAs vs cs)
    (rest : List Char) : (skipGap (cs ++ rest)).head? ≠ some ']' := by
  have hfirst : ∀ {v before cs}, IsGap before → WrittenAs v cs → ∀ more,
      (skipGap (before ++ (cs ++ more))).head? ≠ some ']' := by
    intro v before cs hbefore hv more
    obtain ⟨c, tail, rfl, hgap, hc⟩ := hv.eq_cons
    rw [skipGap_append hbefore, List.cons_append, skipGap_cons hgap]
    simpa using hc
  cases h with
  | last hbefore hv hafter =>
    simp only [List.append_assoc]
    exact hfirst hbefore hv _
  | more hbefore hv hafter hvs =>
    simp only [List.append_assoc]
    exact hfirst hbefore hv _

/-- What an object with entries begins with, blanks apart, is a quote. -/
theorem skipGap_quoted {before : List Char} (hbefore : IsGap before) (k : String)
    (rest : List Char) : skipGap (before ++ (quoted k ++ rest)) = quoted k ++ rest := by
  rw [skipGap_append hbefore, quoted, List.cons_append, skipGap_cons (by decide)]

theorem EntriesWrittenAs.head?_ne {es : List (String × Value)} {cs : List Char}
    (h : EntriesWrittenAs es cs) (rest : List Char) :
    (skipGap (cs ++ rest)).head? ≠ some '\x7d' := by
  cases h with
  | last hbefore _ _ _ _ =>
    simp only [List.append_assoc, skipGap_quoted hbefore]
    simp [quoted]
  | more hbefore _ _ _ _ _ =>
    simp only [List.append_assoc, skipGap_quoted hbefore]
    simp [quoted]

theorem value_nat (fuel n : Nat) {rest : List Char} (hrest : EndsNumber rest) :
    value (fuel + 1) (Nat.toDigits 10 n ++ rest) = .ok (.nat n, rest) := by
  obtain ⟨d, ds, hcons, hd⟩ := toDigits_eq_cons n
  have hnumber := number_toDigits n hrest
  obtain ⟨_, _, hw, hgap, -⟩ := (WrittenAs.nat n).eq_cons
  obtain ⟨rfl, rfl⟩ := List.cons.inj (hcons.symm.trans hw)
  rw [hcons, List.cons_append] at hnumber ⊢
  rw [value, skipGap_cons hgap]
  -- a digit opens none of the other values
  split
  case h_8 c rest' _ _ _ _ _ _ heq =>
    obtain ⟨rfl, rfl⟩ := List.cons.inj heq
    rw [hd, Bool.or_true, if_pos rfl]
    simp only [hnumber, bind, Except.bind]
    rfl
  all_goals
    next heq =>
      cases heq
      try exact absurd hd (by decide)

theorem value_text {fuel : Nat} (s : String) (rest : List Char)
    (hfuel : (quoted s).length ≤ fuel + 1) :
    value (fuel + 1) (quoted s ++ rest) = .ok (.text s, rest) := by
  obtain ⟨body, hcons, hbody⟩ := stringBody_quoted fuel s rest hfuel
  rw [hcons, value, skipGap_cons (by decide)]
  simp only [hbody, bind, Except.bind]
  rfl

mutual

/-- **The reader takes a text that writes a value for the value**, and stops where it ends. -/
theorem value_of_writtenAs {v : Value} {cs : List Char} : WrittenAs v cs →
    ∀ (fuel : Nat) (rest : List Char), 2 * cs.length ≤ fuel → EndsNumber rest →
      value fuel (cs ++ rest) = .ok (v, rest)
  | h, 0, rest, hfuel, _ => by
    obtain ⟨c, tail, rfl, -⟩ := h.eq_cons
    simp at hfuel
  | .null, fuel + 1, rest, _, _ => by
    simp only [List.cons_append, List.nil_append, value,
      skipGap_cons (by decide : isGap 'n' = false)]
    rfl
  | .bool true, fuel + 1, rest, _, _ => by
    simp only [if_true, List.cons_append, List.nil_append, value,
      skipGap_cons (by decide : isGap 't' = false)]
    rfl
  | .bool false, fuel + 1, rest, _, _ => by
    simp only [Bool.false_eq_true, if_false, List.cons_append, List.nil_append, value,
      skipGap_cons (by decide : isGap 'f' = false)]
    rfl
  | .nat n, fuel + 1, rest, _, hrest => value_nat fuel n hrest
  | .text s, fuel + 1, rest, hfuel, _ => value_text s rest (by omega)
  | @WrittenAs.noItems gap hgap, fuel + 1, rest, _, _ => by
    have hskip : skipGap (gap ++ ']' :: rest) = ']' :: rest := by
      rw [skipGap_append hgap, skipGap_cons (by decide)]
    simp only [List.cons_append, List.append_assoc, List.nil_append, value,
      skipGap_cons (by decide : isGap '[' = false), hskip]
  | .items hitems, fuel + 1, rest, hfuel, _ => by
    simp only [List.length_cons, List.length_append, List.length_nil] at hfuel
    simp only [List.cons_append, List.append_assoc, List.nil_append]
    rw [value_bracket fuel (hitems.head?_ne _)]
    exact items_of_writtenAs hitems fuel [] rest (by omega)
  | @WrittenAs.noEntries gap hgap, fuel + 1, rest, _, _ => by
    have hskip : skipGap (gap ++ '\x7d' :: rest) = '\x7d' :: rest := by
      rw [skipGap_append hgap, skipGap_cons (by decide)]
    simp only [List.cons_append, List.append_assoc, List.nil_append, value,
      skipGap_cons (by decide : isGap '\x7b' = false), hskip]
  | .entries hentries, fuel + 1, rest, hfuel, _ => by
    simp only [List.length_cons, List.length_append, List.length_nil] at hfuel
    simp only [List.cons_append, List.append_assoc, List.nil_append]
    rw [value_brace fuel (hentries.head?_ne _)]
    exact entries_of_writtenAs hentries fuel [] rest (by omega)

/-- The items of an array are read up to the bracket that closes it. -/
theorem items_of_writtenAs {vs : List Value} {cs : List Char} : ItemsWrittenAs vs cs →
    ∀ (fuel : Nat) (found : List Value) (rest : List Char), 2 * cs.length < fuel →
      items fuel found (cs ++ ']' :: rest) = .ok (.array (found.reverse ++ vs), rest)
  | @ItemsWrittenAs.last v before cs after hbefore hv hafter, fuel + 1, found, rest, hfuel => by
    simp only [List.length_append] at hfuel
    have hvalue := value_of_writtenAs hv fuel (after ++ ']' :: rest) (by omega)
      (endsNumber_append hafter (endsNumber_cons rest (by decide)))
    rw [← value_append hbefore] at hvalue
    simp only [List.append_assoc]
    rw [items_last hvalue (by rw [skipGap_append hafter, skipGap_cons (by decide)]),
      List.reverse_cons]
  | @ItemsWrittenAs.more v vs before cs after others hbefore hv hafter hvs, fuel + 1, found,
      rest, hfuel => by
    simp only [List.length_append, List.length_cons] at hfuel
    have hvalue := value_of_writtenAs hv fuel (after ++ ',' :: (others ++ ']' :: rest)) (by omega)
      (endsNumber_append hafter (endsNumber_cons _ (by decide)))
    rw [← value_append hbefore] at hvalue
    simp only [List.append_assoc, List.cons_append]
    rw [items_more hvalue (by rw [skipGap_append hafter, skipGap_cons (by decide)]),
      items_of_writtenAs hvs fuel _ rest (by omega), List.reverse_cons, List.append_assoc]
    rfl

/-- The entries of an object are read up to the brace that closes it. -/
theorem entries_of_writtenAs {es : List (String × Value)} {cs : List Char} :
    EntriesWrittenAs es cs →
    ∀ (fuel : Nat) (found : List (String × Value)) (rest : List Char), 2 * cs.length < fuel →
      entries fuel found (cs ++ '\x7d' :: rest) = .ok (.object (found.reverse ++ es), rest)
  | @EntriesWrittenAs.last k v before left right cs after hbefore hleft hright hv hafter,
      fuel + 1, found, rest, hfuel => by
    simp only [List.length_append, List.length_cons] at hfuel
    have hvalue := value_of_writtenAs hv fuel (after ++ '\x7d' :: rest) (by omega)
      (endsNumber_append hafter (endsNumber_cons rest (by decide)))
    rw [← value_append hright] at hvalue
    obtain ⟨body, hcons, hbody⟩ := stringBody_quoted fuel k
      (left ++ ':' :: (right ++ (cs ++ (after ++ '\x7d' :: rest)))) (by omega)
    simp only [List.append_assoc, List.cons_append]
    rw [entries_last (by rw [skipGap_quoted hbefore, hcons]) hbody
      (by rw [skipGap_append hleft, skipGap_cons (by decide)]) hvalue
      (by rw [skipGap_append hafter, skipGap_cons (by decide)]), List.reverse_cons]
  | @EntriesWrittenAs.more k v es before left right cs after others hbefore hleft hright hv
      hafter hes, fuel + 1, found, rest, hfuel => by
    simp only [List.length_append, List.length_cons] at hfuel
    have hvalue := value_of_writtenAs hv fuel (after ++ ',' :: (others ++ '\x7d' :: rest))
      (by omega)
      (endsNumber_append hafter (endsNumber_cons _ (by decide)))
    rw [← value_append hright] at hvalue
    obtain ⟨body, hcons, hbody⟩ := stringBody_quoted fuel k
      (left ++ ':' :: (right ++ (cs ++ (after ++ ',' :: (others ++ '\x7d' :: rest))))) (by omega)
    simp only [List.append_assoc, List.cons_append]
    rw [entries_more (by rw [skipGap_quoted hbefore, hcons]) hbody
      (by rw [skipGap_append hleft, skipGap_cons (by decide)]) hvalue
      (by rw [skipGap_append hafter, skipGap_cons (by decide)]),
      entries_of_writtenAs hes fuel _ rest (by omega), List.reverse_cons, List.append_assoc]
    rfl

end

/-- **A text that writes a value is read as the value**, blanks around it apart. -/
theorem parse_of_writtenAs {v : Value} {s : String} {before cs after : List Char}
    (hs : s.toList = before ++ (cs ++ after)) (hbefore : IsGap before) (hv : WrittenAs v cs)
    (hafter : IsGap after) : parse s = .ok v := by
  have hends : EndsNumber after := by
    have hnil : EndsNumber [] := by rintro c ⟨⟩
    have h := endsNumber_append hafter hnil
    rwa [List.append_nil] at h
  have hlength : 2 * cs.length ≤ 2 * (before ++ (cs ++ after)).length + 2 := by
    simp only [List.length_append]
    omega
  have hskip : skipGap after = [] := by
    have h := skipGap_append hafter []
    rwa [List.append_nil] at h
  rw [parse, hs]
  simp only [bind, Except.bind, value_append hbefore, value_of_writtenAs hv _ _ hlength hends,
    hskip]
  rfl

end SpecOutline.Json
