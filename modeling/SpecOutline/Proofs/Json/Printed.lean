/-
# What is printed is read back

Both layouts of the printer write the value that they are given, in the sense of `WrittenAs`
(`writtenAs_compact`, `writtenAs_prettyAt`), if it holds no number but naturals and no half of a
surrogate pair (`Value.IsPlain`).  The two layouts differ only in the blanks that stand before
each part, so both are cases of one statement about parts with commas between them
(`writtenAs_array`, `writtenAs_object`).  Hence a printed value is read back as it was
(`parse_compact`, `parse_pretty`).
-/
import Mathlib.Data.List.Forall2
import SpecOutline.Proofs.Json.Written

namespace SpecOutline.Json

/-! ## 1. Plain values -/

mutual

/-- A value without numbers other than naturals and without halves of surrogate pairs. -/
def Value.IsPlain : Value → Prop
  | .number (.decimal _ _ _ _) => False
  | .unpaired => False
  | .array items => ItemsPlain items
  | .object entries => EntriesPlain entries
  | _ => True

/-- All items are plain. -/
def ItemsPlain : List Value → Prop
  | [] => True
  | v :: vs => v.IsPlain ∧ ItemsPlain vs

/-- The values of all entries are plain. -/
def EntriesPlain : List (String × Value) → Prop
  | [] => True
  | (_, v) :: es => v.IsPlain ∧ EntriesPlain es

end

theorem itemsPlain_iff {vs : List Value} : ItemsPlain vs ↔ ∀ v ∈ vs, v.IsPlain := by
  induction vs with
  | nil => simp [ItemsPlain]
  | cons v vs ih => simp [ItemsPlain, ih]

theorem entriesPlain_iff {es : List (String × Value)} :
    EntriesPlain es ↔ ∀ e ∈ es, e.2.IsPlain := by
  induction es with
  | nil => simp [EntriesPlain]
  | cons e es ih =>
    obtain ⟨k, v⟩ := e
    simp [EntriesPlain, ih]

/-! ## 2. Parts with commas between them -/

theorem toList_quote (s : String) : (quote s).toList = quoted s := by
  simp [quote, quoted]

section Rows

variable {gap after : List Char} (hgap : IsGap gap) (hafter : IsGap after)
include hgap hafter

/-- Items written one after the other, each behind the same blanks. -/
theorem itemsWrittenAs_intercalate {v : Value} {vs : List Value} {text : List Char}
    {texts : List (List Char)} (hv : WrittenAs v text) (hvs : List.Forall₂ WrittenAs vs texts) :
    ItemsWrittenAs (v :: vs) (gap ++ ([',' ] ++ gap).intercalate (text :: texts) ++ after) := by
  induction hvs generalizing v text with
  | nil =>
    rw [List.intercalate_singleton, List.append_assoc]
    exact .last hgap hv hafter
  | cons hw _ ih =>
    have h := ItemsWrittenAs.more hgap hv isGap_nil (ih hw)
    rw [List.intercalate_cons_cons]
    simpa using h

/-- A text writes an entry, with blanks before its value. -/
def EntryWrittenAs (right : List Char) (e : String × Value) (text : List Char) : Prop :=
  ∃ cs, WrittenAs e.2 cs ∧ text = quoted e.1 ++ ':' :: (right ++ cs)

/-- Entries written one after the other, each behind the same blanks. -/
theorem entriesWrittenAs_intercalate {right : List Char} (hright : IsGap right)
    {e : String × Value} {es : List (String × Value)} {text : List Char}
    {texts : List (List Char)} (he : EntryWrittenAs right e text)
    (hes : List.Forall₂ (EntryWrittenAs right) es texts) :
    EntriesWrittenAs (e :: es) (gap ++ ([','] ++ gap).intercalate (text :: texts) ++ after) := by
  induction hes generalizing e text with
  | nil =>
    obtain ⟨cs, hv, rfl⟩ := he
    rw [List.intercalate_singleton]
    simpa using EntriesWrittenAs.last hgap isGap_nil hright hv hafter
  | cons hw _ ih =>
    obtain ⟨cs, hv, rfl⟩ := he
    have h := EntriesWrittenAs.more (k := e.1) hgap isGap_nil hright hv isGap_nil (ih hw)
    rw [List.intercalate_cons_cons]
    simpa using h

/-- An array with items, in brackets, its items behind the same blanks. -/
theorem writtenAs_array {vs : List Value} {texts : List (List Char)}
    (hvs : List.Forall₂ WrittenAs vs texts) (hne : vs ≠ []) :
    WrittenAs (.array vs) ('[' :: (gap ++ ([','] ++ gap).intercalate texts ++ after ++ [']'])) := by
  cases hvs with
  | nil => exact absurd rfl hne
  | cons hv hvs => exact .items (itemsWrittenAs_intercalate hgap hafter hv hvs)

/-- An object with entries, in braces, its entries behind the same blanks. -/
theorem writtenAs_object {right : List Char} (hright : IsGap right)
    {es : List (String × Value)} {texts : List (List Char)}
    (hes : List.Forall₂ (EntryWrittenAs right) es texts) (hne : es ≠ []) :
    WrittenAs (.object es)
      ('\x7b' :: (gap ++ ([','] ++ gap).intercalate texts ++ after ++ ['\x7d'])) := by
  cases hes with
  | nil => exact absurd rfl hne
  | cons he hes => exact .entries (entriesWrittenAs_intercalate hgap hafter hright he hes)

end Rows

/-! ## 3. One line -/

mutual

/-- **The layout on one line writes the value.** -/
theorem writtenAs_compact : ∀ v : Value, v.IsPlain → WrittenAs v v.compact.toList
  | .null, _ => by rw [Value.compact]; exact .null
  | .bool true, _ => by rw [Value.compact]; exact .bool true
  | .bool false, _ => by rw [Value.compact]; exact .bool false
  | .number (.natural n), _ => by
    rw [Value.compact, Number.render, Nat.toString_eq_ofList_toDigits, String.toList_ofList]
    exact .nat n
  | .number (.decimal ..), h => by simp [Value.IsPlain] at h
  | .text s, _ => by rw [Value.compact, toList_quote]; exact .text s
  | .unpaired, h => by simp [Value.IsPlain] at h
  | .array [], _ => by
    simp only [Value.compact, compactItems]
    exact .noItems isGap_nil
  | .array (v :: vs), h => by
    rw [Value.IsPlain] at h
    have hitems := writtenAs_compactItems (v :: vs) h
    have hw := writtenAs_array isGap_nil isGap_nil hitems (by simp)
    simpa [Value.compact, String.toList_intercalate] using hw
  | .object [], _ => by
    simp only [Value.compact, compactEntries]
    exact .noEntries isGap_nil
  | .object (e :: es), h => by
    rw [Value.IsPlain] at h
    have hentries := writtenAs_compactEntries (e :: es) h
    have hw := writtenAs_object isGap_nil isGap_nil isGap_nil hentries (by simp)
    simpa [Value.compact, String.toList_intercalate] using hw

theorem writtenAs_compactItems : ∀ vs : List Value, ItemsPlain vs →
    List.Forall₂ WrittenAs vs ((compactItems vs).map String.toList)
  | [], _ => .nil
  | v :: vs, h => by
    rw [ItemsPlain] at h
    exact .cons (writtenAs_compact v h.1) (writtenAs_compactItems vs h.2)

theorem writtenAs_compactEntries : ∀ es : List (String × Value), EntriesPlain es →
    List.Forall₂ (EntryWrittenAs []) es ((compactEntries es).map String.toList)
  | [], _ => .nil
  | (k, v) :: es, h => by
    rw [EntriesPlain] at h
    refine .cons ⟨_, writtenAs_compact v h.1, ?_⟩ (writtenAs_compactEntries es h.2)
    simp [toList_quote]

end

/-! ## 4. Many lines -/

/-- The blanks at the start of a line. -/
theorem isGap_indent (level : Nat) : IsGap ('\n' :: (indent level).toList) := by
  intro c hc
  rcases List.mem_cons.mp hc with rfl | hc
  · decide
  · rw [indent, String.toList_ofList] at hc
    rw [List.eq_of_mem_replicate hc]
    decide

/-- Blanks that stand before every text can as well stand after every comma. -/
theorem intercalate_indented (blanks : List Char) {texts : List (List Char)} (hne : texts ≠ []) :
    [',', '\n'].intercalate (texts.map (blanks ++ ·)) =
      blanks ++ ([','] ++ '\n' :: blanks).intercalate texts := by
  induction texts with
  | nil => exact absurd rfl hne
  | cons text texts ih =>
    cases texts with
    | nil => simp
    | cons other texts =>
      have h := ih (by simp)
      rw [List.map_cons, List.map_cons, List.intercalate_cons_cons, ← List.map_cons, h,
        List.intercalate_cons_cons]
      simp

/-- Parts on lines of their own stand behind the same blanks. -/
theorem toList_bracketed (level : Nat) (opening closing : String) {parts : List String}
    (hne : parts ≠ []) :
    (bracketed level opening closing parts).toList = opening.toList ++
      ('\n' :: (indent (level + 1)).toList ++
        ([','] ++ '\n' :: (indent (level + 1)).toList).intercalate (parts.map String.toList) ++
        '\n' :: (indent level).toList ++ closing.toList) := by
  have h := intercalate_indented (indent (level + 1)).toList
    (by simpa using hne : parts.map String.toList ≠ [])
  cases parts with
  | nil => exact absurd rfl hne
  | cons part parts =>
    rw [List.map_map] at h
    simp only [bracketed, String.toList_append, String.toList_intercalate, List.map_map]
    have hmap : String.toList ∘ (fun x => indent (level + 1) ++ x) =
        (fun x => (indent (level + 1)).toList ++ x) ∘ String.toList := by
      funext x
      simp
    rw [hmap]
    have hsep : (",\n" : String).toList = [',', '\n'] := rfl
    rw [hsep, h]
    simp

mutual

/-- **The layout on lines writes the value.** -/
theorem writtenAs_prettyAt : ∀ (v : Value) (level : Nat), v.IsPlain →
    WrittenAs v (v.prettyAt level).toList
  | .array [], level, _ => by
    rw [Value.prettyAt, prettyItems, bracketed]
    exact .noItems isGap_nil
  | .array (v :: vs), level, h => by
    rw [Value.IsPlain] at h
    have hitems := writtenAs_prettyItems (v :: vs) (level + 1) h
    rw [Value.prettyAt, toList_bracketed _ _ _ (by simp [prettyItems])]
    exact writtenAs_array (isGap_indent (level + 1)) (isGap_indent level) hitems (by simp)
  | .object [], level, _ => by
    rw [Value.prettyAt, prettyEntries, bracketed]
    exact .noEntries isGap_nil
  | .object (e :: es), level, h => by
    rw [Value.IsPlain] at h
    have hentries := writtenAs_prettyEntries (e :: es) (level + 1) h
    rw [Value.prettyAt, toList_bracketed _ _ _ (by obtain ⟨k, v⟩ := e; simp [prettyEntries])]
    exact writtenAs_object (isGap_indent (level + 1)) (isGap_indent level)
      (by simp [IsGap, isGap]) hentries (by simp)
  | .null, level, h => writtenAs_compact .null h
  | .bool b, level, h => writtenAs_compact (.bool b) h
  | .number n, level, h => writtenAs_compact (.number n) h
  | .text s, level, h => writtenAs_compact (.text s) h
  | .unpaired, level, h => writtenAs_compact .unpaired h

theorem writtenAs_prettyItems : ∀ (vs : List Value) (level : Nat), ItemsPlain vs →
    List.Forall₂ WrittenAs vs ((prettyItems level vs).map String.toList)
  | [], level, _ => .nil
  | v :: vs, level, h => by
    rw [ItemsPlain] at h
    exact .cons (writtenAs_prettyAt v level h.1) (writtenAs_prettyItems vs level h.2)

theorem writtenAs_prettyEntries : ∀ (es : List (String × Value)) (level : Nat),
    EntriesPlain es →
    List.Forall₂ (EntryWrittenAs [' ']) es ((prettyEntries level es).map String.toList)
  | [], level, _ => .nil
  | (k, v) :: es, level, h => by
    rw [EntriesPlain] at h
    refine .cons ⟨_, writtenAs_prettyAt v level h.1, ?_⟩ (writtenAs_prettyEntries es level h.2)
    simp [toList_quote]

end

/-! ## 5. Reading back -/

/-- **A value printed on one line is read back.** -/
theorem parse_compact {v : Value} (hv : v.IsPlain) : parse v.compact = .ok v :=
  parse_of_writtenAs (by simp) isGap_nil (writtenAs_compact v hv) isGap_nil

/-- **A value printed on lines is read back**, also with an end of line behind it. -/
theorem parse_pretty {v : Value} (hv : v.IsPlain) :
    parse v.pretty = .ok v ∧ parse (v.pretty ++ "\n") = .ok v := by
  have hw : WrittenAs v v.pretty.toList := writtenAs_prettyAt v 0 hv
  have hfeed : IsGap ['\n'] := by simp [IsGap, isGap]
  exact ⟨parse_of_writtenAs (by simp) isGap_nil hw isGap_nil,
    parse_of_writtenAs (by simp) isGap_nil hw hfeed⟩

end SpecOutline.Json
