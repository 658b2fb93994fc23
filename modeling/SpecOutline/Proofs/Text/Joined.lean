/-
# Texts with separators between them

Names are put together with dots, labels with slashes, and the fields of a line with tabs.  Here
is what such a text holds, and what is left of it when it is cut again.
-/
import SpecOutline.Text.Split

namespace SpecOutline.Text

/-- **A joined text holds what its parts hold**, the separator apart. -/
theorem mem_intercalate_iff {sep : String} {c : Char} (hc : c ∉ sep.toList) (texts : List String) :
    c ∈ (sep.intercalate texts).toList ↔ ∃ text ∈ texts, c ∈ text.toList := by
  induction texts with
  | nil => simp
  | cons text texts ih =>
    cases texts with
    | nil => simp
    | cons next texts =>
      rw [String.intercalate_cons_cons]
      simp only [String.toList_append, List.mem_append, ih, hc, or_false, List.mem_cons,
        exists_eq_or_imp]

/-- Cutting texts with separators between them is to cut each of them. -/
theorem splitOn_intercalate_eq_flatMap {sep : Char} {texts : List (List Char)}
    (hne : texts ≠ []) :
    ([sep].intercalate texts).splitOn sep = texts.flatMap (List.splitOn sep) := by
  induction texts with
  | nil => exact absurd rfl hne
  | cons text texts ih =>
    cases texts with
    | nil => simp
    | cons next texts =>
      rw [List.intercalate_cons_cons, List.append_assoc, List.singleton_append,
        List.splitOn_append_cons_self, ih (by simp), ← List.flatMap_cons]

/-- Cutting texts that a separator closes is to cut each of them; nothing is left at the end. -/
theorem splitOn_flatMap_closed (sep : Char) (texts : List (List Char)) :
    (texts.flatMap (· ++ [sep])).splitOn sep = texts.flatMap (List.splitOn sep) ++ [[]] := by
  induction texts with
  | nil => rfl
  | cons text texts ih =>
    rw [List.flatMap_cons, List.append_assoc, List.singleton_append,
      List.splitOn_append_cons_self, ih, List.flatMap_cons, List.append_assoc]

/-- Every separator cuts a text once. -/
theorem length_splitOn {α : Type} [BEq α] [LawfulBEq α] (sep : α) (text : List α) :
    (text.splitOn sep).length = text.count sep + 1 := by
  induction text with
  | nil => rfl
  | cons c cs ih =>
    rw [List.splitOn_cons_eq_if_modifyHead, List.count_cons]
    split <;> simp [*]

/-- Texts that are cut fall into as many parts as there are texts and separators in them. -/
theorem length_flatMap_splitOn (sep : Char) (texts : List (List Char)) :
    (texts.flatMap (List.splitOn sep)).length = texts.length + texts.flatten.count sep := by
  induction texts with
  | nil => rfl
  | cons text texts ih =>
    simp only [List.flatMap_cons, List.flatten_cons, List.length_append, List.length_cons,
      List.count_append, length_splitOn, ih]
    omega

/-- A text is cut at its first separator. -/
theorem cutFirst?_append {sep : Char} {cs : List Char} (h : ∀ c ∈ cs, c ≠ sep)
    (rest : List Char) : cutFirst? sep (cs ++ sep :: rest) = some (cs, rest) := by
  have hall : ∀ c ∈ cs, (c != sep) = true := fun c hc => bne_iff_ne.mpr (h c hc)
  have hsep : (sep != sep) = false := bne_self_eq_false sep
  simp only [cutFirst?, List.dropWhile_append_of_pos hall, List.takeWhile_append_of_pos hall,
    List.dropWhile_cons, List.takeWhile_cons, hsep, Bool.false_eq_true, if_false, List.append_nil]

end SpecOutline.Text
