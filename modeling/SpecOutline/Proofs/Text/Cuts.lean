/-
# Trimming and cutting

What trimming leaves of a text whose ends are known, and where a text is cut: after the last
separator, and at the first place where a word occurs.
-/
import Mathlib.Data.List.Basic
import Mathlib.Data.List.TakeWhile
import SpecOutline.Text.Blank
import SpecOutline.Text.Split

namespace SpecOutline.Text

variable {p : Char → Bool} {xs ys : List Char} {c sep : Char}

/-! ## 1. Trimming -/

/-- Nothing is dropped past a character that stays. -/
theorem dropEndWhile_append_of_last (hlast : xs.getLast? = some c) (hc : p c = false)
    (ys : List Char) : dropEndWhile p (xs ++ ys) = xs ++ dropEndWhile p ys := by
  obtain ⟨front, rfl⟩ := List.getLast?_eq_some_iff.mp hlast
  rw [dropEndWhile, dropEndWhile, List.reverse_append, List.dropWhile_append]
  split
  · next hnil =>
    rw [List.isEmpty_iff.mp hnil, List.reverse_concat, List.dropWhile_cons_of_neg (by simp [hc])]
    simp
  · rw [List.reverse_append, List.reverse_reverse]

theorem dropEndWhile_of_last (hlast : xs.getLast? = some c) (hc : p c = false) :
    dropEndWhile p xs = xs := by
  have hstays := dropEndWhile_append_of_last hlast hc []
  rw [List.append_nil] at hstays
  exact hstays.trans (List.append_nil xs)

theorem dropEndWhile_eq_nil (h : ∀ c ∈ xs, p c = true) : dropEndWhile p xs = [] := by
  rw [dropEndWhile, List.dropWhile_eq_nil_iff.mpr fun c hc => h c (List.mem_reverse.mp hc)]
  rfl

theorem dropEndWhile_eq_self (h : ∀ c ∈ xs, p c = false) : dropEndWhile p xs = xs := by
  rcases List.eq_nil_or_concat' xs with rfl | ⟨front, last, rfl⟩
  · rfl
  · exact dropEndWhile_of_last List.getLast?_concat (h last (by simp))

/-- What is dropped is a run of the characters to drop. -/
theorem exists_eq_dropEndWhile_append (p : Char → Bool) (xs : List Char) :
    ∃ run, xs = dropEndWhile p xs ++ run ∧ ∀ c ∈ run, p c = true := by
  refine ⟨(xs.reverse.takeWhile p).reverse, ?_, fun c hc => ?_⟩
  · rw [dropEndWhile, ← List.reverse_append, List.takeWhile_append_dropWhile, List.reverse_reverse]
  · exact List.all_eq_true.mp List.all_takeWhile c (List.mem_reverse.mp hc)

/-- A run of characters to drop at the end goes. -/
theorem dropEndWhile_append_run (xs : List Char) (h : ∀ c ∈ ys, p c = true) :
    dropEndWhile p (xs ++ ys) = dropEndWhile p xs := by
  have hdropped : ys.reverse.dropWhile p = [] :=
    List.dropWhile_eq_nil_iff.mpr fun c hc => h c (List.mem_reverse.mp hc)
  rw [dropEndWhile, List.reverse_append, List.dropWhile_append, hdropped]
  rfl

theorem dropEndWhile_dropEndWhile (p : Char → Bool) (xs : List Char) :
    dropEndWhile p (dropEndWhile p xs) = dropEndWhile p xs := by
  obtain ⟨run, hxs, hrun⟩ := exists_eq_dropEndWhile_append p xs
  have hagain := dropEndWhile_append_run (dropEndWhile p xs) hrun
  rw [← hxs] at hagain
  exact hagain.symm

theorem mem_of_mem_dropEndWhile (h : c ∈ dropEndWhile p xs) : c ∈ xs := by
  obtain ⟨run, hxs, -⟩ := exists_eq_dropEndWhile_append p xs
  rw [hxs]
  exact List.mem_append_left run h

/-- Blanks before a text go. -/
theorem trimStart_append (hgap : ∀ c ∈ xs, isBlank c = true) (hhead : ys.head? = some c)
    (hc : isBlank c = false) : trimStart (xs ++ ys) = ys := by
  obtain ⟨rest, rfl⟩ := List.head?_eq_some_iff.mp hhead
  rw [trimStart, List.dropWhile_append_of_pos hgap, List.dropWhile_cons_of_neg (by simp [hc])]

/-- A text without blanks is not trimmed. -/
theorem trim_eq_self (h : ∀ c ∈ xs, isBlank c = false) : trim xs = xs := by
  have hstart : trimStart xs = xs := by
    cases xs with
    | nil => rfl
    | cons c cs => exact List.dropWhile_cons_of_neg (by simp [h c List.mem_cons_self])
  rw [trim, hstart, trimEnd, dropEndWhile_eq_self h]

theorem squeeze_eq_self (h : ∀ c ∈ xs, isBlank c = false) : squeeze xs = xs :=
  List.filter_eq_self.mpr fun c hc => by rw [h c hc]; rfl

theorem squeeze_eq_nil_iff : squeeze xs = [] ↔ ∀ c ∈ xs, isBlank c = true := by
  simp [squeeze, List.filter_eq_nil_iff]

/-! ## 2. After the last separator -/

/-- Nothing after the last separator is cut off. -/
theorem afterLast_append (xs : List Char) (h : sep ∉ ys) :
    afterLast sep (xs ++ sep :: ys) = ys := by
  have hkept : ∀ c ∈ ys.reverse, (c != sep) = true := by
    intro c hc
    exact bne_iff_ne.mpr fun heq => h (heq ▸ List.mem_reverse.mp hc)
  rw [afterLast, List.reverse_append, List.reverse_cons, List.append_assoc,
    List.takeWhile_append_of_pos hkept]
  simp

theorem afterLast_eq_self (h : sep ∉ xs) : afterLast sep xs = xs := by
  have hkept : ∀ c ∈ xs.reverse, (c != sep) = true := by
    intro c hc
    exact bne_iff_ne.mpr fun heq => h (heq ▸ List.mem_reverse.mp hc)
  rw [afterLast, List.takeWhile_eq_self_iff.mpr hkept, List.reverse_reverse]

/-- After the last of some closed parts. -/
theorem afterLast_closed (parts : List (List Char)) (h : sep ∉ ys) :
    afterLast sep (parts.flatMap (· ++ [sep]) ++ ys) = ys := by
  rcases List.eq_nil_or_concat' parts with rfl | ⟨front, last, rfl⟩
  · exact afterLast_eq_self h
  · rw [List.flatMap_append, List.flatMap_singleton, ← List.append_assoc, List.append_assoc _ [sep],
      List.singleton_append]
    exact afterLast_append _ h

/-! ## 3. Words -/

/-- A word that does not hold a separator occurs on one side of it. -/
theorem infix_append_cons_iff {word : List Char} (h : sep ∉ word) :
    word <:+: xs ++ sep :: ys ↔ word <:+: xs ∨ word <:+: ys := by
  constructor
  · intro hin
    rcases List.infix_append_iff.mp hin with hxs | hcons | ⟨front, back, rfl, hfront, hback⟩
    · exact .inl hxs
    · rcases List.infix_cons_iff.mp hcons with hprefix | hys
      · cases word with
        | nil => exact .inl (List.nil_infix)
        | cons w ws =>
          obtain ⟨rfl, -⟩ := List.cons_prefix_cons.mp hprefix
          exact absurd List.mem_cons_self h
      · exact .inr hys
    · cases back with
      | nil => exact .inl (by simpa using hfront.isInfix)
      | cons w ws =>
        obtain ⟨rfl, -⟩ := List.cons_prefix_cons.mp hback
        exact absurd (List.mem_append_right front List.mem_cons_self) h
  · rintro (hxs | hys)
    · exact hxs.trans (List.prefix_append xs (sep :: ys)).isInfix
    · exact hys.trans ((List.suffix_cons sep ys).trans (List.suffix_append xs (sep :: ys))).isInfix

/-- A word that ends in a character occurs before all that does not hold it. -/
theorem infix_of_infix_append {word : List Char} (hc : c ∉ ys)
    (h : word ++ [c] <:+: xs ++ ys) : word ++ [c] <:+: xs := by
  rcases List.infix_append_iff.mp h with hxs | hys | ⟨front, back, heq, hfront, hback⟩
  · exact hxs
  · exact absurd (hys.subset (by simp)) hc
  · rcases List.eq_nil_or_concat' back with rfl | ⟨init, last, rfl⟩
    · rw [heq, List.append_nil]
      exact hfront.isInfix
    · rw [← List.append_assoc] at heq
      obtain ⟨-, hlast⟩ := List.append_inj' heq rfl
      obtain rfl : c = last := List.singleton_inj.mp hlast
      exact absurd (hback.subset (by simp)) hc

theorem isPrefix_iff_afterStart? {word : List Char} :
    word <+: xs ↔ ∃ rest, afterStart? word xs = some rest := by
  simp only [afterStart?_eq_some_iff]
  exact ⟨fun ⟨rest, h⟩ => ⟨rest, h.symm⟩, fun ⟨rest, h⟩ => ⟨rest, h.symm⟩⟩

/-- **A text is cut at a word exactly if the word occurs in it.** -/
theorem cutWord?_eq_none_iff {word : List Char} :
    cutWord? word xs = none ↔ ¬ word <:+: xs := by
  induction xs with
  | nil => by_cases hw : word = [] <;> simp [cutWord?, hw]
  | cons c cs ih =>
    rw [cutWord?, List.infix_cons_iff, isPrefix_iff_afterStart?]
    cases hstart : afterStart? word (c :: cs) with
    | some rest => simp
    | none => simp [ih]

/-- **A text is cut at the first place where a word occurs.** -/
theorem cutWord?_append {word : List Char} {w : Char} (h : ¬ word ++ [w] <:+: xs ++ word)
    (ys : List Char) : cutWord? (word ++ [w]) (xs ++ (word ++ [w]) ++ ys) = some (xs, ys) := by
  induction xs with
  | nil =>
    obtain ⟨c, cs, hcs⟩ := List.exists_cons_of_ne_nil (show word ++ [w] ++ ys ≠ [] by simp)
    rw [List.nil_append, hcs, cutWord?, ← hcs, afterStart?_eq_some_iff.mpr rfl]
  | cons x xs ih =>
    rw [List.cons_append, List.infix_cons_iff, not_or] at h
    have hstart : afterStart? (word ++ [w]) (x :: (xs ++ (word ++ [w]) ++ ys)) = none := by
      rw [Option.eq_none_iff_forall_ne_some]
      intro rest hrest
      refine h.1 (List.prefix_of_prefix_length_le ⟨rest, (afterStart?_eq_some_iff.mp hrest).symm⟩
        ⟨w :: ys, by simp⟩ (by simp))
    rw [List.cons_append, List.cons_append, cutWord?, hstart, ih h.2]
    rfl

/-- No word begins before the place where a text is cut. -/
theorem le_of_cutWord? {word before after front back : List Char}
    (h : cutWord? word xs = some (before, after)) (hxs : xs = front ++ word ++ back) :
    before.length ≤ front.length := by
  induction xs generalizing before front with
  | nil =>
    have hnil : before ++ word ++ after = [] := (eq_of_cutWord? h).symm
    simp_all
  | cons c cs ih =>
    rw [cutWord?] at h
    split at h
    · obtain ⟨rfl, -⟩ : [] = before ∧ _ := by simpa using h
      exact Nat.zero_le _
    · next hstart =>
      obtain ⟨⟨b, a⟩, hcut, heq⟩ := Option.map_eq_some_iff.mp h
      obtain ⟨rfl, rfl⟩ : c :: b = before ∧ a = after := by simpa using heq
      cases front with
      | nil =>
        rw [hxs, List.nil_append, afterStart?_eq_some_iff.mpr rfl] at hstart
        cases hstart
      | cons f fs =>
        obtain ⟨-, hcs⟩ : c = f ∧ cs = fs ++ word ++ back := by simpa using hxs
        exact Nat.succ_le_succ (ih hcut hcs)

/-- So no word lies in what ends before the first one does. -/
theorem not_infix_of_cutWord? {word before after : List Char}
    (h : cutWord? word (xs ++ ys) = some (before, after))
    (hlt : xs.length < before.length + word.length) : ¬ word <:+: xs := by
  rintro ⟨front, back, hxs⟩
  have hle := le_of_cutWord? h (show xs ++ ys = front ++ word ++ (back ++ ys) by
    rw [← hxs, List.append_assoc (front ++ word)])
  have hlength := congrArg List.length hxs
  rw [List.length_append, List.length_append] at hlength
  omega

end SpecOutline.Text
