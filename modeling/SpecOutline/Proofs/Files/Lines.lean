/-
# The lines of a source file

A source file is octets, its text is characters, and a report names a line.  Reading a file changes
both the octets and their number: faulty runs are replaced, and a carriage return goes where a line
feed follows.  Lines are not touched by either.

* The octet of a line feed always stands for itself: no character takes it in, and neither does a
  faulty run (`Text.decode_append_lineFeed`).  No other octets stand for a line feed
  (`Text.lineFeed_notMem_decode`).  So the lines of the decoded text are the lines of the file,
  decoded one by one (`Text.splitOn_decodeLoose`).
* Unifying line ends takes one carriage return off every line that a line feed ends, and leaves the
  last line alone (`Content.splitOn_unifyLines`).
* So the text of a file has the lines of the file, and the line of a place in it is found by the
  line feeds in front of that place (`Content.lines_of_text?`).
-/
import Mathlib.Tactic.SplitIfs
import SpecOutline.Files.Content
import SpecOutline.Proofs.Text.Joined
import SpecOutline.Source.Span

namespace SpecOutline

namespace Text

/-! ## 1. Going through a text line by line -/

/-- What holds of a single line, and of a closed line and the rest if it holds of the rest, holds
of every text. -/
theorem line_induction {α : Type} (sep : α) {motive : List α → Prop}
    (last : ∀ line, sep ∉ line → motive line)
    (more : ∀ line rest, sep ∉ line → motive rest → motive (line ++ sep :: rest))
    (text : List α) : motive text := by
  induction hn : text.length using Nat.strongRecOn generalizing text with
  | ind n ih =>
    by_cases hmem : sep ∈ text
    · obtain ⟨line, rest, rfl, hline⟩ := List.eq_append_cons_of_mem hmem
      refine more line rest hline (ih rest.length ?_ rest rfl)
      rw [← hn, List.length_append, List.length_cons]
      omega
    · exact last text hmem

/-! ## 2. What a first octet announces -/

/-- The octet of a line feed. -/
def lineFeed : UInt8 := 0x0A

/-- The octets that continue a character start at `0x80`.  And the value that a first octet starts
with is large enough: two or more with one octet to follow, or, with the least next octet, with two
octets to follow. -/
theorem lead?_cases {b : UInt8} {l : Lead} (h : lead? b = some l) :
    0x80 ≤ l.low ∧
      (l.follow = 0 ∧ l.value = b.toNat ∨ 1 ≤ l.follow ∧ 2 ≤ l.value ∨
        2 ≤ l.follow ∧ 2 ≤ l.value * 64 + (l.low.toNat - 0x80)) := by
  revert h
  -- one case for each range of first octets
  fun_cases lead? b <;> rintro ⟨⟩ <;>
    simp [UInt8.lt_iff_toNat_lt, ← UInt8.toNat_inj] at * <;> omega

theorem low_le_of_continuation {n : Nat} {low high b : UInt8} {bs tail : List UInt8}
    (h : continuation n low high bs = b :: tail) : low ≤ b := by
  unfold continuation at h
  split at h
  · cases h
  · cases h
  · split_ifs at h with hin
    obtain ⟨rfl, -⟩ := List.cons.inj h
    exact of_decide_eq_true (Bool.and_eq_true_iff.mp hin).1

theorem length_continuation_le (n : Nat) (low high : UInt8) (bs : List UInt8) :
    (continuation n low high bs).length ≤ bs.length := by
  fun_induction continuation n low high bs with
  | case1 => exact Nat.zero_le _
  | case2 => exact Nat.le_refl _
  | case3 n low high b bs hin ih => exact Nat.succ_le_succ ih
  | case4 => exact Nat.zero_le _

theorem codePoint_cons (value : Nat) (b : UInt8) (tail : List UInt8) :
    codePoint value (b :: tail) = codePoint (value * 64 + (b.toNat - 0x80)) tail := by
  rw [codePoint, List.foldl_cons, codePoint]

theorem le_codePoint (value : Nat) (tail : List UInt8) : value ≤ codePoint value tail := by
  induction tail generalizing value with
  | nil => exact Nat.le_refl value
  | cons b tail ih =>
    have hle := ih (value * 64 + (b.toNat - 0x80))
    rw [codePoint_cons]
    omega

/-- A character of several octets is none of those that a single octet writes. -/
theorem le_codePoint_continuation {b : UInt8} {l : Lead} {bs : List UInt8}
    (hl : lead? b = some l) (hfollow : l.follow ≠ 0)
    (hfull : (continuation l.follow l.low l.high bs).length = l.follow) :
    0x80 ≤ codePoint l.value (continuation l.follow l.low l.high bs) := by
  generalize hc : continuation l.follow l.low l.high bs = tail at hfull ⊢
  obtain ⟨-, ⟨hzero, -⟩ | ⟨-, hvalue⟩ | ⟨htwo, hvalue⟩⟩ := lead?_cases hl
  · exact absurd hzero hfollow
  · match tail, hfull with
    | [], hfull => exact absurd hfull.symm hfollow
    | c :: tail, _ =>
      have hle := le_codePoint (l.value * 64 + (c.toNat - 0x80)) tail
      rw [codePoint_cons]
      omega
  · match tail, hfull with
    | [], hfull => exact absurd hfull.symm hfollow
    | [_], hfull => exact absurd htwo (by simp [← hfull])
    | c :: d :: tail, _ =>
      have hlow := UInt8.le_iff_toNat_le.mp (low_le_of_continuation hc)
      have hle :=
        le_codePoint ((l.value * 64 + (c.toNat - 0x80)) * 64 + (d.toNat - 0x80)) tail
      rw [codePoint_cons, codePoint_cons]
      omega

theorem ofNat_ne_newline {n : Nat} (h : n ≠ 10) : Char.ofNat n ≠ '\n' := by
  have hvalue : (Char.ofNat n).toNat = n ∨ (Char.ofNat n).toNat = 0 := by
    unfold Char.ofNat
    by_cases hn : n.isValidChar
    · rw [dif_pos hn]
      exact .inl rfl
    · rw [dif_neg hn]
      exact .inr rfl
  have hfeed : '\n'.toNat = 10 := rfl
  intro heq
  rw [heq] at hvalue
  omega

/-! ## 3. Line feeds among octets -/

/-- A line feed continues no character. -/
theorem continuation_append_lineFeed {n : Nat} {low high : UInt8} (hlow : 0x80 ≤ low)
    (bs rest : List UInt8) :
    continuation n low high (bs ++ lineFeed :: rest) = continuation n low high bs := by
  induction bs generalizing n low high with
  | nil =>
    cases n with
    | zero => rfl
    | succ n =>
      have hout : ¬ low ≤ lineFeed := fun h => absurd (UInt8.le_trans hlow h) (by decide)
      simp [continuation, hout]
  | cons b bs ih =>
    cases n with
    | zero => rfl
    | succ n =>
      have hnext : (0x80 : UInt8) ≤ 0x80 := by decide
      simp only [List.cons_append, continuation, ih hnext]

/-- What is decoded before a line feed does not see it. -/
theorem decodeOne_append_lineFeed (b : UInt8) (bs rest : List UInt8) :
    decodeOne b (bs ++ lineFeed :: rest) =
      ((decodeOne b bs).1, (decodeOne b bs).2 ++ lineFeed :: rest) := by
  rw [decodeOne, decodeOne]
  cases hl : lead? b with
  | none => rfl
  | some l =>
    simp only [continuation_append_lineFeed (lead?_cases hl).1]
    rw [List.drop_append_of_le_length (length_continuation_le ..)]

theorem decodeOne_lineFeed (rest : List UInt8) : decodeOne lineFeed rest = (some '\n', rest) := by
  cases rest <;> rfl

/-- **A line feed stands for itself**, whatever octets are around it: those before it and those
after it are decoded on their own. -/
theorem decode_append_lineFeed (bs rest : List UInt8) :
    decode (bs ++ lineFeed :: rest) = decode bs ++ some '\n' :: decode rest := by
  induction hn : bs.length using Nat.strongRecOn generalizing bs with
  | ind n ih =>
    cases bs with
    | nil => rw [List.nil_append, decode_cons, decodeOne_lineFeed, decode_nil, List.nil_append]
    | cons b bs =>
      have hlt : (decodeOne b bs).2.length < n := by
        have := length_decodeOne_le b bs
        rw [← hn, List.length_cons]
        omega
      rw [List.cons_append, decode_cons, decodeOne_append_lineFeed, ih _ hlt _ rfl, decode_cons,
        List.cons_append]

/-- Another first octet gives another character, or none. -/
theorem decodeOne_fst_ne {b : UInt8} (hb : b ≠ lineFeed) (bs : List UInt8) :
    (decodeOne b bs).1 ≠ some '\n' := by
  rw [decodeOne]
  cases hl : lead? b with
  | none => simp
  | some l =>
    dsimp only
    split_ifs with hfull
    · refine fun heq => absurd (Option.some.inj heq) (ofNat_ne_newline ?_)
      by_cases hfollow : l.follow = 0
      · -- a single octet is its own code point
        have hnil : continuation l.follow l.low l.high bs = [] :=
          List.length_eq_zero_iff.mp (hfull.trans hfollow)
        have hvalue : l.value = b.toNat := by
          obtain ⟨-, ⟨-, h⟩ | ⟨h, -⟩ | ⟨h, -⟩⟩ := lead?_cases hl
          · exact h
          · omega
          · omega
        rw [hnil]
        change l.value ≠ 10
        rw [hvalue]
        exact fun h => hb (UInt8.toNat_inj.mp h)
      · have := le_codePoint_continuation hl hfollow hfull
        omega
    · simp

/-- What is left after an entry are some of the octets. -/
theorem mem_of_mem_decodeOne {b c : UInt8} {bs : List UInt8} (h : c ∈ (decodeOne b bs).2) :
    c ∈ bs := by
  rw [decodeOne] at h
  split at h
  · exact h
  · exact List.mem_of_mem_drop h

/-- **No other octets stand for a line feed.** -/
theorem lineFeed_notMem_decode {bs : List UInt8} (h : lineFeed ∉ bs) : some '\n' ∉ decode bs := by
  induction hn : bs.length using Nat.strongRecOn generalizing bs with
  | ind n ih =>
    cases bs with
    | nil => rw [decode_nil]; exact List.not_mem_nil
    | cons b bs =>
      have hlt : (decodeOne b bs).2.length < n := by
        have := length_decodeOne_le b bs
        rw [← hn, List.length_cons]
        omega
      have hb : b ≠ lineFeed := fun he => h (he ▸ List.mem_cons_self)
      have hrest : lineFeed ∉ (decodeOne b bs).2 :=
        fun hc => h (List.mem_cons_of_mem _ (mem_of_mem_decodeOne hc))
      rw [decode_cons, List.mem_cons, not_or]
      exact ⟨(decodeOne_fst_ne hb bs).symm, ih _ hlt hrest rfl⟩

/-- A replaced run is no line feed. -/
theorem newline_notMem_decodeLoose {bs : List UInt8} (h : lineFeed ∉ bs) :
    '\n' ∉ decodeLoose bs := by
  intro hmem
  obtain ⟨unit, hunit, heq⟩ := List.mem_map.mp hmem
  cases unit with
  | none => exact absurd heq (by decide)
  | some c =>
    obtain rfl : c = '\n' := heq
    exact lineFeed_notMem_decode h hunit

theorem decodeLoose_append_lineFeed (bs rest : List UInt8) :
    decodeLoose (bs ++ lineFeed :: rest) = decodeLoose bs ++ '\n' :: decodeLoose rest := by
  rw [decodeLoose, decode_append_lineFeed, List.map_append, List.map_cons]
  rfl

/-- **The lines of a decoded file are the decoded lines of the file.** -/
theorem splitOn_decodeLoose (bs : List UInt8) :
    (decodeLoose bs).splitOn '\n' = (bs.splitOn lineFeed).map decodeLoose := by
  induction bs using line_induction lineFeed with
  | last line h =>
    rw [List.splitOn_eq_singleton h, List.splitOn_eq_singleton (newline_notMem_decodeLoose h),
      List.map_singleton]
  | more line rest h ih =>
    rw [decodeLoose_append_lineFeed, List.splitOn_append_cons_self,
      List.splitOn_append_cons_self, ih, List.map_append, List.splitOn_eq_singleton h,
      List.splitOn_eq_singleton (newline_notMem_decodeLoose h), List.map_singleton]

/-- Octets that are strictly readable give the same text when they are read loosely. -/
theorem decodeLoose_of_decodeStrict? {bs : List UInt8} {cs : List Char}
    (h : decodeStrict? bs = some cs) : decodeLoose bs = cs := by
  rw [decodeLoose]
  rw [decodeStrict?] at h
  generalize decode bs = units at h
  induction units generalizing cs with
  | nil => simpa using h
  | cons unit units ih =>
    cases unit with
    | none => simp at h
    | some c =>
      simp only [List.mapM_cons, id_eq, Option.bind_eq_bind, Option.bind_some,
        Option.bind_eq_some_iff, Option.pure_def, Option.some.injEq] at h
      obtain ⟨ds, hds, rfl⟩ := h
      rw [List.map_cons, ih hds]
      rfl

end Text

/-! ## 4. Carriage returns -/

namespace Content

open SpecOutline.Text

/-- A line without one carriage return at its end. -/
def withoutReturn (line : List Char) : List Char :=
  if line.getLast? = some '\r' then line.dropLast else line

/-- Lines without one carriage return at the end of each but the last. -/
def withoutReturns (lines : List (List Char)) : List (List Char) :=
  lines.dropLast.map withoutReturn ++ lines.getLast?.toList

theorem withoutReturn_cons (c : Char) {line : List Char} (h : line ≠ []) :
    withoutReturn (c :: line) = c :: withoutReturn line := by
  obtain ⟨d, ds, rfl⟩ := List.exists_cons_of_ne_nil h
  rw [withoutReturn, withoutReturn, List.getLast?_cons_cons]
  split_ifs <;> rfl

theorem withoutReturns_cons (line : List Char) {lines : List (List Char)} (h : lines ≠ []) :
    withoutReturns (line :: lines) = withoutReturn line :: withoutReturns lines := by
  obtain ⟨next, lines, rfl⟩ := List.exists_cons_of_ne_nil h
  rw [withoutReturns, withoutReturns, List.getLast?_cons_cons]
  rfl

theorem length_withoutReturns (lines : List (List Char)) :
    (withoutReturns lines).length = lines.length := by
  rcases List.eq_nil_or_concat lines with rfl | ⟨front, last, rfl⟩
  · rfl
  · simp [withoutReturns]

theorem notMem_withoutReturn {c : Char} {line : List Char} (h : c ∉ line) :
    c ∉ withoutReturn line := by
  rw [withoutReturn]
  split_ifs
  · exact fun hmem => h (List.dropLast_subset line hmem)
  · exact h

theorem unifyLines_cons (c : Char) (cs : List Char) :
    unifyLines (c :: cs) =
      if c = '\r' ∧ cs.head? = some '\n' then unifyLines cs else c :: unifyLines cs := by
  have hnext : withNext (c :: cs) = (c, cs.head?) :: withNext cs := by cases cs <;> rfl
  rw [unifyLines, hnext, List.filter_cons]
  split_ifs <;> simp_all [unifyLines]

/-- Without a line feed nothing goes. -/
theorem unifyLines_eq_self {line : List Char} (h : '\n' ∉ line) : unifyLines line = line := by
  induction line with
  | nil => rfl
  | cons c cs ih =>
    rw [List.mem_cons, not_or] at h
    have hhead : cs.head? ≠ some '\n' := fun he => h.2 (List.mem_of_mem_head? he)
    rw [unifyLines_cons, if_neg fun hc => hhead hc.2, ih h.2]

/-- **A closed line loses one carriage return at its end.** -/
theorem unifyLines_append_newline {line : List Char} (h : '\n' ∉ line) (rest : List Char) :
    unifyLines (line ++ '\n' :: rest) = withoutReturn line ++ '\n' :: unifyLines rest := by
  induction line with
  | nil => rw [List.nil_append, unifyLines_cons, if_neg (by simp)]; rfl
  | cons c cs ih =>
    rw [List.mem_cons, not_or] at h
    rw [List.cons_append, unifyLines_cons, ih h.2]
    cases cs with
    | nil => by_cases hc : c = '\r' <;> simp [withoutReturn, hc]
    | cons d ds =>
      have hd : d ≠ '\n' := fun hd => h.2 (hd ▸ List.mem_cons_self)
      rw [if_neg (by simp [hd]), withoutReturn_cons c (by simp)]
      rfl

/-- **Unified lines are the lines without carriage returns at their ends.** -/
theorem splitOn_unifyLines (cs : List Char) :
    (unifyLines cs).splitOn '\n' = withoutReturns (cs.splitOn '\n') := by
  induction cs using line_induction '\n' with
  | last line h =>
    rw [unifyLines_eq_self h, List.splitOn_eq_singleton h]
    rfl
  | more line rest h ih =>
    rw [unifyLines_append_newline h, List.splitOn_append_cons_self,
      List.splitOn_append_cons_self, ih, List.splitOn_eq_singleton h,
      List.splitOn_eq_singleton (notMem_withoutReturn h), List.singleton_append,
      List.singleton_append, withoutReturns_cons line (List.splitOn_ne_nil '\n' rest)]

end Content

/-! ## 5. The line of a place -/

namespace Text

theorem toList_loop_eq (octets : ByteArray) (i : Nat) (found : List UInt8) :
    ByteArray.toList.loop octets i found = found.reverse ++ octets.data.toList.drop i := by
  fun_induction ByteArray.toList.loop octets i found with
  | case1 i found h ih =>
    have hi : i < octets.data.toList.length := h
    have hget : octets.get! i = octets.data.toList[i] := by
      rw [Array.getElem_toList]
      exact getElem!_pos octets.data i h
    rw [ih, List.reverse_cons, List.append_assoc, List.drop_eq_getElem_cons hi, hget,
      List.singleton_append]
  | case2 i found h =>
    have hi : octets.data.toList.length ≤ i := Nat.le_of_not_lt h
    rw [List.drop_of_length_le hi, List.append_nil]

/-- A text has the octets of its characters. -/
theorem encode_ofList (cs : List Char) :
    encode (String.ofList cs) = cs.flatMap String.utf8EncodeChar := by
  refine (toList_loop_eq (String.ofList cs).toByteArray 0 []).trans ?_
  rw [String.toByteArray_ofList, List.utf8Encode, List.toList_data_toByteArray]
  rfl

/-- A character of several octets has no line feed among them. -/
theorem lineFeed_notMem_utf8EncodeChar {c : Char} (hc : 0x7F < c.val.toNat) :
    lineFeed ∉ String.utf8EncodeChar c := by
  have hfeed : lineFeed.toNat = 10 := rfl
  intro h
  simp only [String.utf8EncodeChar] at h
  split_ifs at h
  · omega
  all_goals
    simp only [List.mem_cons, List.not_mem_nil, or_false, ← UInt8.toNat_inj, hfeed,
      UInt8.toNat_ofNat'] at h
    omega

theorem count_utf8EncodeChar (c : Char) :
    (String.utf8EncodeChar c).count lineFeed = if c = '\n' then 1 else 0 := by
  by_cases hc : c.val.toNat ≤ 0x7F
  · have hsingle : String.utf8EncodeChar c = [UInt8.ofNat c.val.toNat] := if_pos hc
    have hiff : (UInt8.ofNat c.val.toNat == lineFeed) = true ↔ c = '\n' := by
      have hfeed : lineFeed.toNat = 10 := rfl
      have hnewline : '\n'.val.toNat = 10 := rfl
      rw [beq_iff_eq, ← UInt8.toNat_inj, UInt8.toNat_ofNat', Char.ext_iff, ← UInt32.toNat_inj]
      omega
    simp only [hsingle, List.count_singleton, hiff]
  · rw [List.count_eq_zero.mpr (lineFeed_notMem_utf8EncodeChar (Nat.lt_of_not_le hc)), if_neg]
    rintro rfl
    exact hc (by decide)

theorem count_encode (cs : List Char) :
    (encode (String.ofList cs)).count lineFeed = cs.count '\n' := by
  rw [encode_ofList]
  induction cs with
  | nil => rfl
  | cons c cs ih =>
    rw [List.flatMap_cons, List.count_append, ih, count_utf8EncodeChar, List.count_cons,
      Nat.add_comm]
    simp only [beq_iff_eq]

end Text

namespace Source

open SpecOutline.Text

theorem lineFeedsFrom_append (i : Nat) (as bs : List UInt8) :
    lineFeedsFrom i (as ++ bs) = lineFeedsFrom i as ++ lineFeedsFrom (i + as.length) bs := by
  induction as generalizing i with
  | nil => rfl
  | cons a as ih =>
    have hnext : i + 1 + as.length = i + (a :: as).length := by
      rw [List.length_cons]
      omega
    rw [List.cons_append, lineFeedsFrom, lineFeedsFrom, ih, hnext]
    split_ifs <;> rfl

/-- There are as many offsets as line feeds, and they lie among the octets. -/
theorem lineFeedsFrom_spec (i : Nat) (bs : List UInt8) :
    (lineFeedsFrom i bs).length = bs.count lineFeed ∧
      ∀ j ∈ lineFeedsFrom i bs, i ≤ j ∧ j < i + bs.length := by
  induction bs generalizing i with
  | nil => exact ⟨rfl, fun j hj => absurd hj List.not_mem_nil⟩
  | cons b bs ih =>
    obtain ⟨hlength, hbounds⟩ := ih (i + 1)
    have hlater : ∀ j ∈ lineFeedsFrom (i + 1) bs, i ≤ j ∧ j < i + (b :: bs).length := by
      intro j hj
      have := hbounds j hj
      rw [List.length_cons]
      omega
    rw [lineFeedsFrom, List.count_cons]
    by_cases hb : b = 10
    · subst hb
      refine ⟨by simp [hlength, lineFeed], fun j hj => ?_⟩
      rcases List.mem_cons.mp hj with rfl | hj
      · rw [List.length_cons]
        omega
      · exact hlater j hj
    · rw [if_neg hb]
      exact ⟨by simp [hlength, lineFeed, hb], hlater⟩

/-- **The line of a place is one more than the line feeds in front of it.** -/
theorem lineAt_ofText {text : String} {before after : List Char}
    (h : text.toList = before ++ after) :
    (ofText text).lineAt (encode (String.ofList before)).length = before.count '\n' + 1 := by
  have hoctets : text.toUTF8.toList =
      encode (String.ofList before) ++ encode (String.ofList after) := by
    rw [encode_ofList, encode_ofList, ← List.flatMap_append, ← h, ← encode_ofList,
      String.ofList_toList]
    rfl
  have hfeeds : (ofText text).lineFeeds =
      lineFeedsFrom 0 (encode (String.ofList before)) ++
        lineFeedsFrom (encode (String.ofList before)).length (encode (String.ofList after)) := by
    rw [ofText, hoctets, lineFeedsFrom_append, Nat.zero_add]
  obtain ⟨hlength, hbounds⟩ := lineFeedsFrom_spec 0 (encode (String.ofList before))
  rw [Nat.zero_add] at hbounds
  have hfront : (lineFeedsFrom 0 (encode (String.ofList before))).countP
      (· < (encode (String.ofList before)).length) = before.count '\n' := by
    rw [List.countP_eq_length.mpr fun j hj => decide_eq_true (hbounds j hj).2, hlength,
      count_encode]
  have hrest : (lineFeedsFrom (encode (String.ofList before)).length
      (encode (String.ofList after))).countP (· < (encode (String.ofList before)).length) = 0 := by
    refine List.countP_eq_zero.mpr fun j hj => ?_
    have := ((lineFeedsFrom_spec _ _).2 j hj).1
    simpa using this
  rw [lineAt, hfeeds, List.countP_append, hfront, hrest]

end Source

/-! ## 6. The lines of the text and of the file -/

namespace Content

open SpecOutline.Text

variable {octets : List UInt8}

theorem decodeLoose_of_decoded? {cs : List Char} (h : decoded? octets = some cs) :
    decodeLoose octets = cs := by
  unfold decoded? at h
  split at h
  · next hs =>
    obtain rfl := Option.some.inj h
    exact decodeLoose_of_decodeStrict? hs
  · exact Option.some.inj (Option.ite_none_left_eq_some.mp h).2

/-- **The text of a file has the lines of the file.**  Its lines are those of the decoded octets,
whether they are strictly or loosely read, without one carriage return at the end of each but the
last; and those are the lines of the file, decoded one by one.  So the text has as many line feeds
as the file, and the line of a place is counted by the line feeds in front of it. -/
theorem lines_of_text? {text : String} (h : text? octets = some text) :
    text.toList.splitOn '\n' = withoutReturns
      (((decodeStrict? octets).getD (decodeLoose octets)).splitOn '\n') ∧
    ((decodeStrict? octets).getD (decodeLoose octets)).splitOn '\n' =
      (octets.splitOn lineFeed).map decodeLoose ∧
    text.toList.count '\n' = octets.count lineFeed ∧
    ∀ before after, text.toList = before ++ after →
      (Source.ofText text).lineAt (encode (String.ofList before)).length =
        before.count '\n' + 1 := by
  have hloose : (decodeStrict? octets).getD (decodeLoose octets) = decodeLoose octets := by
    cases hs : decodeStrict? octets with
    | none => rfl
    | some cs => exact (decodeLoose_of_decodeStrict? hs).symm
  have htext : text.toList = unifyLines (decodeLoose octets) := by
    obtain ⟨cs, hcs, rfl⟩ := Option.map_eq_some_iff.mp h
    rw [String.toList_ofList, decodeLoose_of_decoded? hcs]
  have hlines := splitOn_unifyLines (decodeLoose octets)
  have hcount : text.toList.count '\n' + 1 = octets.count lineFeed + 1 := by
    rw [← length_splitOn '\n', ← length_splitOn lineFeed, htext, hlines, length_withoutReturns,
      splitOn_decodeLoose, List.length_map]
  rw [hloose, htext]
  exact ⟨hlines, splitOn_decodeLoose octets, Nat.succ.inj (htext ▸ hcount),
    fun before after hcut => Source.lineAt_ofText (htext.trans hcut)⟩

namespace Example

/-- A file of three lines.  The first ends in two carriage returns, the second is the start of a
character that the line end does not continue, and the last ends in a carriage return. -/
def faultyLine : List UInt8 := encode "class FooSpec\r\r\n" ++ 0xC3 :: encode "\r\nlast\r"

/-- Its text. -/
def faultyLineText : String := "class FooSpec\r\n\uFFFD\nlast\r"

end Example

/-- The faulty line stays a line of its own, and only two of the four carriage returns go. -/
theorem lines_of_faultyLine :
    decodeStrict? Example.faultyLine = none ∧
    text? Example.faultyLine = some Example.faultyLineText ∧
    Example.faultyLineText.toList.splitOn '\n' = withoutReturns
      ((Example.faultyLine.splitOn lineFeed).map decodeLoose) ∧
    Example.faultyLineText.toList.count '\n' = Example.faultyLine.count lineFeed := by
  have htext : text? Example.faultyLine = some Example.faultyLineText := by decide +kernel
  obtain ⟨hlines, hdecoded, hcount, -⟩ := lines_of_text? htext
  exact ⟨by decide +kernel, htext, hdecoded ▸ hlines, hcount⟩

end Content

end SpecOutline
