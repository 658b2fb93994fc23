/-
# Records as they are written and read

A record is written as an object whose keys are, in their order, some of the names that its
reader knows.  No key stands twice then, and the reader looks every field up among the entries
(`record_of_sublist`).  What is left out on writing is what the reader takes a missing field
for: one lemma for each way to write a field says so (`required_ofEntries`, `orElse_ofEntries`,
`optional_ofEntries`, `orElse_list_ofEntries`).

In the other direction, what holds of all that a decoder gives holds of the fields and items that
it was used for (`of_required`, `of_orElse`, `of_asOption`, `of_asList`).
-/
import Mathlib.Data.List.Nodup
import SpecOutline.Tree.Stored

namespace SpecOutline.Json

/-! ## 1. Entries -/

variable {α : Type}

@[simp] theorem lookup_entryIfSome (key : String) (encode : α → Value) (a? : Option α)
    (name : String) :
    (entryIfSome key encode a?).lookup name = if name = key then a?.map encode else none := by
  cases a? with
  | none => simp [entryIfSome]
  | some a =>
    by_cases h : name = key
    · simp [entryIfSome, h]
    · simp [entryIfSome, h, List.lookup_cons, beq_eq_false_iff_ne.mpr h]

@[simp] theorem lookup_entryIfAny (key : String) (encode : α → Value) (as : List α)
    (name : String) :
    (entryIfAny key encode as).lookup name =
      if name = key ∧ as ≠ [] then some (.array (as.map encode)) else none := by
  cases as with
  | nil => simp [entryIfAny]
  | cons a as =>
    by_cases h : name = key
    · simp [entryIfAny, h]
    · simp [entryIfAny, h, List.lookup_cons, beq_eq_false_iff_ne.mpr h]

theorem keys_entryIfSome (key : String) (encode : α → Value) (a? : Option α) :
    ((entryIfSome key encode a?).map Prod.fst).Sublist [key] := by
  cases a? <;> simp [entryIfSome]

theorem keys_entryIfAny (key : String) (encode : α → Value) (as : List α) :
    ((entryIfAny key encode as).map Prod.fst).Sublist [key] := by
  cases as <;> simp [entryIfAny]

/-! ## 2. Reading a record -/

/-- The record whose fields stand among some entries. -/
def Record.ofEntries (entries : List (String × Value)) : Record := fun name => entries.lookup name

/-- **An object with some of the known keys, in order, is read by look-up.** -/
theorem record_of_sublist {place : Place} {names : List String}
    {entries : List (String × Value)} (hkeys : (entries.map Prod.fst).Sublist names)
    (hnames : names.Nodup) :
    record place names (.object entries) = .ok (.ofEntries entries) := by
  have hrepeat : hasRepeat names entries = false := by
    rw [hasRepeat, List.any_eq_false]
    intro name _
    have hcount := List.nodup_iff_count_le_one.mp (hkeys.nodup hnames) name
    rw [List.count, List.countP_map] at hcount
    simpa [Function.comp_def] using hcount
  rw [record, hrepeat, if_neg Bool.false_ne_true]
  congr 1
  funext name
  split
  · rfl
  · next hname =>
    symm
    rw [Record.ofEntries, List.lookup_eq_none_iff]
    intro e he
    rw [bne_iff_ne]
    rintro rfl
    exact hname (hkeys.subset (List.mem_map_of_mem he))

section Fields

variable {entries : List (String × Value)} {name : String} {decode : Value → Except Fault α}
  {encode : α → Value} {a default : α}

theorem required_ofEntries (v : Value) (hv : entries.lookup name = some v) (ha : decode v = .ok a) :
    (Record.ofEntries entries).required name decode = .ok a := by
  rw [Record.required, Record.ofEntries, hv]
  exact ha

theorem orElse_ofEntries (v : Value) (hv : entries.lookup name = some v) (ha : decode v = .ok a) :
    (Record.ofEntries entries).orElse name default decode = .ok a := by
  rw [Record.orElse, Record.ofEntries, hv]
  exact ha

/-- **A field that is written only if there is a value** is read back as an optional one. -/
theorem optional_ofEntries (encode : α → Value) {a? : Option α}
    (hv : entries.lookup name = a?.map encode)
    (ha : ∀ a ∈ a?, encode a ≠ .null ∧ decode (encode a) = .ok a) :
    (Record.ofEntries entries).optional name decode = .ok a? := by
  rw [Record.optional, Record.orElse, Record.ofEntries, hv]
  cases a? with
  | none => rfl
  | some a =>
    obtain ⟨hnull, hdecode⟩ := ha a rfl
    have hoption : Value.asOption decode (encode a) = some <$> decode (encode a) := by
      cases hv : encode a with
      | null => exact absurd hv hnull
      | _ => rfl
    rw [hdecode] at hoption
    exact hoption

/-- Items written one by one are read back one by one. -/
theorem asList_map {as : List α} (ha : ∀ a ∈ as, decode (encode a) = .ok a) :
    Value.asList decode (.array (as.map encode)) = .ok as := by
  rw [Value.asList]
  induction as with
  | nil => rfl
  | cons a as ih =>
    rw [List.map_cons, List.mapM_cons, ha a List.mem_cons_self,
      ih fun b hb => ha b (List.mem_cons_of_mem a hb)]
    rfl

/-- **A list that is written only if it holds something** is read back, with the empty list as
default. -/
theorem orElse_list_ofEntries (encode : α → Value) {as : List α}
    (hv : entries.lookup name = if as ≠ [] then some (.array (as.map encode)) else none)
    (ha : ∀ a ∈ as, decode (encode a) = .ok a) :
    (Record.ofEntries entries).orElse name [] (Value.asList decode) = .ok as := by
  rw [Record.orElse, Record.ofEntries, hv]
  cases as with
  | nil => rfl
  | cons a as => exact asList_map ha

end Fields

theorem asNat_nat {bound n : Nat} (hn : n < bound) : Value.asNat bound (.nat n) = .ok n := by
  rw [Value.nat, Value.asNat, if_pos hn]

theorem asList_texts (ss : List String) :
    Value.asList Value.asText (.texts ss) = .ok ss :=
  asList_map fun _ _ => rfl

/-! ## 3. Tagged objects -/

/-- **The tag of a tagged object is taken out of it**, if no other key is the tag. -/
theorem tagged_object {tag name : String} {room : Nat} {entries : List (String × Value)}
    (htag : tag ∉ entries.map Prod.fst) (hkeep : entriesCanKeep room entries = true) :
    tagged tag room (.object ((tag, .text name) :: entries)) = .ok (name, .object entries) := by
  have hne : ∀ e ∈ entries, e.1 ≠ tag := by
    rintro e he rfl
    exact htag (List.mem_map_of_mem he)
  have hnone : entries.filter (fun e => e.1 == tag) = [] :=
    List.filter_eq_nil_iff.mpr fun e he => by simpa using hne e he
  have hall : entries.filter (fun e => e.1 != tag) = entries :=
    List.filter_eq_self.mpr fun e he => by simpa using hne e he
  simp only [tagged, List.filter_cons, beq_self_eq_true, if_true, hnone, bne_self_eq_false,
    Bool.false_eq_true, if_false, hall, hkeep, Value.asText, bind, Except.bind]
  rfl

/-! ## 4. What was read -/

/-- What a computation in two steps gives, each of them gives. -/
theorem bind_eq_ok {ε β : Type} {x : Except ε α} {f : α → Except ε β} {b : β}
    (h : (x >>= f) = .ok b) : ∃ a, x = .ok a ∧ f a = .ok b := by
  cases x with
  | error e => cases h
  | ok a => exact ⟨a, rfl, h⟩

/-- What comes out of steps that all succeed is what comes out of each of them. -/
theorem mem_of_mapM_eq_ok {ε β : Type} {f : α → Except ε β} {as : List α} {bs : List β}
    (h : as.mapM f = .ok bs) {b : β} : b ∈ bs ↔ ∃ a ∈ as, f a = .ok b := by
  induction as generalizing bs with
  | nil =>
    cases h
    simp
  | cons a as ih =>
    rw [List.mapM_cons] at h
    obtain ⟨c, hc, h⟩ := bind_eq_ok h
    obtain ⟨cs, hcs, h⟩ := bind_eq_ok h
    cases h
    simp [ih hcs, hc, eq_comm]

theorem lt_of_asNat {bound n : Nat} {v : Value} (h : v.asNat bound = .ok n) : n < bound := by
  unfold Value.asNat at h
  split at h
  · split at h
    · next hlt => cases h; exact hlt
    · cases h
  · cases h

section Read

variable {r : Record} {name : String} {decode : Value → Except Fault α} {P : α → Prop}
  (hP : ∀ v a, decode v = .ok a → P a)
include hP

/-- What holds of all that a field can hold holds of the field. -/
theorem of_required {a : α} (h : r.required name decode = .ok a) : P a := by
  unfold Record.required at h
  split at h
  · exact hP _ _ h
  · cases h

theorem of_orElse {a default : α} (hdefault : P default)
    (h : r.orElse name default decode = .ok a) : P a := by
  unfold Record.orElse at h
  split at h
  · exact hP _ _ h
  · cases h
    exact hdefault

theorem of_asOption {v : Value} {a? : Option α} (h : v.asOption decode = .ok a?) :
    ∀ a ∈ a?, P a := by
  unfold Value.asOption at h
  split at h
  · cases h
    simp
  · cases hv : decode v with
    | error e => rw [hv] at h; cases h
    | ok b =>
      rw [hv] at h
      cases h
      rintro a ⟨⟩
      exact hP _ _ hv

theorem of_asList {v : Value} {as : List α} (h : v.asList decode = .ok as) : ∀ a ∈ as, P a := by
  unfold Value.asList at h
  split at h
  · intro a ha
    obtain ⟨item, -, hitem⟩ := (mem_of_mapM_eq_ok h).mp ha
    exact hP item a hitem
  · cases h

end Read

end SpecOutline.Json
