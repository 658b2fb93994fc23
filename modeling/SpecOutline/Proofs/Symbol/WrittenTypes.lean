/-
# Type names with type arguments

A user type is written as names with dots between them, each of which may have type arguments:
`Outer<A, b.C<D>>.Inner`.  What is outside all angle brackets is a qualified name, and its last name
is the simple name of the type.  Type arguments are taken out in two ways.

* `bareTypeName` counts open brackets, so it takes out all type arguments, however deep and whatever
  is in them, and leaves the names with dots between them (`WrittenType.bareTypeName_chars`).
* `simpleTypeName` cuts the text at the first angle bracket, so it takes the first name that has type
  arguments for the last one (`WrittenType.simpleTypeName_chars`).

They agree exactly if that name, where there is one before the last, is the same as the last
(`WrittenType.simpleName?_iff`).
-/
import SpecOutline.Proofs.Symbol.TypeNameOrder
import SpecOutline.Proofs.Text.Cuts

namespace SpecOutline

open SpecOutline.Text SpecOutline.TypeNames

/-! ## 1. Types as written -/

/-- Texts in which every angle bracket is closed and none is closed before it is opened. -/
inductive Balanced : List Char → Prop
  | nil : Balanced []
  | plain {c : Char} {cs : List Char} (hopen : c ≠ '<') (hclose : c ≠ '>') (h : Balanced cs) :
      Balanced (c :: cs)
  | nested {inner rest : List Char} (hinner : Balanced inner) (hrest : Balanced rest) :
      Balanced ('<' :: (inner ++ '>' :: rest))

/-- A name with or without type arguments, as they stand between their brackets. -/
structure TypePart where
  name : String
  arguments? : Option (List Char) := none
  isSimple : IsSimple name
  balanced : ∀ arguments ∈ arguments?, Balanced arguments

/-- A user type as written: some parts with a dot after each, and a last part. -/
structure WrittenType where
  outer : List TypePart
  last : TypePart

/-- The text of a part. -/
def TypePart.chars (p : TypePart) : List Char :=
  p.name.toList ++
    match p.arguments? with
    | some arguments => '<' :: (arguments ++ ['>'])
    | none => []

namespace WrittenType

/-- The characters of a type. -/
def chars (t : WrittenType) : List Char := t.outer.flatMap (·.chars ++ ['.']) ++ t.last.chars

/-- The text of a type. -/
def text (t : WrittenType) : String := String.ofList t.chars

/-- The first part with type arguments before the last part, or else the last part. -/
def firstApplied (t : WrittenType) : TypePart :=
  (t.outer.find? (·.arguments?.isSome)).getD t.last

end WrittenType

/-! ## 2. Counting brackets -/

/-- Inside brackets a balanced text is passed over. -/
theorem Balanced.bareTypeName_append {cs : List Char} (h : Balanced cs) (depth : Nat)
    (rest : List Char) :
    bareTypeName (depth + 1) (cs ++ rest) = bareTypeName (depth + 1) rest := by
  induction h generalizing depth rest with
  | nil => rfl
  | plain hopen hclose _ ih =>
    rw [List.cons_append, bareTypeName, if_neg hopen, if_neg hclose, if_pos (by simp), ih]
  | nested _ _ ihinner ihrest =>
    rw [List.cons_append, bareTypeName, if_pos rfl, List.append_assoc, ihinner, List.cons_append,
      bareTypeName, if_neg (by decide), if_pos rfl, Nat.add_sub_cancel, ihrest]

namespace TypePart

variable (p : TypePart)

theorem notMem_name {c : Char} (hc : c = '.' ∨ c = '<' ∨ c = '>' ∨ c = '?') :
    c ∉ p.name.toList := by
  intro hmem
  obtain ⟨hdot, hopen, hclose, hmark, -⟩ := p.isSimple.2 c hmem
  rcases hc with h | h | h | h
  · exact hdot h
  · exact hopen h
  · exact hclose h
  · exact hmark h

/-- **All type arguments of a part are taken out.** -/
theorem bareTypeName_chars (rest : List Char) :
    bareTypeName 0 (p.chars ++ rest) = p.name.toList ++ bareTypeName 0 rest := by
  rw [chars, List.append_assoc, bareTypeName_append fun c hc => (p.isSimple.2 c hc).2]
  cases hargs : p.arguments? with
  | none => rfl
  | some arguments =>
    have hbalanced := p.balanced arguments hargs
    rw [List.cons_append, bareTypeName, if_pos rfl, List.append_assoc,
      hbalanced.bareTypeName_append, List.singleton_append, bareTypeName, if_neg (by decide),
      if_pos rfl]

end TypePart

namespace WrittenType

variable (t : WrittenType)

/-- **Counting brackets leaves the names**, with dots between them. -/
theorem bareTypeName_chars :
    bareTypeName 0 t.chars =
      (t.outer.map (·.name.toList)).flatMap (· ++ ['.']) ++ t.last.name.toList := by
  obtain ⟨outer, last⟩ := t
  rw [chars]
  induction outer with
  | nil =>
    have hlast := last.bareTypeName_chars []
    rwa [List.append_nil, bareTypeName, List.append_nil] at hlast
  | cons p outer ih =>
    have hdot : ∀ c ∈ ['.'], c ≠ '<' ∧ c ≠ '>' ∧ c ≠ '?' ∧ isBlank c = false := by
      simp [isBlank]
    rw [List.flatMap_cons, List.append_assoc, List.append_assoc, p.bareTypeName_chars,
      bareTypeName_append hdot, ih, List.map_cons, List.flatMap_cons, List.append_assoc,
      List.append_assoc]

/-- The last name is the last one outside all type arguments. -/
theorem lastName_bareTypeName :
    lastName (String.ofList (bareTypeName 0 t.chars)) = t.last.name := by
  rw [lastName, String.toList_ofList, bareTypeName_chars,
    afterLast_closed _ (t.last.notMem_name (.inl rfl)), String.ofList_toList]

end WrittenType

/-! ## 3. Cutting at the first bracket -/

namespace TypePart

variable {p : TypePart}

theorem bne_of_mem_name {c : Char} (hc : c ∈ p.name.toList) : (c != '<') = true :=
  bne_iff_ne.mpr fun heq => p.notMem_name (.inr (.inl rfl)) (heq ▸ hc)

theorem beforeFirst_of_none (h : p.arguments? = none) (rest : List Char) :
    beforeFirst '<' (p.chars ++ rest) = p.name.toList ++ beforeFirst '<' rest := by
  rw [chars, h, List.append_nil, beforeFirst,
    List.takeWhile_append_of_pos fun c hc => bne_of_mem_name hc]
  rfl

theorem beforeFirst_of_some {arguments : List Char} (h : p.arguments? = some arguments)
    (rest : List Char) : beforeFirst '<' (p.chars ++ rest) = p.name.toList := by
  rw [chars, h, List.append_assoc, List.cons_append, beforeFirst,
    List.takeWhile_append_of_pos fun c hc => bne_of_mem_name hc,
    List.takeWhile_cons_of_neg (by decide), List.append_nil]

end TypePart

namespace WrittenType

variable (t : WrittenType)

/-- The parts before the first with type arguments. -/
def plainOuter : List TypePart := t.outer.takeWhile (·.arguments?.isNone)

/-- **Cutting at the first bracket leaves the names up to the first with type arguments.** -/
theorem beforeFirst_chars :
    beforeFirst '<' t.chars =
      (t.plainOuter.map (·.name.toList)).flatMap (· ++ ['.']) ++ t.firstApplied.name.toList := by
  obtain ⟨outer, last⟩ := t
  rw [chars, plainOuter, firstApplied]
  induction outer with
  | nil =>
    rw [← List.append_nil last.chars]
    cases hargs : last.arguments? with
    | none => exact (TypePart.beforeFirst_of_none hargs []).trans (List.append_nil _)
    | some arguments => exact TypePart.beforeFirst_of_some hargs []
  | cons p outer ih =>
    rw [List.flatMap_cons, List.append_assoc, List.append_assoc]
    cases hargs : p.arguments? with
    | none =>
      have hdot : beforeFirst '<' (['.'] ++ (outer.flatMap (·.chars ++ ['.']) ++ last.chars)) =
          '.' :: beforeFirst '<' (outer.flatMap (·.chars ++ ['.']) ++ last.chars) := rfl
      rw [TypePart.beforeFirst_of_none hargs, hdot, ih]
      simp [hargs]
    | some arguments =>
      rw [TypePart.beforeFirst_of_some hargs]
      simp [hargs]

/-- **So the first name with type arguments is taken for the last.** -/
theorem simpleTypeName_chars : simpleTypeName t.chars = t.firstApplied.name.toList := by
  have hblank : ∀ p : TypePart, ∀ c ∈ p.name.toList, isBlank c = false :=
    fun p c hc => (p.isSimple.2 c hc).2.2.2.2
  have hfront : trim (beforeFirst '<' t.chars) = beforeFirst '<' t.chars := by
    refine trim_eq_self fun c hc => ?_
    rw [beforeFirst_chars, List.mem_append, List.mem_flatMap] at hc
    rcases hc with ⟨name, hname, hc⟩ | hc
    · obtain ⟨p, -, rfl⟩ := List.mem_map.mp hname
      rcases List.mem_append.mp hc with hc | hc
      · exact hblank p c hc
      · obtain rfl := List.mem_singleton.mp hc
        decide
    · exact hblank t.firstApplied c hc
  rw [simpleTypeName, hfront, beforeFirst_chars,
    afterLast_closed _ (t.firstApplied.notMem_name (.inl rfl)),
    trim_eq_self (hblank t.firstApplied)]

theorem simpleName?_text : (TypeRef.user t.text).simpleName? = some t.firstApplied.name := by
  have hne : t.firstApplied.name.toList ≠ [] :=
    fun hnil => t.firstApplied.isSimple.1 (String.toList_eq_nil_iff.mp hnil)
  rw [TypeRef.simpleName?, text, String.toList_ofList, simpleTypeName_chars]
  split
  · next hnil => exact absurd hnil hne
  · rw [String.ofList_toList]

/-! ## 4. Both ways -/

/-- **When the two ways to take out type arguments agree**, for every type of names with dots
between them, each with or without balanced type arguments.  Counting brackets leaves a qualified
name that ends in the last name of the type.  Cutting at the first bracket gives that name, and not
an earlier one, exactly if the first part with type arguments, where there is one before the last
part, has the same name as the last part; so it does wherever only the last part has any. -/
theorem simpleName?_iff (t : WrittenType) :
    lastName (String.ofList (bareTypeName 0 t.text.toList)) = t.last.name ∧
    ((TypeRef.user t.text).simpleName? =
        some (lastName (String.ofList (bareTypeName 0 t.text.toList))) ↔
      ∀ p, t.outer.find? (·.arguments?.isSome) = some p → p.name = t.last.name) ∧
    ((∀ p ∈ t.outer, p.arguments? = none) →
      (TypeRef.user t.text).simpleName? = some t.last.name) := by
  have hlast : lastName (String.ofList (bareTypeName 0 t.text.toList)) = t.last.name := by
    rw [text, String.toList_ofList, lastName_bareTypeName]
  have hiff : (TypeRef.user t.text).simpleName? = some t.last.name ↔
      ∀ p, t.outer.find? (·.arguments?.isSome) = some p → p.name = t.last.name := by
    rw [simpleName?_text, Option.some.injEq, firstApplied]
    cases t.outer.find? (·.arguments?.isSome) with
    | none => simp
    | some p => simp
  rw [hlast]
  refine ⟨rfl, hiff, fun hnone => hiff.mpr fun p hp => ?_⟩
  have hsome := List.find?_some hp
  rw [hnone p (List.mem_of_find?_eq_some hp)] at hsome
  cases hsome

namespace Example

/-- A part without type arguments. -/
def named (name : String) (h : IsSimple name) : TypePart where
  name := name
  isSimple := h
  balanced := by simp

/-- A part with type arguments. -/
def applied (name : String) (h : IsSimple name) (arguments : List Char) (hb : Balanced arguments) :
    TypePart where
  name := name
  arguments? := some arguments
  isSimple := h
  balanced := by
    intro a ha
    obtain rfl : arguments = a := Option.some.inj ha
    exact hb

theorem balanced_of_plain {cs : List Char} (h : ∀ c ∈ cs, c ≠ '<' ∧ c ≠ '>') : Balanced cs := by
  induction cs with
  | nil => exact .nil
  | cons c cs ih =>
    obtain ⟨hopen, hclose⟩ := h c List.mem_cons_self
    exact .plain hopen hclose (ih fun d hd => h d (List.mem_cons_of_mem _ hd))

/-- A class in a class with a type parameter. -/
def innerOfApplied : WrittenType where
  outer := [applied "Outer" (by decide) ['T'] (balanced_of_plain (by simp))]
  last := named "Inner" (by decide)

/-- A class whose type argument has a type argument with a dot. -/
def nestedArguments : WrittenType where
  outer := [named "org" (by decide), named "spek" (by decide)]
  last := applied "Body" (by decide) "Map<a.K>".toList
    (.plain (by decide) (by decide) <| .plain (by decide) (by decide) <|
      .plain (by decide) (by decide) <|
      .nested (balanced_of_plain (show ∀ c ∈ "a.K".toList, c ≠ '<' ∧ c ≠ '>' by simp)) .nil)

end Example

/-- **The first name with type arguments can be taken for the last**: `Outer<T>.Inner` refers to
`Inner`, and its simple name is read as `Outer`. -/
theorem simpleName?_innerOfApplied :
    Example.innerOfApplied.text = "Outer<T>.Inner" ∧
    lastName (String.ofList (bareTypeName 0 Example.innerOfApplied.text.toList)) = "Inner" ∧
    (TypeRef.user Example.innerOfApplied.text).simpleName? = some "Outer" :=
  ⟨by decide +kernel, by decide +kernel, by decide +kernel⟩

/-- The dots and brackets inside the type arguments of a last part do not matter. -/
theorem simpleName?_nestedArguments :
    Example.nestedArguments.text = "org.spek.Body<Map<a.K>>" ∧
    (TypeRef.user Example.nestedArguments.text).simpleName? = some "Body" := by
  have hname := (simpleName?_iff Example.nestedArguments).2.2 (by
    intro p hp
    simp only [Example.nestedArguments, List.mem_cons, List.not_mem_nil, or_false] at hp
    rcases hp with rfl | rfl <;> rfl)
  exact ⟨by decide +kernel, hname⟩

end WrittenType

end SpecOutline
