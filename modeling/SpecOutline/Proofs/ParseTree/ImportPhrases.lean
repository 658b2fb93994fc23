/-
# Imports in any layout

An import is the word `import`, a path, and then nothing, a star or another name; spaces and tabs
may stand around the dots, and semicolons and blanks at the end.  `ImportPhrase` is such a phrase
with its layout, and `ImportPhrase.meant` the import that it means.

Blanks are taken out of paths and names wherever they are, but the word `as` is looked for between
two spaces.  So the phrase is read as it is meant exactly if

* spaces, and not tabs, stand next to the word `as` where it renames (`ImportPhrase.SpacedKeyword`),
* no blanks stand between the semicolons at the end (`ImportPhrase.TidyClosing`), and
* no name `as` stands between two spaces in the path (`ImportPhrase.NoLooseAs`)

(`ImportPhrase.ofText_eq_meant_iff`).
-/
import SpecOutline.ParseTree.Header
import SpecOutline.Proofs.Text.Cuts

namespace SpecOutline

open SpecOutline.Text

/-! ## 1. Phrases -/

/-- A run of spaces and tabs. -/
structure Gap where
  chars : List Char
  blank : ∀ c ∈ chars, c = ' ' ∨ c = '\t'

/-- A text without blanks, dots, stars and semicolons, and not empty. -/
def IsPathName (text : String) : Prop :=
  text.toList ≠ [] ∧ ∀ c ∈ text.toList, isBlank c = false ∧ c ≠ '.' ∧ c ≠ '*' ∧ c ≠ ';'

-- the instance is given by name: the search for one may try all characters there are
instance : DecidablePred IsPathName := fun text =>
  @instDecidableAnd _ _ inferInstance (List.decidableBAll _ text.toList)

/-- A name of a path. -/
structure Identifier where
  text : String
  isPathName : IsPathName text

/-- A dot, the gaps around it, and the name after it. -/
structure Selection where
  before : Gap
  after : Gap
  name : Identifier

/-- What may follow the path of an import. -/
inductive Ending where
  | plain
  | star (before after : Gap)
  | renamed (before after : Gap) (name : Identifier)
      (separate : before.chars ≠ [] ∧ after.chars ≠ [])

/-- An import with its layout. -/
structure ImportPhrase where
  gap : Gap
  first : Identifier
  more : List Selection
  ending : Ending
  closing : List Char
  separate : gap.chars ≠ []
  closes : ∀ c ∈ closing, c = ';' ∨ isBlank c = true

/-- The word that renames an import, between two spaces. -/
def spacedAs : List Char := " as ".toList

def Selection.chars (s : Selection) : List Char :=
  s.before.chars ++ '.' :: (s.after.chars ++ s.name.text.toList)

def Ending.chars : Ending → List Char
  | .plain => []
  | .star before after => before.chars ++ '.' :: (after.chars ++ ['*'])
  | .renamed before after name _ =>
    before.chars ++ 'a' :: 's' :: (after.chars ++ name.text.toList)

namespace ImportPhrase

/-- The path as written. -/
def pathChars (p : ImportPhrase) : List Char :=
  p.first.text.toList ++ p.more.flatMap Selection.chars

/-- The phrase as written. -/
def text (p : ImportPhrase) : String :=
  String.ofList ("import".toList ++ (p.gap.chars ++ (p.pathChars ++ p.ending.chars ++ p.closing)))

/-- The names of the path. -/
def names (p : ImportPhrase) : List String := p.first.text :: p.more.map (·.name.text)

/-- The import that a phrase means. -/
def meant (p : ImportPhrase) : Import :=
  match p.ending with
  | .plain => { path := ".".intercalate p.names }
  | .star _ _ => { path := ".".intercalate p.names, star := true }
  | .renamed _ _ name _ => { path := ".".intercalate p.names, alias? := some name.text }

/-- Spaces stand next to the word `as`, where it renames. -/
def SpacedKeyword (p : ImportPhrase) : Prop :=
  match p.ending with
  | .renamed before after _ _ =>
    before.chars.getLast? = some ' ' ∧ after.chars.head? = some ' '
  | _ => True

/-- All semicolons at the end stand together. -/
def TidyClosing (p : ImportPhrase) : Prop :=
  ∃ front semicolons back, p.closing = front ++ semicolons ++ back ∧
    (∀ c ∈ front, isBlank c = true) ∧ (∀ c ∈ semicolons, c = ';') ∧ ∀ c ∈ back, isBlank c = true

/-- The blanks behind the path that are not at the end of the phrase. -/
def gapBehind (p : ImportPhrase) : List Char :=
  match p.ending with
  | .plain => if ';' ∈ p.closing then p.closing.takeWhile isBlank else []
  | .star before _ => before.chars
  | .renamed before _ _ _ => before.chars

/-- No name `as` of the path stands between two spaces. -/
def NoLooseAs (p : ImportPhrase) : Prop := ¬ spacedAs <:+: p.pathChars ++ p.gapBehind

end ImportPhrase

/-! ## 2. What squeezing leaves -/

theorem isBlank_of_gap {c : Char} (h : c = ' ' ∨ c = '\t') : isBlank c = true := by
  rcases h with rfl | rfl <;> decide

theorem Gap.isBlank_of_mem (g : Gap) : ∀ c ∈ g.chars, isBlank c = true :=
  fun c hc => isBlank_of_gap (g.blank c hc)

theorem Gap.notMem (g : Gap) {c : Char} (hc : isBlank c = false) : c ∉ g.chars := by
  intro hmem
  rw [g.isBlank_of_mem c hmem] at hc
  cases hc

theorem Gap.squeeze_of_subset (g : Gap) {cs : List Char} (h : cs ⊆ g.chars) : squeeze cs = [] :=
  squeeze_eq_nil_iff.mpr fun c hc => g.isBlank_of_mem c (h hc)

theorem Gap.squeeze_chars (g : Gap) : squeeze g.chars = [] :=
  g.squeeze_of_subset (List.Subset.refl _)

theorem Identifier.plain (i : Identifier) :
    ∀ c ∈ i.text.toList, isBlank c = false ∧ c ≠ '.' ∧ c ≠ '*' ∧ c ≠ ';' := i.isPathName.2

theorem Identifier.squeeze_text (i : Identifier) : squeeze i.text.toList = i.text.toList :=
  squeeze_eq_self fun c hc => (i.plain c hc).1

theorem squeeze_cons {c : Char} (h : isBlank c = false) (cs : List Char) :
    squeeze (c :: cs) = c :: squeeze cs := by
  rw [squeeze, List.filter_cons_of_pos (by simp [h])]
  rfl

theorem Selection.squeeze_chars (s : Selection) :
    squeeze s.chars = '.' :: s.name.text.toList := by
  rw [chars, squeeze_append, s.before.squeeze_chars, squeeze_cons (by decide), squeeze_append,
    s.after.squeeze_chars, s.name.squeeze_text]
  rfl

namespace ImportPhrase

variable (p : ImportPhrase)

theorem squeeze_pathChars : squeeze p.pathChars = (".".intercalate p.names).toList := by
  have hmore : squeeze (p.more.flatMap Selection.chars) =
      p.more.flatMap fun s => '.' :: s.name.text.toList := by
    induction p.more with
    | nil => rfl
    | cons s more ih =>
      rw [List.flatMap_cons, squeeze_append, s.squeeze_chars, ih, List.flatMap_cons]
  rw [pathChars, squeeze_append, p.first.squeeze_text, hmore, names]
  generalize p.first.text = first
  induction p.more generalizing first with
  | nil => simp
  | cons s more ih =>
    rw [List.map_cons, String.intercalate_cons_cons, String.toList_append, String.toList_append,
      ← ih, List.flatMap_cons]
    simp

/-! ## 3. The ends of a phrase -/

end ImportPhrase

theorem Identifier.exists_head (i : Identifier) :
    ∃ c, i.text.toList.head? = some c ∧ isBlank c = false := by
  obtain ⟨c, cs, hcs⟩ := List.exists_cons_of_ne_nil i.isPathName.1
  exact ⟨c, by rw [hcs]; rfl, (i.plain c (by rw [hcs]; exact List.mem_cons_self)).1⟩

theorem Identifier.exists_last (i : Identifier) :
    ∃ c, i.text.toList.getLast? = some c ∧ isBlank c = false ∧ c ≠ ';' := by
  have hlast := List.getLast?_eq_some_getLast i.isPathName.1
  obtain ⟨hblank, -, -, hsemicolon⟩ := i.plain _ (List.getLast_mem i.isPathName.1)
  exact ⟨_, hlast, hblank, hsemicolon⟩

namespace ImportPhrase

variable (p : ImportPhrase)

/-- The path and what follows it, up to the closing. -/
def words : List Char := p.pathChars ++ p.ending.chars

/-- What is left of the closing when the blanks and then the semicolons at its end go. -/
def kept : List Char := dropEndWhile (· == ';') (trimEnd p.closing)

theorem exists_head_words : ∃ c, p.words.head? = some c ∧ isBlank c = false := by
  obtain ⟨c, hc, hblank⟩ := p.first.exists_head
  refine ⟨c, ?_, hblank⟩
  rw [words, pathChars, List.append_assoc, List.head?_append, hc]
  rfl

theorem exists_last_pathChars :
    ∃ c, p.pathChars.getLast? = some c ∧ isBlank c = false ∧ c ≠ ';' := by
  rw [pathChars]
  rcases List.eq_nil_or_concat' p.more with hmore | ⟨front, last, hmore⟩
  · rw [hmore, List.flatMap_nil, List.append_nil]
    exact p.first.exists_last
  · obtain ⟨c, hc, hends⟩ := last.name.exists_last
    refine ⟨c, ?_, hends⟩
    rw [hmore, List.flatMap_append, List.flatMap_singleton, Selection.chars]
    simp [List.getLast?_append, List.getLast?_cons, hc]

theorem exists_last_words : ∃ c, p.words.getLast? = some c ∧ isBlank c = false ∧ c ≠ ';' := by
  obtain ⟨c, hc, hends⟩ := p.exists_last_pathChars
  rw [words]
  cases p.ending with
  | plain => exact ⟨c, by simpa [Ending.chars] using hc, hends⟩
  | star before after =>
    exact ⟨'*', by simp [Ending.chars, List.getLast?_append, List.getLast?_cons], by decide⟩
  | renamed before after name _ =>
    obtain ⟨d, hd, hends⟩ := name.exists_last
    exact ⟨d, by simp [Ending.chars, List.getLast?_append, List.getLast?_cons, hd], hends⟩

/-- **The keyword, the gap behind it and the ends go**, and the words stay as they are. -/
theorem withoutSemicolons_text :
    withoutSemicolons (afterKeyword "import" p.text.toList) = p.words ++ p.kept := by
  obtain ⟨first, hfirst, hfirstBlank⟩ := p.exists_head_words
  obtain ⟨last, hlast, hlastBlank, hsemicolon⟩ := p.exists_last_words
  have hkeyword : ∀ rest, trimStart ("import".toList ++ rest) = "import".toList ++ rest :=
    fun rest => List.dropWhile_cons_of_neg (by decide)
  have htext : p.text.toList = "import".toList ++ (p.gap.chars ++ (p.words ++ p.closing)) :=
    String.toList_ofList
  have htrim : trim p.text.toList =
      "import".toList ++ (p.gap.chars ++ (p.words ++ trimEnd p.closing)) := by
    have hends : ("import".toList ++ (p.gap.chars ++ p.words)).getLast? = some last := by
      rw [List.getLast?_append, List.getLast?_append, hlast]
      rfl
    have hstays := dropEndWhile_append_of_last hends hlastBlank p.closing
    simp only [List.append_assoc] at hstays
    rw [trim, htext, hkeyword]
    exact hstays
  have hafter : afterKeyword "import" p.text.toList =
      p.gap.chars ++ (p.words ++ trimEnd p.closing) := by
    rw [afterKeyword, htrim, afterStart?_eq_some_iff.mpr rfl]
    rfl
  have hhead : (p.words ++ trimEnd p.closing).head? = some first := by
    rw [List.head?_append, hfirst]
    rfl
  rw [withoutSemicolons, hafter, trim, trimStart_append p.gap.isBlank_of_mem hhead hfirstBlank,
    trimEnd, dropEndWhile_append_of_last hlast hlastBlank, trimEnd, dropEndWhile_dropEndWhile]
  have hstays : (last == ';') = false := beq_eq_false_iff_ne.mpr hsemicolon
  exact dropEndWhile_append_of_last hlast hstays _

/-! ## 4. The closing -/

theorem mem_kept {c : Char} (hc : c ∈ p.kept) : c = ';' ∨ isBlank c = true :=
  p.closes c (mem_of_mem_dropEndWhile (mem_of_mem_dropEndWhile hc))

theorem squeeze_kept_eq_nil_iff : squeeze p.kept = [] ↔ ';' ∉ p.kept := by
  rw [squeeze_eq_nil_iff]
  constructor
  · intro hblank hmem
    exact absurd (hblank ';' hmem) (by decide)
  · intro hnone c hc
    rcases p.mem_kept hc with rfl | hblank
    · exact absurd hc hnone
    · exact hblank

/-- The blanks at the start of a text end at its first semicolon. -/
theorem takeWhile_isBlank_append {front semicolons back : List Char}
    (hfront : ∀ c ∈ front, isBlank c = true) (hsemicolons : ∀ c ∈ semicolons, c = ';')
    (hne : semicolons ≠ []) : (front ++ semicolons ++ back).takeWhile isBlank = front := by
  obtain ⟨c, rest, rfl⟩ := List.exists_cons_of_ne_nil hne
  obtain rfl : c = ';' := hsemicolons c List.mem_cons_self
  rw [List.append_assoc, List.takeWhile_append_of_pos hfront, List.cons_append,
    List.takeWhile_cons_of_neg (by decide), List.append_nil]

/-- Semicolons that stand together go, and only the blanks before them may stay. -/
theorem kept_of_tidyClosing (h : p.TidyClosing) :
    p.kept = if ';' ∈ p.closing then p.closing.takeWhile isBlank else [] := by
  obtain ⟨front, semicolons, back, hclosing, hfront, hsemicolons, hback⟩ := h
  rw [kept, trimEnd, hclosing, dropEndWhile_append_run _ hback]
  cases hs : semicolons.getLast? with
  | none =>
    obtain rfl : semicolons = [] := List.getLast?_eq_none_iff.mp hs
    have hnone : ';' ∉ front ++ [] ++ back := by
      intro hmem
      rw [List.append_nil] at hmem
      rcases List.mem_append.mp hmem with hmem | hmem
      · exact absurd (hfront ';' hmem) (by decide)
      · exact absurd (hback ';' hmem) (by decide)
    rw [if_neg hnone, List.append_nil, dropEndWhile_eq_nil hfront]
    rfl
  | some last =>
    obtain rfl : last = ';' := hsemicolons last (List.mem_of_getLast? hs)
    have hlast : (front ++ semicolons).getLast? = some ';' := by
      rw [List.getLast?_append, hs]
      rfl
    have hmem : ';' ∈ front ++ semicolons ++ back :=
      List.mem_append_left _ (List.mem_append_right _ (List.mem_of_getLast? hs))
    have htrim : dropEndWhile isBlank (front ++ semicolons) = front ++ semicolons :=
      dropEndWhile_of_last hlast (by decide)
    have hfrontStays : dropEndWhile (· == ';') front = front :=
      dropEndWhile_eq_self fun c hc => beq_eq_false_iff_ne.mpr fun heq =>
        absurd (hfront c hc) (by rw [heq]; decide)
    have hrun : (front ++ semicolons ++ back).takeWhile isBlank = front :=
      takeWhile_isBlank_append hfront hsemicolons (List.ne_nil_of_mem (List.mem_of_getLast? hs))
    rw [if_pos hmem, hrun, htrim,
      dropEndWhile_append_run _ fun c hc => beq_iff_eq.mpr (hsemicolons c hc), hfrontStays]

theorem tidyClosing_iff : p.TidyClosing ↔ ';' ∉ p.kept := by
  constructor
  · intro h hmem
    rw [p.kept_of_tidyClosing h] at hmem
    split at hmem
    · exact absurd (List.all_eq_true.mp List.all_takeWhile _ hmem) (by decide)
    · cases hmem
  · intro h
    obtain ⟨back, hclosing, hback⟩ := exists_eq_dropEndWhile_append isBlank p.closing
    obtain ⟨semicolons, htrim, hsemicolons⟩ :=
      exists_eq_dropEndWhile_append (· == ';') (trimEnd p.closing)
    refine ⟨p.kept, semicolons, back, ?_, ?_, ?_, hback⟩
    · rw [kept, ← htrim]
      exact hclosing
    · exact squeeze_eq_nil_iff.mp (p.squeeze_kept_eq_nil_iff.mpr h)
    · intro c hc
      simpa using hsemicolons c hc

/-! ## 5. Cutting at the word `as` -/

/-- A phrase without the word between spaces. -/
theorem ofText_of_not_infix (h : ¬ spacedAs <:+: p.words ++ p.kept) :
    Import.ofText p.text =
      match beforeEnd? ".*".toList (squeeze (p.words ++ p.kept)) with
      | some package => { path := String.ofList package, star := true }
      | none => { path := String.ofList (squeeze (p.words ++ p.kept)) } := by
  have hparts : importParts (p.words ++ p.kept) = (squeeze (p.words ++ p.kept), none) := by
    rw [importParts, show cutWord? " as ".toList _ = none from cutWord?_eq_none_iff.mpr h]
  have hread := Import.ofText.eq_def p.text
  rw [withoutSemicolons_text, hparts] at hread
  exact hread

/-- A phrase with the word between spaces. -/
theorem ofText_of_cutWord? {before after : List Char}
    (h : cutWord? spacedAs (p.words ++ p.kept) = some (before, after)) :
    Import.ofText p.text =
      match beforeEnd? ".*".toList (squeeze before) with
      | some package => { path := String.ofList package, star := true }
      | none => { path := String.ofList (squeeze before)
                  alias? := some (String.ofList (squeeze after)) } := by
  have hparts : importParts (p.words ++ p.kept) = (squeeze before, some (squeeze after)) := by
    rw [importParts, show cutWord? " as ".toList _ = some (before, after) from h]
  have hread := Import.ofText.eq_def p.text
  rw [withoutSemicolons_text, hparts] at hread
  exact hread

theorem notMem_pathChars {c : Char} (hc : c = '*' ∨ c = ';') : c ∉ p.pathChars := by
  have hname : ∀ i : Identifier, c ∉ i.text.toList := by
    intro i hmem
    obtain ⟨-, -, hstar, hsemicolon⟩ := i.plain c hmem
    rcases hc with h | h
    · exact hstar h
    · exact hsemicolon h
  have hgap : ∀ g : Gap, c ∉ g.chars := fun g => g.notMem (by rcases hc with rfl | rfl <;> decide)
  have hdot : c ≠ '.' := by rcases hc with rfl | rfl <;> decide
  intro hmem
  rcases List.mem_append.mp hmem with hmem | hmem
  · exact hname p.first hmem
  · obtain ⟨s, -, hmem⟩ := List.mem_flatMap.mp hmem
    simp only [Selection.chars, List.mem_append, List.mem_cons] at hmem
    rcases hmem with hmem | hmem | hmem | hmem
    · exact hgap s.before hmem
    · exact hdot hmem
    · exact hgap s.after hmem
    · exact hname s.name hmem

/-- A text without a star does not end in one. -/
theorem beforeEnd?_star_eq_none {cs : List Char} (h : '*' ∉ cs) :
    beforeEnd? ".*".toList (squeeze cs) = none := by
  rw [Option.eq_none_iff_forall_ne_some]
  intro package hend
  have hmem : '*' ∈ squeeze cs := by
    rw [beforeEnd?_eq_some_iff.mp hend]
    simp
  exact h (List.mem_of_mem_filter hmem)

theorem notMem_kept {c : Char} (hsemicolon : c ≠ ';') (hblank : isBlank c = false) :
    c ∉ p.kept := by
  intro hmem
  rcases p.mem_kept hmem with h | h
  · exact hsemicolon h
  · rw [hblank] at h
    cases h

/-- Only a star import has a star. -/
theorem star_notMem (h : ∀ before after, p.ending ≠ .star before after) :
    '*' ∉ p.words ++ p.kept := by
  have hpath : '*' ∉ p.pathChars := p.notMem_pathChars (.inl rfl)
  have hkept : '*' ∉ p.kept := p.notMem_kept (by decide) (by decide)
  rw [words]
  cases hending : p.ending with
  | plain => simp [Ending.chars, hpath, hkept]
  | star before after => exact absurd hending (h before after)
  | renamed before after name _ =>
    have hgap : ∀ g : Gap, '*' ∉ g.chars := fun g => g.notMem (by decide)
    have hname : '*' ∉ name.text.toList := fun hmem => (name.plain _ hmem).2.2.1 rfl
    simp [Ending.chars, hpath, hkept, hgap, hname]

/-- **A plain import is read as it is meant** exactly if nothing is left of its closing but blanks,
and the word `as` is not found. -/
theorem ofText_plain_iff (hending : p.ending = .plain) :
    Import.ofText p.text = p.meant ↔ ';' ∉ p.kept ∧ ¬ spacedAs <:+: p.pathChars ++ p.kept := by
  have hwords : p.words = p.pathChars := by rw [words, hending, Ending.chars, List.append_nil]
  have hmeant : p.meant = { path := ".".intercalate p.names } := by rw [meant, hending]
  have hstar : '*' ∉ p.pathChars ++ p.kept := hwords ▸ p.star_notMem (by simp [hending])
  rw [hmeant]
  by_cases hin : spacedAs <:+: p.pathChars ++ p.kept
  · refine iff_of_false ?_ fun h => h.2 hin
    obtain ⟨⟨before, after⟩, hcut⟩ :=
      Option.ne_none_iff_exists'.mp (mt cutWord?_eq_none_iff.mp (not_not.mpr (hwords ▸ hin)))
    rw [p.ofText_of_cutWord? hcut]
    split <;> simp
  · rw [p.ofText_of_not_infix (hwords ▸ hin), hwords, beforeEnd?_star_eq_none hstar,
      squeeze_append, squeeze_pathChars, ← squeeze_kept_eq_nil_iff]
    simp only [hin, not_false_eq_true, and_true, Import.mk.injEq, and_self]
    rw [← String.toList_inj, String.toList_ofList, List.append_right_eq_self]

/-- The word is not found behind a path that a star follows. -/
theorem infix_star_iff (before after : Gap) :
    spacedAs <:+: p.pathChars ++ before.chars ++ '.' :: (after.chars ++ '*' :: p.kept) ↔
      spacedAs <:+: p.pathChars ++ before.chars := by
  rw [infix_append_cons_iff (show '.' ∉ spacedAs by decide), or_iff_left]
  intro hin
  have hmem : 'a' ∈ after.chars ++ '*' :: p.kept := hin.subset (by decide)
  rcases List.mem_append.mp hmem with hmem | hmem
  · exact after.notMem (by decide) hmem
  · rcases List.mem_cons.mp hmem with hmem | hmem
    · exact absurd hmem (by decide)
    · exact p.notMem_kept (by decide) (by decide) hmem

/-- The star stands behind every place where the phrase may be cut. -/
theorem star_notMem_of_cut {before after : Gap} {front back : List Char}
    (h : p.pathChars ++ before.chars ++ '.' :: (after.chars ++ '*' :: p.kept) =
      front ++ spacedAs ++ back) : '*' ∉ front := by
  have hbefore : '*' ∉ p.pathChars ++ before.chars ++ '.' :: after.chars := by
    have hgap : ∀ g : Gap, '*' ∉ g.chars := fun g => g.notMem (by decide)
    simp [p.notMem_pathChars (.inl rfl), hgap]
  have hcut : (p.pathChars ++ before.chars ++ '.' :: after.chars) ++ '*' :: p.kept =
      front ++ (spacedAs ++ back) := by
    simpa using h
  rcases List.append_eq_append_iff.mp hcut with ⟨more, -, hrest⟩ | ⟨more, hfront, -⟩
  · -- the word would stand behind the star, where only blanks and semicolons are
    cases more with
    | nil => exact absurd (List.cons.inj hrest).1 (by decide)
    | cons c more =>
      have hkept : p.kept = more ++ (spacedAs ++ back) := (List.cons.inj hrest).2
      refine absurd ?_ (p.notMem_kept (show 'a' ≠ ';' by decide) (by decide))
      rw [hkept]
      simp [spacedAs]
  · exact fun hmem => hbefore (hfront ▸ List.mem_append_left more hmem)

/-- **A star import is read as it is meant** under the same conditions. -/
theorem ofText_star_iff {before after : Gap} (hending : p.ending = .star before after) :
    Import.ofText p.text = p.meant ↔
      ';' ∉ p.kept ∧ ¬ spacedAs <:+: p.pathChars ++ before.chars := by
  have hbody : p.words ++ p.kept =
      p.pathChars ++ before.chars ++ '.' :: (after.chars ++ '*' :: p.kept) := by
    simp [words, hending, Ending.chars]
  have hmeant : p.meant = { path := ".".intercalate p.names, star := true } := by
    rw [meant, hending]
  rw [hmeant, ← p.infix_star_iff before after, ← hbody]
  by_cases hin : spacedAs <:+: p.words ++ p.kept
  · refine iff_of_false ?_ fun h => h.2 hin
    obtain ⟨⟨front, back⟩, hcut⟩ :=
      Option.ne_none_iff_exists'.mp (mt cutWord?_eq_none_iff.mp (not_not.mpr hin))
    -- the star stands behind the place where the phrase is cut
    have hstar := p.star_notMem_of_cut (hbody.symm.trans (eq_of_cutWord? hcut))
    rw [p.ofText_of_cutWord? hcut, beforeEnd?_star_eq_none hstar]
    simp
  · have hsqueeze : squeeze (p.words ++ p.kept) =
        (".".intercalate p.names).toList ++ ".*".toList ++ squeeze p.kept := by
      rw [hbody, squeeze_append, squeeze_append, squeeze_pathChars, before.squeeze_chars,
        squeeze_cons (by decide), squeeze_append, after.squeeze_chars, squeeze_cons (by decide)]
      simp
    rw [p.ofText_of_not_infix hin, ← squeeze_kept_eq_nil_iff]
    simp only [hin, not_false_eq_true, and_true]
    constructor
    · intro heq
      split at heq
      · next package hend =>
        have hpath : package = (".".intercalate p.names).toList := by
          rw [← String.toList_ofList (l := package)]
          exact congrArg (fun i : Import => i.path.toList) heq
        rw [hsqueeze, beforeEnd?_eq_some_iff, hpath] at hend
        simpa using hend
      · exact absurd (congrArg Import.star heq) Bool.false_ne_true
    · intro hkept
      rw [hsqueeze, hkept, List.append_nil, beforeEnd?_eq_some_iff.mpr rfl]
      simp only [String.ofList_toList]

/-- Two texts that begin with blanks and then go on with another character. -/
theorem blanks_inj {xs ys xs' ys' : List Char} {x y : Char} (hxs : ∀ c ∈ xs, isBlank c = true)
    (hys : ∀ c ∈ ys, isBlank c = true) (hx : isBlank x = false) (hy : isBlank y = false)
    (h : xs ++ x :: xs' = ys ++ y :: ys') : xs = ys ∧ x :: xs' = y :: ys' := by
  have htake := congrArg (List.takeWhile isBlank) h
  rw [List.takeWhile_append_of_pos hxs, List.takeWhile_append_of_pos hys,
    List.takeWhile_cons_of_neg (by simp [hx]), List.takeWhile_cons_of_neg (by simp [hy]),
    List.append_nil, List.append_nil] at htake
  subst htake
  exact ⟨rfl, List.append_cancel_left h⟩

/-- Where the path is read as it stands, only blanks lie between its end and the cut. -/
theorem exists_blanks_of_squeeze_eq {front back rest : List Char}
    (h : front ++ back = p.pathChars ++ rest)
    (hpath : squeeze front = (".".intercalate p.names).toList) :
    ∃ blanks, front = p.pathChars ++ blanks ∧ rest = blanks ++ back ∧
      ∀ c ∈ blanks, isBlank c = true := by
  rw [← squeeze_pathChars] at hpath
  rcases List.append_eq_append_iff.mp h with ⟨more, hmore, hback⟩ | ⟨blanks, hfront, hrest⟩
  · -- a path that goes on would go on with blanks, but it does not end in one
    rw [hmore, squeeze_append, eq_comm, List.append_right_eq_self, squeeze_eq_nil_iff] at hpath
    obtain ⟨c, hc, hblank, -⟩ := p.exists_last_pathChars
    rcases List.eq_nil_or_concat' more with rfl | ⟨init, last, rfl⟩
    · exact ⟨[], by simpa using hmore.symm, by simpa using hback.symm, by simp⟩
    · rw [hmore, ← List.append_assoc, List.getLast?_concat, Option.some.injEq] at hc
      subst hc
      rw [hpath last (by simp)] at hblank
      cases hblank
  · rw [hfront, squeeze_append, List.append_right_eq_self, squeeze_eq_nil_iff] at hpath
    exact ⟨blanks, hfront, hrest, hpath⟩

/-- **Where a phrase that renames is cut**: right before and behind the word `as` that renames, if
the path is read as it stands. -/
theorem cutWord?_renamed_iff {before after : Gap} (hafter : after.chars ≠ [])
    (rest : List Char) {front back : List Char} :
    cutWord? spacedAs (p.pathChars ++ (before.chars ++ 'a' :: 's' :: (after.chars ++ rest))) =
        some (front, back) ∧ squeeze front = (".".intercalate p.names).toList ↔
      ∃ blanks gap, before.chars = blanks ++ [' '] ∧ after.chars = ' ' :: gap ∧
        front = p.pathChars ++ blanks ∧ back = gap ++ rest ∧
        ¬ spacedAs <:+: p.pathChars ++ before.chars := by
  constructor
  · rintro ⟨hcut, hpath⟩
    have hbody := eq_of_cutWord? hcut
    rw [List.append_assoc] at hbody
    obtain ⟨blanks, rfl, hrest, hblanks⟩ := p.exists_blanks_of_squeeze_eq hbody.symm hpath
    have hspace : ∀ c ∈ blanks ++ [' '], isBlank c = true := by
      intro c hc
      rcases List.mem_append.mp hc with hc | hc
      · exact hblanks c hc
      · rw [List.mem_singleton.mp hc]
        decide
    have hrest : before.chars ++ 'a' :: 's' :: (after.chars ++ rest) =
        (blanks ++ [' ']) ++ 'a' :: 's' :: ' ' :: back := by
      simpa [spacedAs] using hrest
    obtain ⟨hbefore, hkeyword⟩ :=
      blanks_inj before.isBlank_of_mem hspace (by decide) (by decide) hrest
    obtain ⟨c, gap, hgap⟩ := List.exists_cons_of_ne_nil hafter
    obtain ⟨rfl, rfl⟩ : c = ' ' ∧ gap ++ rest = back := by simpa [hgap] using hkeyword
    rw [← List.append_assoc] at hcut
    have hlt : (p.pathChars ++ before.chars).length <
        (p.pathChars ++ blanks).length + spacedAs.length := by
      have hfour : spacedAs.length = 4 := rfl
      simp only [hbefore, List.length_append, List.length_singleton, hfour]
      omega
    exact ⟨blanks, gap, hbefore, hgap, rfl, rfl, not_infix_of_cutWord? hcut hlt⟩
  · rintro ⟨blanks, gap, hbefore, hgap, rfl, rfl, hloose⟩
    have hnot : ¬ " as".toList ++ [' '] <:+: p.pathChars ++ blanks ++ " as".toList := by
      intro hin
      have hin : " as".toList ++ [' '] <:+: (p.pathChars ++ before.chars) ++ "as".toList := by
        simpa [hbefore] using hin
      exact hloose (infix_of_infix_append (by decide) hin)
    have hcut := cutWord?_append hnot (gap ++ rest)
    refine ⟨?_, ?_⟩
    · rw [hbefore, hgap]
      simpa [spacedAs] using hcut
    · rw [squeeze_append, squeeze_pathChars, before.squeeze_of_subset (by simp [hbefore]),
        List.append_nil]

/-- **An import with another name is read as it is meant** exactly if spaces stand next to the word
`as`, nothing is left of its closing but blanks, and the word is not found before. -/
theorem ofText_renamed_iff {before after : Gap} {name : Identifier}
    {separate : before.chars ≠ [] ∧ after.chars ≠ []}
    (hending : p.ending = .renamed before after name separate) :
    Import.ofText p.text = p.meant ↔
      (before.chars.getLast? = some ' ' ∧ after.chars.head? = some ' ') ∧
      ';' ∉ p.kept ∧ ¬ spacedAs <:+: p.pathChars ++ before.chars := by
  have hbody : p.words ++ p.kept = p.pathChars ++
      (before.chars ++ 'a' :: 's' :: (after.chars ++ (name.text.toList ++ p.kept))) := by
    simp [words, hending, Ending.chars]
  have hmeant : p.meant = { path := ".".intercalate p.names, alias? := some name.text } := by
    rw [meant, hending]
  have hstar : '*' ∉ p.words ++ p.kept := p.star_notMem (by simp [hending])
  have hback : ∀ gap, (∃ c, after.chars = c :: gap) →
      squeeze (gap ++ (name.text.toList ++ p.kept)) = name.text.toList ++ squeeze p.kept := by
    rintro gap ⟨c, hgap⟩
    rw [squeeze_append, squeeze_append, after.squeeze_of_subset (by simp [hgap]),
      name.squeeze_text, List.nil_append]
  rw [hmeant]
  constructor
  · intro heq
    cases hcut : cutWord? spacedAs (p.words ++ p.kept) with
    | none =>
      rw [p.ofText_of_not_infix (cutWord?_eq_none_iff.mp hcut), beforeEnd?_star_eq_none hstar] at heq
      exact absurd (congrArg Import.alias? heq) (by simp)
    | some cut =>
      obtain ⟨front, back⟩ := cut
      have hfront : '*' ∉ front := by
        rw [eq_of_cutWord? hcut] at hstar
        exact fun hmem => hstar (by simp [hmem])
      rw [p.ofText_of_cutWord? hcut, beforeEnd?_star_eq_none hfront] at heq
      obtain ⟨hpath, halias⟩ : String.ofList (squeeze front) = ".".intercalate p.names ∧
          String.ofList (squeeze back) = name.text := by simpa using heq
      rw [← String.toList_inj, String.toList_ofList] at hpath halias
      rw [hbody] at hcut
      obtain ⟨blanks, gap, hbefore, hgap, -, rfl, hloose⟩ :=
        (p.cutWord?_renamed_iff separate.2 _).mp ⟨hcut, hpath⟩
      rw [hback gap ⟨_, hgap⟩, List.append_right_eq_self, squeeze_kept_eq_nil_iff] at halias
      exact ⟨⟨by simp [hbefore], by simp [hgap]⟩, halias, hloose⟩
  · rintro ⟨⟨hbefore, hafter⟩, hkept, hloose⟩
    obtain ⟨blanks, hblanks⟩ := List.getLast?_eq_some_iff.mp hbefore
    obtain ⟨gap, hgap⟩ := List.head?_eq_some_iff.mp hafter
    obtain ⟨hcut, hpath⟩ := (p.cutWord?_renamed_iff separate.2
      (name.text.toList ++ p.kept)).mpr ⟨blanks, gap, hblanks, hgap, rfl, rfl, hloose⟩
    rw [← hbody] at hcut
    have hfront : '*' ∉ p.pathChars ++ blanks := by
      rw [eq_of_cutWord? hcut] at hstar
      exact fun hmem => hstar (List.mem_append_left _ (List.mem_append_left _ hmem))
    rw [p.ofText_of_cutWord? hcut, beforeEnd?_star_eq_none hfront, hpath, hback gap ⟨_, hgap⟩,
      p.squeeze_kept_eq_nil_iff.mpr hkept, List.append_nil]
    simp only [String.ofList_toList]

/-! ## 6. The names of the path -/

/-- The characters between the names of a path. -/
def isBetween (c : Char) : Bool := isBlank c || c == '.'

/-- A run of such characters gives no name. -/
theorem mem_splitOnP_append {gap rest piece : List Char} (hgap : ∀ c ∈ gap, isBetween c = true)
    (h : piece ∈ (gap ++ rest).splitOnP isBetween) :
    piece = [] ∨ piece ∈ rest.splitOnP isBetween := by
  induction gap with
  | nil => exact .inr h
  | cons c gap ih =>
    have hc := hgap c List.mem_cons_self
    have hcut := List.splitOnP_append_cons [] (gap ++ rest) hc
    rw [List.nil_append, List.splitOnP_nil, List.singleton_append] at hcut
    rw [List.cons_append, hcut] at h
    rcases List.mem_cons.mp h with h | h
    · exact .inl h
    · exact ih (fun d hd => hgap d (List.mem_cons_of_mem _ hd)) h

theorem splitOnP_identifier (i : Identifier) :
    i.text.toList.splitOnP isBetween = [i.text.toList] := by
  refine List.splitOnP_eq_singleton fun c hc => ?_
  obtain ⟨hblank, hdot, -, -⟩ := i.plain c hc
  simp [isBetween, hblank, hdot]

/-- Cut at all such characters, a path and the blanks behind it fall into names. -/
theorem mem_splitOnP_path {names : List String} {blanks : List Char}
    (hblanks : ∀ c ∈ blanks, isBlank c = true) {first : Identifier} {more : List Selection}
    (hfirst : first.text ∈ names) (hmore : ∀ s ∈ more, s.name.text ∈ names) {piece : List Char}
    (h : piece ∈ (first.text.toList ++ (more.flatMap Selection.chars ++ blanks)).splitOnP
      isBetween) : piece = [] ∨ String.ofList piece ∈ names := by
  have hname : ∀ i : Identifier, i.text ∈ names → String.ofList i.text.toList ∈ names :=
    fun i hi => by rwa [String.ofList_toList]
  have hgap : ∀ g : Gap, ∀ c ∈ g.chars, isBetween c = true :=
    fun g c hc => by rw [isBetween, g.isBlank_of_mem c hc]; rfl
  induction more generalizing first with
  | nil =>
    rw [List.flatMap_nil, List.nil_append] at h
    cases blanks with
    | nil =>
      rw [List.append_nil, splitOnP_identifier, List.mem_singleton] at h
      exact .inr (h ▸ hname first hfirst)
    | cons c rest =>
      have hbetween : ∀ d ∈ c :: rest, isBetween d = true :=
        fun d hd => by rw [isBetween, hblanks d hd]; rfl
      rw [List.splitOnP_append_cons _ _ (hbetween c List.mem_cons_self), splitOnP_identifier,
        List.singleton_append] at h
      rcases List.mem_cons.mp h with rfl | h
      · exact .inr (hname first hfirst)
      · rw [← List.append_nil rest] at h
        rcases mem_splitOnP_append (fun d hd => hbetween d (List.mem_cons_of_mem _ hd)) h with h | h
        · exact .inl h
        · exact .inl (List.mem_singleton.mp h)
  | cons s more ih =>
    -- the gap behind the first name holds a dot, so it is cut there
    have hbetween : ∀ c ∈ s.before.chars ++ '.' :: s.after.chars, isBetween c = true := by
      intro c hc
      rcases List.mem_append.mp hc with hc | hc
      · exact hgap s.before c hc
      · rcases List.mem_cons.mp hc with rfl | hc
        · decide
        · exact hgap s.after c hc
    have hpath : first.text.toList ++ ((s :: more).flatMap Selection.chars ++ blanks) =
        first.text.toList ++ ((s.before.chars ++ '.' :: s.after.chars) ++
          (s.name.text.toList ++ (more.flatMap Selection.chars ++ blanks))) := by
      simp [Selection.chars]
    obtain ⟨c, gap, hcons⟩ :=
      List.exists_cons_of_ne_nil (show s.before.chars ++ '.' :: s.after.chars ≠ [] by simp)
    rw [hcons] at hbetween
    rw [hpath, hcons, List.cons_append,
      List.splitOnP_append_cons _ _ (hbetween c List.mem_cons_self), splitOnP_identifier,
      List.singleton_append] at h
    rcases List.mem_cons.mp h with rfl | h
    · exact .inr (hname first hfirst)
    · rcases mem_splitOnP_append (fun d hd => hbetween d (List.mem_cons_of_mem _ hd)) h with h | h
      · exact .inl h
      · exact ih (hmore s List.mem_cons_self)
          (fun s' hs' => hmore s' (List.mem_cons_of_mem _ hs')) h

theorem isBlank_of_mem_gapBehind : ∀ c ∈ p.gapBehind, isBlank c = true := by
  intro c hc
  unfold gapBehind at hc
  split at hc
  · split at hc
    · exact List.all_eq_true.mp List.all_takeWhile c hc
    · cases hc
  · exact Gap.isBlank_of_mem _ c hc
  · exact Gap.isBlank_of_mem _ c hc

/-- **Only a name `as` can be taken for the word that renames.** -/
theorem noLooseAs_of_names (h : ∀ name ∈ p.names, name ≠ "as") : p.NoLooseAs := by
  rintro ⟨front, back, hin⟩
  have hpiece : "as".toList ∈ (p.pathChars ++ p.gapBehind).splitOnP isBetween := by
    have hcut : p.pathChars ++ p.gapBehind = front ++ ' ' :: ("as".toList ++ ' ' :: back) := by
      rw [← hin]
      simp [spacedAs]
    have hword : "as".toList.splitOnP isBetween = ["as".toList] := by decide +kernel
    rw [hcut, List.splitOnP_append_cons _ _ (by decide), List.splitOnP_append_cons _ _ (by decide),
      hword]
    exact List.mem_append_right _ List.mem_cons_self
  rw [pathChars, List.append_assoc] at hpiece
  have hmore : ∀ s ∈ p.more, s.name.text ∈ p.names :=
    fun s hs => List.mem_cons_of_mem _ (List.mem_map_of_mem hs)
  rcases mem_splitOnP_path p.isBlank_of_mem_gapBehind List.mem_cons_self hmore hpiece with hnil | hmem
  · exact absurd hnil (by decide)
  · exact h _ hmem String.ofList_toList

/-! ## 7. Reading a phrase -/

/-- **When an import is read as it is meant**, for every path and every layout of spaces and tabs
around its dots, whether it is plain, a star import or an import with another name, and with any
semicolons and blanks at the end.  It is read as it is meant exactly if spaces stand next to the
word `as` that renames it, no blanks stand between the semicolons at its end, and no name `as` stands
between two spaces in its path; and where no name of the path is `as`, none stands there. -/
theorem ofText_eq_meant_iff (p : ImportPhrase) :
    (Import.ofText p.text = p.meant ↔ p.SpacedKeyword ∧ p.TidyClosing ∧ p.NoLooseAs) ∧
    ((∀ name ∈ p.names, name ≠ "as") → p.NoLooseAs) := by
  refine ⟨?_, p.noLooseAs_of_names⟩
  rw [NoLooseAs, SpacedKeyword, gapBehind]
  cases hending : p.ending with
  | plain =>
    rw [p.ofText_plain_iff hending, ← tidyClosing_iff, true_and]
    refine and_congr_right fun htidy => ?_
    rw [p.kept_of_tidyClosing htidy]
  | star before after => rw [p.ofText_star_iff hending, ← tidyClosing_iff, true_and]
  | renamed before after name separate =>
    rw [p.ofText_renamed_iff hending, ← tidyClosing_iff]

namespace Example

/-- No gap, and a gap of one space, two spaces or one tab. -/
def tight : Gap := ⟨[], by simp⟩

def space : Gap := ⟨[' '], by simp⟩

def spaces : Gap := ⟨[' ', ' '], by simp⟩

def tab : Gap := ⟨['\t'], by simp⟩

/-- A dot without gaps, and a name. -/
def dot (name : Identifier) : Selection := ⟨tight, tight, name⟩

/-- `import a.b.C as D`, with tabs around the word `as`. -/
def tabbed : ImportPhrase where
  gap := space
  first := ⟨"a", by decide⟩
  more := [dot ⟨"b", by decide⟩, dot ⟨"C", by decide⟩]
  ending := .renamed tab tab ⟨"D", by decide⟩ (by decide)
  closing := []
  separate := by decide
  closes := by simp

/-- `import basic . imports.assert as asset ;;`, with a tab before the second dot, two spaces around
the word `as`, and a line end. -/
def spread : ImportPhrase where
  gap := tab
  first := ⟨"basic", by decide⟩
  more := [⟨space, space, ⟨"imports", by decide⟩⟩,
    ⟨tab, tight, ⟨"assert", by decide⟩⟩]
  ending := .renamed spaces spaces ⟨"asset", by decide⟩ (by decide)
  closing := [' ', ';', ';', '\n']
  separate := by decide
  closes := by simp [isBlank]

end Example

/-- **A tab next to the word `as` hides it**: the import is read as a plain one of another path. -/
theorem ofText_tabbed :
    Example.tabbed.text = "import a.b.C\tas\tD" ∧
    Example.tabbed.meant = { path := "a.b.C", alias? := some "D" } ∧
    Import.ofText Example.tabbed.text = { path := "a.b.CasD" } :=
  ⟨by decide +kernel, by decide +kernel, by decide +kernel⟩

/-- Names that begin or end with `as` or `import` are no obstacle. -/
theorem ofText_spread :
    Example.spread.text = "import\tbasic . imports\t.assert  as  asset ;;\n" ∧
    Import.ofText Example.spread.text =
      { path := "basic.imports.assert", alias? := some "asset" } := by
  have hread := (ofText_eq_meant_iff Example.spread).1.mpr
    ⟨⟨rfl, rfl⟩, ⟨[' '], [';', ';'], ['\n'], rfl, by simp [isBlank], by simp, by simp [isBlank]⟩,
      (ofText_eq_meant_iff Example.spread).2 (by decide)⟩
  exact ⟨by decide +kernel, hread.trans (by decide +kernel)⟩

end ImportPhrase

end SpecOutline
