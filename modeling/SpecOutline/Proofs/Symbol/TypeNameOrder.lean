/-
# The order in which a simple type name is looked up

A simple type name may mean a type nested in a class around it, what an import binds it to, a
type of the file's own package, a type of a star import's package, or a type without package, in
this order.  `Tree.candidates` writes the order down as a list of qualified names, and
`firstMeaning?` takes the first that counts: what an import binds the name to counts in any case,
all other names only if such a type is known.

* The resolver follows a list of this form (`simple?_eq_firstMeaning?`).
* In a file with a package it is the list of the rule.  A file without a package is in the package
  without a name, so by the rule its own types come before those of star imports; but the resolver
  has no candidate of its own package there, and comes to the types without package at the end.
  It departs from the rule exactly if a star import offers the name as well, and nothing before
  both does (`StarHidesOwn`, `typeNamed?_eq_rule_iff`).
-/
import Mathlib.Data.List.TakeWhile
import SpecOutline.Library.Framework
import SpecOutline.Proofs.Symbol.Declarations

namespace SpecOutline

open SpecOutline.Text

/-! ## 1. Candidates -/

/-- A qualified name that a simple name may mean, and whether it counts only if a type of that
name is known. -/
structure Candidate where
  name : String
  onlyIfKnown : Bool
deriving Repr, DecidableEq

/-- Whether a candidate counts. -/
def Candidate.counts (knows : String → Bool) (c : Candidate) : Bool :=
  !c.onlyIfKnown || knows c.name

/-- The name of the first candidate that counts. -/
def firstMeaning? (knows : String → Bool) (candidates : List Candidate) : Option String :=
  (candidates.find? (Candidate.counts knows)).map (·.name)

namespace Tree

/-- The candidates in the classes around a place, innermost first. -/
def nestedCandidates (t : Tree) (context : NodeId) (name : String) : List Candidate :=
  ((t.view.ancestors context).filter (· ∈ t.classes)).map fun outer =>
    ⟨dotted (t.qualifiedName outer) name, true⟩

/-- What the imports bind a name to, in file order. -/
def importCandidates (t : Tree) (name : String) : List Candidate :=
  (t.imports.filter fun i => i.boundName? == some name).map fun i => ⟨i.path, false⟩

/-- The candidates in the packages of star imports, in file order. -/
def starCandidates (t : Tree) (name : String) : List Candidate :=
  (t.imports.filter (·.star)).map fun i => ⟨dotted i.path name, true⟩

/-- All candidates, `own` being those of the file's own package. -/
def candidates (t : Tree) (own : List String) (context : NodeId) (name : String) :
    List Candidate :=
  (t.nestedCandidates context name ++ t.importCandidates name) ++ own.map (⟨·, true⟩)
    ++ t.starCandidates name ++ [⟨name, true⟩]

/-- The qualified name of a type of the file's own package. -/
def ownTypeName (t : Tree) (name : String) : String :=
  match t.package? with
  | some package => dotted package name
  | none => name

/-- The same, where the file declares its package. -/
def packageTypeNames (t : Tree) (name : String) : List String :=
  (t.package?.map (dotted · name)).toList

end Tree

/-! ## 2. The first candidate that counts -/

section First

variable {knows : String → Bool} {α : Type}

theorem firstMeaning?_cons (c : Candidate) (cs : List Candidate) :
    firstMeaning? knows (c :: cs) =
      if c.counts knows then some c.name else firstMeaning? knows cs := by
  rw [firstMeaning?, List.find?_cons]
  cases c.counts knows <;> rfl

theorem firstMeaning?_append (cs ds : List Candidate) :
    firstMeaning? knows (cs ++ ds) = (firstMeaning? knows cs).or (firstMeaning? knows ds) := by
  rw [firstMeaning?, List.find?_append, Option.map_or]
  rfl

/-- Among candidates that need a known type, the first known name counts. -/
theorem firstMeaning?_map_known (f : α → String) (as : List α) :
    firstMeaning? knows (as.map fun a => ⟨f a, true⟩) =
      as.findSome? fun a => if knows (f a) then some (f a) else none := by
  induction as with
  | nil => rfl
  | cons a as ih =>
    rw [List.map_cons, firstMeaning?_cons, ih, List.findSome?_cons]
    cases hk : knows (f a) <;> simp [Candidate.counts, hk]

/-- Among candidates that count in any case, the first counts. -/
theorem firstMeaning?_map_always (f : α → String) (as : List α) :
    firstMeaning? knows (as.map fun a => ⟨f a, false⟩) = as.head?.map f := by
  cases as with
  | nil => rfl
  | cons a as => rw [List.map_cons, firstMeaning?_cons]; rfl

/-- A single candidate that needs a known type. -/
theorem firstMeaning?_known (name : String) :
    firstMeaning? knows [⟨name, true⟩] = if knows name then some name else none := by
  rw [firstMeaning?_cons]
  simp only [Candidate.counts, Bool.not_true, Bool.false_or]
  rfl

/-- The parts of the list of candidates, one after the other. -/
theorem firstMeaning?_candidates (t : Tree) (own : List String) (context : NodeId)
    (name : String) :
    firstMeaning? knows (t.candidates own context name) =
      (firstMeaning? knows (t.nestedCandidates context name ++ t.importCandidates name)).or
        ((firstMeaning? knows (own.map (⟨·, true⟩))).or
          ((firstMeaning? knows (t.starCandidates name)).or
            (if knows name then some name else none))) := by
  rw [Tree.candidates, firstMeaning?_append, firstMeaning?_append, firstMeaning?_append,
    firstMeaning?_known, Option.or_assoc, Option.or_assoc]

end First

/-! ## 3. The resolver follows a list of candidates -/

namespace TypeNames

variable {t : Tree} {library : Library} {context : NodeId} {name : String}

/-- A name is known to the resolver exactly if the type table knows it. -/
theorem contains_known_of (t : Tree) (library : Library) (name : String) :
    (of t library).known.contains name = (Index.build t library).types.knows name := by
  rw [Bool.eq_iff_iff, List.contains_iff_mem, Index.knows_build_iff, of]
  simp only [List.mem_append, List.mem_map, List.map_map, Function.comp]
  exact or_comm

theorem known?_of (t : Tree) (library : Library) (name : String) :
    (of t library).known? name =
      if (Index.build t library).types.knows name then some name else none := by
  rw [known?, contains_known_of]

theorem nested?_eq_firstMeaning? :
    (of t library).nested? context name =
      firstMeaning? (Index.build t library).types.knows (t.nestedCandidates context name) := by
  rw [Tree.nestedCandidates, firstMeaning?_map_known, nested?, tree_of]
  induction t.view.ancestors context with
  | nil => rfl
  | cons a as ih =>
    rw [List.findSome?_cons, Index.lookup_classes, ih]
    by_cases ha : a ∈ t.classes
    · simp only [ha, if_true, Option.bind_some, known?_of, decide_true, List.filter_cons_of_pos,
        List.findSome?_cons]
    · simp only [ha, if_false, Option.bind_none, decide_false, Bool.false_eq_true,
        not_false_eq_true, List.filter_cons_of_neg]

theorem imported?_eq_firstMeaning? (knows : String → Bool) :
    (of t library).imported? name = firstMeaning? knows (t.importCandidates name) := by
  rw [Tree.importCandidates, firstMeaning?_map_always, List.head?_filter, imported?]
  rfl

theorem inPackage?_eq_firstMeaning? :
    (of t library).inPackage? name =
      firstMeaning? (Index.build t library).types.knows
        ((t.packageTypeNames name).map (⟨·, true⟩)) := by
  rw [inPackage?, tree_of, Tree.packageTypeNames]
  cases t.package? with
  | none => rfl
  | some package =>
    rw [Option.bind_some, known?_of, Option.map_some, Option.toList_some, List.map_singleton,
      firstMeaning?_known]

theorem starImported?_eq_firstMeaning? :
    (of t library).starImported? name =
      firstMeaning? (Index.build t library).types.knows (t.starCandidates name) := by
  rw [Tree.starCandidates, firstMeaning?_map_known, starImported?]
  simp only [known?_of]
  rfl

/-- **The meaning of a simple name is the first candidate that counts**, where a file without a
package has no candidate of its own package. -/
theorem simple?_eq_firstMeaning? (t : Tree) (library : Library) (context : NodeId)
    (name : String) :
    (of t library).simple? context name =
      firstMeaning? (Index.build t library).types.knows
        (t.candidates (t.packageTypeNames name) context name) := by
  rw [simple?, nested?_eq_firstMeaning?,
    imported?_eq_firstMeaning? (Index.build t library).types.knows, inPackage?_eq_firstMeaning?,
    starImported?_eq_firstMeaning?, known?_of, firstMeaning?_candidates, firstMeaning?_append,
    Option.or_assoc]

/-! ## 4. Simple names as written -/

/-- A name that is written without a dot, type arguments, question marks and blanks. -/
def IsSimple (name : String) : Prop :=
  name ≠ "" ∧ ∀ c ∈ name.toList,
    c ≠ '.' ∧ c ≠ '<' ∧ c ≠ '>' ∧ c ≠ '?' ∧ isBlank c = false

-- the instance is given by name: the search for one may try all characters there are
instance : DecidablePred IsSimple := fun name =>
  @instDecidableAnd _ _ inferInstance (List.decidableBAll _ name.toList)

/-- Nothing is taken out of such a name, whatever follows it. -/
theorem bareTypeName_append {cs : List Char}
    (h : ∀ c ∈ cs, c ≠ '<' ∧ c ≠ '>' ∧ c ≠ '?' ∧ isBlank c = false) (rest : List Char) :
    bareTypeName 0 (cs ++ rest) = cs ++ bareTypeName 0 rest := by
  induction cs with
  | nil => rfl
  | cons c cs ih =>
    obtain ⟨hl, hr, hq, hb⟩ := h c List.mem_cons_self
    rw [List.cons_append, bareTypeName, if_neg hl, if_neg hr, if_neg (by simp [hq, hb]),
      ih fun d hd => h d (List.mem_cons_of_mem _ hd), List.cons_append]

theorem bareTypeName_eq_self {cs : List Char}
    (h : ∀ c ∈ cs, c ≠ '<' ∧ c ≠ '>' ∧ c ≠ '?' ∧ isBlank c = false) :
    bareTypeName 0 cs = cs := by
  have hwhole := bareTypeName_append h []
  rwa [List.append_nil, bareTypeName, List.append_nil] at hwhole

/-- A text without the separator is not cut. -/
theorem cutFirst?_eq_none {sep : Char} {cs : List Char} (h : ∀ c ∈ cs, c ≠ sep) :
    cutFirst? sep cs = none := by
  have hdrop : cs.dropWhile (· != sep) = [] := by
    rw [List.dropWhile_eq_nil_iff]
    exact fun c hc => bne_iff_ne.mpr (h c hc)
  rw [cutFirst?, hdrop]

/-- **A simple name as written is looked up as it is.** -/
theorem resolve?_of_isSimple (n : TypeNames) (context : NodeId) (h : IsSimple name) :
    n.resolve? context name = n.simple? context name := by
  obtain ⟨hne, hchars⟩ := h
  have hbare : bareTypeName 0 name.toList = name.toList :=
    bareTypeName_eq_self fun c hc => (hchars c hc).2
  have hcut : cutFirst? '.' name.toList = none := cutFirst?_eq_none fun c hc => (hchars c hc).1
  have hempty : name.toList.isEmpty = false := by
    rw [List.isEmpty_eq_false_iff]
    exact fun hnil => hne (String.toList_eq_nil_iff.mp hnil)
  simp only [resolve?, hbare, hcut, hempty, String.ofList_toList, Bool.false_eq_true, if_false]

end TypeNames

/-! ## 5. The rule and the resolver -/

namespace Index

/-- A star import comes before the own type of a file without a package: nothing nearer gives
the name a meaning, and both the star import and the file do. -/
structure StarHidesOwn (t : Tree) (knows : String → Bool) (context : NodeId) (name : String) :
    Prop where
  no_package : t.package? = none
  own_known : knows name = true
  none_nearer :
    firstMeaning? knows (t.nestedCandidates context name ++ t.importCandidates name) = none
  star_known : ∃ i ∈ t.imports, i.star = true ∧ knows (dotted i.path name) = true

/-- A name with a package in front is another name. -/
theorem dotted_ne_self (outer name : String) : dotted outer name ≠ name := by
  intro h
  have hlen := congrArg String.length h
  simp only [dotted, String.length_append] at hlen
  have : ".".length = 1 := rfl
  omega

variable {t : Tree} {knows : String → Bool} {name : String}

/-- What a star import gives a name is a known name other than it. -/
theorem of_firstMeaning?_starCandidates {meaning : String}
    (h : firstMeaning? knows (t.starCandidates name) = some meaning) :
    meaning ≠ name ∧ ∃ i ∈ t.imports, i.star = true ∧ knows (dotted i.path name) = true := by
  rw [Tree.starCandidates, firstMeaning?_map_known] at h
  obtain ⟨i, hi, hsome⟩ := List.exists_of_findSome?_eq_some h
  obtain ⟨hmem, hstar⟩ := List.mem_filter.mp hi
  obtain ⟨hk, hsome⟩ := Option.ite_none_right_eq_some.mp hsome
  obtain rfl : dotted i.path name = meaning := Option.some.inj hsome
  exact ⟨dotted_ne_self i.path name, i, hmem, hstar, hk⟩

/-- Without such a meaning no star import offers the name. -/
theorem not_of_firstMeaning?_starCandidates
    (h : firstMeaning? knows (t.starCandidates name) = none) :
    ¬ ∃ i ∈ t.imports, i.star = true ∧ knows (dotted i.path name) = true := by
  rw [Tree.starCandidates, firstMeaning?_map_known, List.findSome?_eq_none_iff] at h
  rintro ⟨i, hmem, hstar, hk⟩
  have := h i (List.mem_filter.mpr ⟨hmem, hstar⟩)
  rw [if_pos hk] at this
  cases this

/-- **The two lists of candidates give the same meaning unless a star import comes first.** -/
theorem firstMeaning?_own_iff (knows : String → Bool) (context : NodeId) (name : String) :
    firstMeaning? knows (t.candidates (t.packageTypeNames name) context name) =
        firstMeaning? knows (t.candidates [t.ownTypeName name] context name) ↔
      ¬ StarHidesOwn t knows context name := by
  cases hp : t.package? with
  | some package =>
    -- both lists are the same
    rw [Tree.packageTypeNames, Tree.ownTypeName, hp]
    refine iff_of_true rfl fun h => ?_
    have := h.no_package
    rw [hp] at this
    cases this
  | none =>
    have hpackage : t.packageTypeNames name = [] := by rw [Tree.packageTypeNames, hp]; rfl
    have hown : t.ownTypeName name = name := by rw [Tree.ownTypeName, hp]
    rw [hpackage, hown, firstMeaning?_candidates, firstMeaning?_candidates, List.map_nil,
      List.map_singleton, firstMeaning?_known, show firstMeaning? knows [] = none from rfl,
      Option.none_or]
    cases hnear :
        firstMeaning? knows (t.nestedCandidates context name ++ t.importCandidates name) with
    | some meaning =>
      refine iff_of_true rfl fun h => ?_
      have := h.none_nearer
      rw [hnear] at this
      cases this
    | none =>
      cases hk : knows name with
      | false =>
        refine iff_of_true rfl fun h => ?_
        have := h.own_known
        rw [hk] at this
        cases this
      | true =>
        cases hstar : firstMeaning? knows (t.starCandidates name) with
        | none =>
          exact iff_of_true rfl fun h => not_of_firstMeaning?_starCandidates hstar h.star_known
        | some meaning =>
          obtain ⟨hne, hoffers⟩ := of_firstMeaning?_starCandidates hstar
          exact iff_of_false (fun he => hne (Option.some.inj he))
            fun h => h ⟨hp, hk, hnear, hoffers⟩

/-- **When a simple type name means what the rule says**, for every tree, library and place.  The
meaning of the name is the first that counts of: the types nested in the classes around the
place, innermost first; what imports bind the name to, in file order; the type of the package
that the file declares; the types of the star imports, in file order; and the type without
package.  By the rule a file that declares no package has its own types, too, before the star
imports.  The two agree exactly if no star import hides an own type of a file without a
package. -/
theorem typeNamed?_eq_rule_iff (t : Tree) (library : Library) (context : NodeId) {name : String}
    (h : TypeNames.IsSimple name) :
    (build t library).resolver.typeNamed? context name =
        firstMeaning? (build t library).types.knows
          (t.candidates (t.packageTypeNames name) context name) ∧
    ((build t library).resolver.typeNamed? context name =
        firstMeaning? (build t library).types.knows
          (t.candidates [t.ownTypeName name] context name) ↔
      ¬ StarHidesOwn t (build t library).types.knows context name) := by
  have hresolve : (build t library).resolver.typeNamed? context name =
      firstMeaning? (build t library).types.knows
        (t.candidates (t.packageTypeNames name) context name) := by
    rw [← TypeNames.simple?_eq_firstMeaning?]
    exact TypeNames.resolve?_of_isSimple _ context h
  refine ⟨hresolve, ?_⟩
  rw [hresolve]
  exact firstMeaning?_own_iff _ context name

namespace Example

/-- A file with a star import of the framework and a class `Spek` of its own, at place 2. -/
def ownSpek (package? : Option String) : Tree :=
  (Tree.inPackage package?).afterAll
    [.addImport { path := "org.jetbrains.spek.api", star := true },
      .addClass Tree.root { name := "Spek" }]

end Example

/-- **A star import can hide a type of the file**: in a file without a package the class `Spek` of
the file is known, but its name means the class of the framework. -/
theorem typeNamed?_ownSpek_none :
    (build (Example.ownSpek none) .framework).resolver.typeNamed? 2 "Spek" =
      some "org.jetbrains.spek.api.Spek" ∧
    firstMeaning? (build (Example.ownSpek none) .framework).types.knows
      ((Example.ownSpek none).candidates [(Example.ownSpek none).ownTypeName "Spek"] 2 "Spek") =
        some "Spek" :=
  ⟨by decide +kernel, by decide +kernel⟩

/-- In a package the class of the file comes first. -/
theorem typeNamed?_ownSpek_some :
    TypeNames.IsSimple "Spek" ∧
    (build (Example.ownSpek (some "com.example")) .framework).resolver.typeNamed? 2 "Spek" =
      some "com.example.Spek" := by
  have hsimple : TypeNames.IsSimple "Spek" := by decide
  have hmeaning := (typeNamed?_eq_rule_iff (Example.ownSpek (some "com.example")) .framework 2
    hsimple).2.mpr fun h => absurd h.no_package (by decide +kernel)
  exact ⟨hsimple, hmeaning.trans (by decide +kernel)⟩

end Index

end SpecOutline
