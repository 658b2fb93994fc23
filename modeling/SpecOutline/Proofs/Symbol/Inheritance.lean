/-
# Inheritance is reachability

`leadsTo` searches the supertype graph with a queue, and takes an entry out of the table when it
has used it.  Here the search goes away: a class inherits another exactly if they have different
names and one or more supertype edges lead from the first to the second (`inherits_iff`).

* **Sound.**  The search looks only at names in the queue and at supertypes of names it has
  looked at, and a table with fewer entries has fewer edges.
* **Complete.**  Taking an entry out cuts ways, but none that matters: the supertypes of the name
  go into the queue, so that a way through the name is found from where it last leaves it
  (`avoids_or_leaves`).

Circles need no care of their own: no way is asked to be free of repetition.  A spec class is
read off the graph in the same manner (`isSpec_iff`).
-/
import Mathlib.Logic.Relation
import SpecOutline.Suite.SpecClass
import SpecOutline.Symbol.Index

namespace SpecOutline

open Relation

/-! ## 1. Taking out an entry -/

namespace TypeTable

variable {table : TypeTable} {name child parent target : String}

/-- A name that was taken out is unknown. -/
theorem find?_without_self (table : TypeTable) (name : String) :
    (table.without name).find? name = none := by
  rw [find?, List.lookup_eq_none_iff]
  intro e he
  have hne : e.1 ≠ name := by simpa using (List.mem_filter.mp he).2
  exact bne_iff_ne.mpr hne.symm

/-- All other names keep their entries. -/
theorem find?_without_of_ne (table : TypeTable) (hne : child ≠ name) :
    (table.without name).find? child = table.find? child := by
  induction table with
  | nil => rfl
  | cons e es ih =>
    obtain ⟨key, entry⟩ := e
    rw [find?, without] at ih
    by_cases hkey : key = name
    · -- the entry goes, and the look-up did not stop at it
      have hmiss : (child == key) = false := beq_eq_false_iff_ne.mpr (hkey ▸ hne)
      have hgone : (key != name) = false := by simpa using hkey
      rw [without, List.filter_cons_of_neg (by simpa using hgone), find?, ih, find?, find?,
        List.lookup_cons, hmiss]
    · have hstays : (key != name) = true := by simpa using hkey
      rw [without, List.filter_cons_of_pos (by simpa using hstays), find?, find?,
        List.lookup_cons, List.lookup_cons, ih]
      rfl

/-- **Taking out a name takes out the edges that start there**, and no others. -/
theorem edge_without_iff :
    Edge (table.without name) child parent ↔ child ≠ name ∧ Edge table child parent := by
  constructor
  · rintro ⟨entry, hfind, hmem⟩
    have hne : child ≠ name := by
      rintro rfl
      rw [find?_without_self] at hfind
      cases hfind
    rw [find?_without_of_ne table hne] at hfind
    exact ⟨hne, entry, hfind, hmem⟩
  · rintro ⟨hne, entry, hfind, hmem⟩
    exact ⟨entry, by rw [find?_without_of_ne table hne]; exact hfind, hmem⟩

/-- What a smaller table leads to, the table leads to. -/
theorem reaches_of_without (h : ReflTransGen (Edge (table.without name)) child target) :
    ReflTransGen (Edge table) child target := by
  have hsub : ∀ a b, Edge (table.without name) a b → Edge table a b :=
    fun _ _ he => (edge_without_iff.mp he).2
  exact ReflTransGen.mono hsub _ _ h

/-- **A way either avoids a name or leaves it for the last time**, and from there on avoids it. -/
theorem avoids_or_leaves (name : String) (h : ReflTransGen (Edge table) child target) :
    ReflTransGen (Edge (table.without name)) child target ∨
      ∃ next, Edge table name next ∧ ReflTransGen (Edge (table.without name)) next target := by
  induction h using ReflTransGen.head_induction_on with
  | refl => exact Or.inl .refl
  | @head child next hedge _ ih =>
    rcases ih with havoids | hleaves
    · by_cases hname : child = name
      · subst hname
        exact Or.inr ⟨next, hedge, havoids⟩
      · exact Or.inl (.head (edge_without_iff.mpr ⟨hname, hedge⟩) havoids)
    · exact Or.inr hleaves

/-- A name that an edge starts from is known. -/
theorem knows_of_edge (h : Edge table child parent) : table.knows child = true := by
  obtain ⟨entry, hfind, -⟩ := h
  rw [knows, hfind]
  rfl

/-- From an unknown name only the name itself is reached. -/
theorem eq_of_reaches_of_find?_none (hfind : table.find? name = none)
    (h : ReflTransGen (Edge table) name target) : name = target := by
  rcases h.cases_head with heq | ⟨next, ⟨entry, hentry, -⟩, -⟩
  · exact heq
  · rw [hfind] at hentry
    cases hentry

/-! ## 2. The search -/

/-- One step of the search: a name gives way to its supertypes. -/
theorem reaches_from_cons_iff {rest : List String} {entry : TypeEntry} (hne : name ≠ target)
    (hfind : table.find? name = some entry) :
    (∃ n ∈ rest ++ entry.supertypes, ReflTransGen (Edge (table.without name)) n target) ↔
      ∃ n ∈ name :: rest, ReflTransGen (Edge table) n target := by
  constructor
  · rintro ⟨n, hn, hway⟩
    rcases List.mem_append.mp hn with hrest | hsuper
    · exact ⟨n, List.mem_cons_of_mem _ hrest, reaches_of_without hway⟩
    · have hedge : Edge table name n := ⟨entry, hfind, hsuper⟩
      exact ⟨name, List.mem_cons_self, .head hedge (reaches_of_without hway)⟩
  · rintro ⟨n, hn, hway⟩
    rcases avoids_or_leaves name hway with havoids | ⟨next, ⟨entry', hentry, hnext⟩, hway'⟩
    · rcases List.mem_cons.mp hn with rfl | hrest
      · -- a way from the name itself cannot avoid it
        exact absurd (eq_of_reaches_of_find?_none (find?_without_self table n) havoids) hne
      · exact ⟨n, List.mem_append_left _ hrest, havoids⟩
    · obtain rfl : entry = entry' := Option.some.inj (hfind.symm.trans hentry)
      exact ⟨next, List.mem_append_right _ hnext, hway'⟩

/-- **The search finds exactly what some name of the queue leads to.** -/
theorem leadsTo_iff (target : String) (table : TypeTable) (queue : List String) :
    leadsTo target table queue = true ↔
      ∃ name ∈ queue, ReflTransGen (Edge table) name target := by
  induction table, queue using leadsTo.induct target with
  | case1 table => simp [leadsTo]
  | case2 table rest =>
    rw [leadsTo, if_pos rfl]
    exact iff_of_true rfl ⟨target, List.mem_cons_self, .refl⟩
  | case3 table name rest hne hfind ih =>
    rw [leadsTo, if_neg hne]
    split
    · rw [ih]
      constructor
      · rintro ⟨n, hn, hway⟩
        exact ⟨n, List.mem_cons_of_mem _ hn, hway⟩
      · rintro ⟨n, hn, hway⟩
        rcases List.mem_cons.mp hn with rfl | hrest
        · exact absurd (eq_of_reaches_of_find?_none hfind hway) hne
        · exact ⟨n, hrest, hway⟩
    · next entry hentry => rw [hfind] at hentry; cases hentry
  | case4 table name rest hne entry hfind ih =>
    rw [leadsTo, if_neg hne]
    split
    · next hnone => rw [hfind] at hnone; cases hnone
    · next entry' hentry =>
      obtain rfl : entry = entry' := Option.some.inj (hfind.symm.trans hentry)
      rw [ih]
      exact reaches_from_cons_iff hne hfind

/-- **A type inherits another exactly if one or more edges lead there**, and the two have
different names. -/
theorem inherits_iff {name base : String} :
    table.inherits name base = true ↔
      name ≠ base ∧ table.knows name = true ∧ TransGen (Edge table) name base := by
  rw [inherits, Bool.and_eq_true, bne_iff_ne, Option.any_eq_true]
  refine and_congr_right fun _ => ?_
  constructor
  · rintro ⟨entry, hfind, hleads⟩
    obtain ⟨next, hnext, hway⟩ := (leadsTo_iff base table entry.supertypes).mp hleads
    have hedge : Edge table name next := ⟨entry, hfind, hnext⟩
    exact ⟨knows_of_edge hedge, .head' hedge hway⟩
  · rintro ⟨-, hway⟩
    obtain ⟨next, ⟨entry, hfind, hnext⟩, hway⟩ := TransGen.head'_iff.mp hway
    exact ⟨entry, hfind, (leadsTo_iff base table entry.supertypes).mpr ⟨next, hnext, hway⟩⟩

end TypeTable

/-! ## 3. Spec classes -/

/-- A class is found exactly if its name is known and visible. -/
theorem Index.findClass?_eq_some_iff {x : Index} {name : String} {scope : Scope}
    {c : ClassSymbol} :
    x.findClass? name scope = some c ↔ ∃ entry, x.types.find? name = some entry ∧
      scope.sees entry.modules = true ∧
      c = { qualifiedName := name, isAbstract := entry.isAbstract, scope,
            declaration? := entry.declaration? } := by
  rw [findClass?]
  cases hfind : x.types.find? name with
  | none => simp
  | some entry =>
    cases hsees : scope.sees entry.modules with
    | false => simp [hsees]
    | true => simp only [hsees, if_true, Option.some.injEq, true_and, exists_eq_left', eq_comm]

namespace Suite

/-- **A spec class is a concrete class below a visible marker class.** -/
theorem isSpec_iff {x : Index} {c : ClassSymbol} :
    isSpec x.resolver c = true ↔ c.isAbstract = false ∧
      (∃ entry, x.types.find? marker = some entry ∧ c.scope.sees entry.modules = true) ∧
      x.types.inherits c.qualifiedName marker = true := by
  rw [isSpec, Index.findClass?_resolver]
  cases hfind : x.findClass? marker c.scope with
  | none =>
    refine iff_of_false Bool.false_ne_true ?_
    rintro ⟨-, ⟨entry, hentry, hsees⟩, -⟩
    have := Index.findClass?_eq_some_iff.mpr ⟨entry, hentry, hsees, rfl⟩
    rw [hfind] at this
    cases this
  | some base =>
    obtain ⟨entry, hentry, hsees, rfl⟩ := Index.findClass?_eq_some_iff.mp hfind
    rw [Bool.and_eq_true, Bool.not_eq_true']
    refine and_congr_right fun _ => ?_
    exact ⟨fun h => ⟨⟨entry, hentry, hsees⟩, h⟩, fun h => h.2⟩

/-- **Inheritance is reachability**, in the index of every tree and library.  A class inherits
another exactly if its name is known and differs from that of the other, and one or more
supertype edges of the index lead from the one name to the other, whatever circles, repeats and
unknown names the graph has.  So a class is a spec class exactly if it is concrete, the marker
class is known and visible from where the class was found, and such edges lead from the class to
the marker class, which is another class. -/
theorem inherits_iff_transGen (t : Tree) (library : Library) (c b : ClassSymbol) :
    ((Index.build t library).inherits c b = true ↔
      c.qualifiedName ≠ b.qualifiedName ∧
      (Index.build t library).types.knows c.qualifiedName = true ∧
      TransGen (Index.build t library).types.Edge c.qualifiedName b.qualifiedName) ∧
    (isSpec (Index.build t library).resolver c = true ↔
      c.isAbstract = false ∧
      (∃ entry, (Index.build t library).types.find? marker = some entry ∧
        c.scope.sees entry.modules = true) ∧
      c.qualifiedName ≠ marker ∧
      TransGen (Index.build t library).types.Edge c.qualifiedName marker) := by
  refine ⟨TypeTable.inherits_iff, ?_⟩
  rw [isSpec_iff, TypeTable.inherits_iff]
  refine and_congr_right fun _ => and_congr_right fun _ => and_congr_right fun _ => ?_
  refine and_iff_right_of_imp fun hway => ?_
  obtain ⟨next, hedge, -⟩ := TransGen.head'_iff.mp hway
  exact TypeTable.knows_of_edge hedge

end Suite

end SpecOutline
