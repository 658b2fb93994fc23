/-
# The supertype graph

A table of types by qualified name; where a name stands twice, the entry nearer the front
counts.  `leadsTo` is the queue of `is_inheritor`: it searches the supertypes of some names for a
name, whatever circles, repeats and unknown names the table holds.  Each entry is used at most
once, by taking it out of the table where `is_inheritor` keeps the names it has visited.
-/
import SpecOutline.Tree.Basic

namespace SpecOutline

/-! ## 1. The table -/

/-- What is known of a type. -/
structure TypeEntry where
  supertypes : List String
  isAbstract : Bool
  modules : List String
  declaration? : Option NodeId
deriving Repr, DecidableEq

/-- Types by qualified name. -/
abbrev TypeTable := List (String × TypeEntry)

namespace TypeTable

/-- The entry of a name. -/
def find? (table : TypeTable) (name : String) : Option TypeEntry := table.lookup name

/-- Whether a name is known. -/
def knows (table : TypeTable) (name : String) : Bool := (table.find? name).isSome

/-- The table without a name. -/
def without (table : TypeTable) (name : String) : TypeTable :=
  table.filter fun e => e.1 != name

/-- Taking out a name that is there makes the table shorter. -/
theorem length_without_lt {table : TypeTable} {name : String} {entry : TypeEntry}
    (h : table.find? name = some entry) : (table.without name).length < table.length := by
  induction table with
  | nil => simp [find?] at h
  | cons e es ih =>
    obtain ⟨key, value⟩ := e
    by_cases hn : key = name
    · have := List.length_filter_le (fun e : String × TypeEntry => e.1 != name) es
      simp only [without, List.filter_cons, hn, bne_self_eq_false, List.length_cons] at this ⊢
      simp only [Bool.false_eq_true, if_false]
      omega
    · have hl : find? es name = some entry := by
        have hb : (name == key) = false := by simpa using fun he => hn he.symm
        simpa [find?, List.lookup_cons, hb] using h
      have hk : (key != name) = true := by simpa using hn
      have := ih hl
      simp only [without, List.filter_cons, hk, if_true, List.length_cons] at this ⊢
      omega

/-! ## 2. Searching upwards -/

/-- Whether some name of `queue`, or one that its supertypes lead to through the entries of
the table, is `target`. -/
def leadsTo (target : String) (table : TypeTable) (queue : List String) : Bool :=
  match queue with
  | [] => false
  | name :: rest =>
    if name = target then true
    else match _h : table.find? name with
      | none => leadsTo target table rest
      | some entry => leadsTo target (table.without name) (rest ++ entry.supertypes)
termination_by (table.length, queue.length)
decreasing_by
  · exact Prod.Lex.right _ (by simp)
  · exact Prod.Lex.left _ _ (length_without_lt _h)

/-- `child` records `parent` among its direct supertypes. -/
def Edge (table : TypeTable) (child parent : String) : Prop :=
  ∃ entry, table.find? child = some entry ∧ parent ∈ entry.supertypes

/-- Whether `base` is among the direct supertypes of another type. -/
def inheritsDirectly (table : TypeTable) (name base : String) : Bool :=
  name != base && (table.find? name).any fun entry => entry.supertypes.contains base

/-- Whether one or more steps to a supertype lead from a known type to another. -/
def inherits (table : TypeTable) (name base : String) : Bool :=
  name != base && (table.find? name).any fun entry => leadsTo base table entry.supertypes

end TypeTable

end SpecOutline
