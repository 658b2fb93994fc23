/-
# Direct supertypes

One edge is the shortest way to a supertype (`inherits_of_inheritsDirectly`).  So a class with the
marker class among its direct supertypes is a spec class, and it owns what stands in it
(`owner?_of_inheritsDirectly`).  The direct supertypes are read off the table, without a search.
-/
import SpecOutline.Proofs.Symbol.Inheritance

namespace SpecOutline

/-! ## 1. One edge -/

/-- A direct supertype is a supertype. -/
theorem TypeTable.inherits_of_inheritsDirectly {table : TypeTable} {name base : String}
    (h : table.inheritsDirectly name base = true) : table.inherits name base = true := by
  rw [inheritsDirectly, Bool.and_eq_true, bne_iff_ne, Option.any_eq_true] at h
  obtain ⟨hne, entry, hfind, hmem⟩ := h
  have hedge : Edge table name base := ⟨entry, hfind, List.contains_iff_mem.mp hmem⟩
  exact inherits_iff.mpr ⟨hne, knows_of_edge hedge, .single hedge⟩

/-! ## 2. Owners -/

namespace Suite

/-- A concrete class with the marker class among its direct supertypes is a spec class. -/
theorem isSpec_of_inheritsDirectly {x : Index} {c base : ClassSymbol}
    (hbase : x.findClass? marker c.scope = some base) (hconcrete : c.isAbstract = false)
    (hdirect : x.inheritsDirectly c base = true) : isSpec x.resolver c = true := by
  have hinherits : x.inherits c base = true := TypeTable.inherits_of_inheritsDirectly hdirect
  simp only [isSpec, Index.findClass?_resolver, hbase, hconcrete, Index.inherits_resolver,
    hinherits]
  rfl

/-- **What stands in such a class is owned by it.** -/
theorem owner?_of_inheritsDirectly {v : View} {x : Index} {id declaration : NodeId}
    {c base : ClassSymbol} (hclass : v.enclosingClass? id = some declaration)
    (hsymbol : x.classOf? declaration = some c)
    (hbase : x.findClass? marker c.scope = some base) (hconcrete : c.isAbstract = false)
    (hdirect : x.inheritsDirectly c base = true) : owner? v x.resolver id = some c := by
  rw [owner?, hclass, Option.bind_some, Index.classOf?_resolver, hsymbol, Option.filter_some,
    isSpec_of_inheritsDirectly hbase hconcrete hdirect]
  rfl

namespace Example

/-- The class `FooSpec`, declared at place 3 of a file. -/
def fooSpec : ClassSymbol :=
  { qualifiedName := "com.example.FooSpec", isAbstract := false, declaration? := some 3 }

/-- Whether an index has the marker class directly above `FooSpec`. -/
def knowsFooSpec (x : Index) : Bool :=
  decide (x.classOf? 3 = some fooSpec ∧
    x.findClass? marker .project = some { qualifiedName := marker, isAbstract := true } ∧
    x.inheritsDirectly fooSpec { qualifiedName := marker, isAbstract := true } = true)

theorem owner?_fooSpec {v : View} {x : Index} {id : NodeId}
    (hclass : v.enclosingClass? id = some 3) (hx : knowsFooSpec x = true) :
    owner? v x.resolver id = some fooSpec := by
  obtain ⟨hsymbol, hbase, hdirect⟩ := of_decide_eq_true hx
  exact owner?_of_inheritsDirectly hclass hsymbol hbase rfl hdirect

end Example

end Suite

end SpecOutline
