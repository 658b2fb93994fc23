/-
# Going up and down a linked tree

Both walks of a tree are cut at a number of steps.  Here the cuts go away.

* In a `Grounded` view the ancestors of a node are its parent and the ancestors of its parent
  (`ancestors_of_parent?`), and the class around a node is its parent or the class around its
  parent (`enclosingClass?_of_parent?`).  A `Linked` tree is grounded: going up, places get
  smaller (`Linked.grounded`).
* In a `Linked` tree the descendants of a node are the node and the descendants of its
  children in order (`descendants_eq`): going down, places get larger.  Nothing of the table
  is missed (`mem_descendants_root`), so that `findAll` finds every node of a kind
  (`mem_findAll`).
* The walks read nothing but links: where those are the same, so are the walks
  (`ancestors_congr`, `descendants_congr`).
-/
import Mathlib.Data.List.Basic
import SpecOutline.Proofs.Tree.Linked
import SpecOutline.Tree.Traversal
import SpecOutline.Tree.View

namespace SpecOutline

/-! ## 1. Chains -/

/-- A chain that has ended does not grow with the number of steps. -/
theorem chain_eq_of_length_le {next : NodeId → Option NodeId} {n m : Nat} {id : NodeId}
    (h : (chain next (n + 1) id).length ≤ n) (hm : n ≤ m) :
    chain next m id = chain next n id := by
  induction n generalizing m id with
  | zero =>
    have hnext : next id = none := by
      cases hn : next id with
      | none => rfl
      | some p => simp [chain, hn] at h
    cases m with
    | zero => rfl
    | succ m => simp [chain, hnext]
  | succ n ih =>
    obtain ⟨m, rfl⟩ : ∃ k, m = k + 1 := ⟨m - 1, by omega⟩
    cases hn : next id with
    | none => simp [chain, hn]
    | some p =>
      have hp : (chain next (n + 1) p).length ≤ n := by
        rw [chain, hn] at h
        simpa using h
      rw [chain, chain, hn]
      exact congrArg (p :: ·) (ih hp (by omega))

namespace View

variable {v : View} {id p : NodeId}

/-- A chain that ends within the height of a view is seen whole, whatever more steps are
allowed. -/
theorem EndsFrom.chain_eq (h : v.EndsFrom id) {m : Nat} (hm : v.height ≤ m + 1) :
    chain v.parent? m id = v.ancestors id := by
  obtain ⟨n, hn, hl⟩ := h
  rw [ancestors, chain_eq_of_length_le hl (Nat.le_of_lt hn),
    chain_eq_of_length_le hl (by omega : n ≤ m)]

theorem Grounded.height_pos (hv : v.Grounded) : 0 < v.height := by
  obtain ⟨n, hn, -⟩ := hv 0
  omega

/-- Nothing has as many ancestors as the view is high. -/
theorem Grounded.length_ancestors_lt (hv : v.Grounded) (id : NodeId) :
    (v.ancestors id).length < v.height := by
  obtain ⟨n, hn, hl⟩ := hv id
  rw [ancestors, chain_eq_of_length_le hl (Nat.le_of_lt hn),
    ← chain_eq_of_length_le hl (Nat.le_succ n)]
  exact Nat.lt_of_le_of_lt hl hn

/-- **The ancestors of a node are its parent and the ancestors of its parent.** -/
theorem ancestors_of_parent? (hv : v.Grounded) (hp : v.parent? id = some p) :
    v.ancestors id = p :: v.ancestors p := by
  obtain ⟨m, hm⟩ : ∃ m, v.height = m + 1 := ⟨v.height - 1, by have := hv.height_pos; omega⟩
  rw [ancestors, hm, chain, hp]
  exact congrArg (p :: ·) ((hv p).chain_eq (by omega))

theorem ancestors_of_parent?_none (hp : v.parent? id = none) : v.ancestors id = [] := by
  rw [ancestors]
  cases v.height with
  | zero => rfl
  | succ m => rw [chain, hp]

/-- **The class around a node is its parent, if that is a class, and else the class around its
parent.** -/
theorem enclosingClass?_of_parent? (hv : v.Grounded) (hp : v.parent? id = some p) :
    v.enclosingClass? id =
      if v.kindIs Kind.isClass p then some p else v.enclosingClass? p := by
  rw [enclosingClass?, ancestors_of_parent? hv hp, List.find?_cons, enclosingClass?]
  cases v.kindIs Kind.isClass p <;> rfl

/-- Going up past a node that is no class does not change the class around. -/
theorem enclosingClass?_skip (hv : v.Grounded) (hp : v.parent? id = some p)
    (hk : v.kindIs Kind.isClass p = false) : v.enclosingClass? id = v.enclosingClass? p := by
  rw [enclosingClass?_of_parent? hv hp, hk]
  rfl

/-- A parent that satisfies a condition on kinds is a parent, and its kind does so. -/
theorem parentIf?_eq_some_iff {f : Kind → Bool} :
    v.parentIf? id f = some p ↔ v.parent? id = some p ∧ v.kindIs f p = true := by
  rw [parentIf?, Option.filter_eq_some_iff]

end View

/-! ## 2. Up a linked tree -/

namespace Tree

/-- Going up, places get smaller, so a chain has at most as many links as its place says. -/
theorem Linked.length_chain_le {t : Tree} (h : t.Linked) (m : Nat) (id : NodeId) :
    (chain t.parent? m id).length ≤ id := by
  induction m generalizing id with
  | zero => exact Nat.zero_le id
  | succ m ih =>
    cases hp : t.parent? id with
    | none => simp [chain, hp]
    | some p =>
      have hlt : p < id := h.lt_of_parent? hp
      rw [chain, hp, List.length_cons]
      exact Nat.lt_of_le_of_lt (ih p) hlt

/-- **No parent chain of a linked tree is cut.** -/
theorem Linked.grounded {t : Tree} (h : t.Linked) : t.view.Grounded := by
  intro id
  rcases Nat.lt_or_ge id t.size with hid | hid
  · exact ⟨id, Nat.lt_succ_of_lt hid, h.length_chain_le _ id⟩
  · have hp : t.parent? id = none := by rw [parent?, get?_eq_none_of_le hid]; rfl
    refine ⟨0, Nat.succ_pos _, ?_⟩
    have hc : chain t.view.parent? 1 id = [] := by
      rw [chain, show t.view.parent? id = none from hp]
    rw [hc]
    exact Nat.le_refl 0

/-! ## 3. Down a linked tree -/

variable {t : Tree}

/-- Going down, places get larger, so any two numbers of levels that reach the end of the table
list the same nodes. -/
theorem Linked.preorder_eq (h : t.Linked) {d e : Nat} {id : NodeId} (hd : t.size ≤ id + d)
    (he : t.size ≤ id + e) : t.preorder d id = t.preorder e id := by
  induction d generalizing e id with
  | zero =>
    have hn : t.get? id = none := get?_eq_none_of_le hd
    cases e with
    | zero => rfl
    | succ e => simp [preorder, hn]
  | succ d ih =>
    cases hn : t.get? id with
    | none =>
      cases e with
      | zero => simp [preorder, hn]
      | succ e => simp [preorder, hn]
    | some node =>
      have hlt : id < t.size := lt_size_of_get? hn
      obtain ⟨e, rfl⟩ : ∃ k, e = k + 1 := ⟨e - 1, by unfold NodeId at *; omega⟩
      simp only [preorder, hn]
      refine congrArg (id :: ·) (List.flatMap_congr fun c hc => ih ?_ ?_)
      all_goals
        have hlt' : id < c := h.lt_of_mem_children (by rw [children_of_get? hn]; exact hc)
        unfold NodeId at *
        omega

/-- **The descendants of a node are the node and the descendants of its children.** -/
theorem Linked.descendants_eq (h : t.Linked) {id : NodeId} (hid : id < t.size) :
    t.descendants id = id :: (t.children id).flatMap t.descendants := by
  obtain ⟨node, hn⟩ := get?_eq_some_iff_lt.mpr hid
  obtain ⟨m, hm⟩ : ∃ m, t.size = m + 1 := ⟨t.size - 1, by have := h.size_pos; omega⟩
  rw [descendants, hm, preorder, hn, children_of_get? hn]
  refine congrArg (id :: ·) (List.flatMap_congr fun c hc => h.preorder_eq ?_ ?_)
  all_goals
    have hlt : id < c := h.lt_of_mem_children (by rw [children_of_get? hn]; exact hc)
    unfold NodeId at *
    omega

theorem Linked.mem_descendants_self (h : t.Linked) {id : NodeId} (hid : id < t.size) :
    id ∈ t.descendants id := by
  rw [h.descendants_eq hid]
  exact List.mem_cons_self

/-- Induction from the leaves: a property that passes from the children of a node to the node
holds everywhere. -/
theorem Linked.bottom_up (h : t.Linked) {P : NodeId → Prop}
    (step : ∀ id < t.size, (∀ c ∈ t.children id, P c) → P id) : ∀ id < t.size, P id := by
  have key : ∀ n id, id < t.size → t.size ≤ id + n → P id := by
    intro n
    induction n with
    | zero => intro id hid hn; exact absurd hid (Nat.not_lt.mpr hn)
    | succ n ih =>
      intro id hid hn
      refine step id hid fun c hc => ih c (h.lt_size_of_mem_children hc) ?_
      have hlt := h.lt_of_mem_children hc
      unfold NodeId at *
      omega
  exact fun id hid => key t.size id hid (Nat.le_add_left _ _)

/-- The children of a descendant are descendants. -/
theorem Linked.mem_descendants_of_mem_children (h : t.Linked) : ∀ a < t.size,
    ∀ {b c : NodeId}, b ∈ t.descendants a → c ∈ t.children b → c ∈ t.descendants a := by
  refine h.bottom_up fun a ha ih b c hb hc => ?_
  rw [h.descendants_eq ha, List.mem_cons, List.mem_flatMap] at hb ⊢
  rcases hb with rfl | ⟨a', ha', hb⟩
  · exact Or.inr ⟨c, hc, h.mem_descendants_self (h.lt_size_of_mem_children hc)⟩
  · exact Or.inr ⟨a', ha', ih a' ha' hb hc⟩

/-- **Every node of the table is below the file.** -/
theorem Linked.mem_descendants_root (h : t.Linked) {id : NodeId} (hid : id < t.size) :
    id ∈ t.descendants root := by
  induction id using Nat.strongRecOn with
  | ind id ih =>
    rcases Nat.eq_zero_or_pos id with rfl | hpos
    · exact h.mem_descendants_self hid
    · obtain ⟨p, hlt, hp⟩ := h.parent_lt id hpos hid
      exact h.mem_descendants_of_mem_children root h.size_pos (ih p hlt (Nat.lt_trans hlt hid))
        ((h.mem_children p id).mpr hp)

/-- **A search of the file finds every node whose kind satisfies the condition.** -/
theorem Linked.mem_findAll (h : t.Linked) {f : Kind → Bool} {id : NodeId} :
    id ∈ t.findAll f ↔ ∃ kind, t.kind? id = some kind ∧ f kind = true := by
  rw [findAll, List.mem_filter, Option.any_eq_true]
  constructor
  · exact fun hid => hid.2
  · rintro ⟨kind, hk, hf⟩
    obtain ⟨node, hn, -⟩ := Option.map_eq_some_iff.mp hk
    exact ⟨h.mem_descendants_root (lt_size_of_get? hn), kind, hk, hf⟩

/-- The nearest class around a node is a class of the file. -/
theorem Linked.mem_classes_of_enclosingClass? (h : t.Linked) {id d : NodeId}
    (hd : t.view.enclosingClass? id = some d) : d ∈ t.classes := by
  have hclass : t.view.kindIs Kind.isClass d = true := List.find?_some hd
  obtain ⟨kind, hk, hc⟩ := (Option.any_eq_true _ _).mp hclass
  exact h.mem_findAll.mpr ⟨kind, hk, hc⟩

/-! ## 4. Trees with the same links -/

/-- One level of a way down, by the children of the node. -/
theorem preorder_succ (t : Tree) (depth : Nat) (id : NodeId) :
    t.preorder (depth + 1) id =
      if id < t.size then id :: (t.children id).flatMap (t.preorder depth) else [] := by
  cases hn : t.get? id with
  | none =>
    have hid : ¬ id < t.size := fun hlt => by
      obtain ⟨node, hnode⟩ := get?_eq_some_iff_lt.mpr hlt
      rw [hn] at hnode
      cases hnode
    simp only [preorder, hn, if_neg hid]
  | some node =>
    simp only [preorder, hn, if_pos (lt_size_of_get? hn), children_of_get? hn]

section Congr

variable {u : Tree} (hsize : u.size = t.size)
include hsize

/-- Ways up depend on parents only. -/
theorem ancestors_congr (hparent : ∀ id, u.parent? id = t.parent? id) (id : NodeId) :
    u.view.ancestors id = t.view.ancestors id := by
  have hparent : u.parent? = t.parent? := funext hparent
  simp only [View.ancestors, view, hparent, hsize]

/-- Ways down depend on children only. -/
theorem descendants_congr (hchildren : ∀ id, u.children id = t.children id) (id : NodeId) :
    u.descendants id = t.descendants id := by
  have hpreorder : ∀ depth id, u.preorder depth id = t.preorder depth id := by
    intro depth
    induction depth with
    | zero => exact fun _ => rfl
    | succ depth ih =>
      intro id
      rw [preorder_succ, preorder_succ, hsize, hchildren, funext ih]
  rw [descendants, descendants, hsize, hpreorder]

end Congr

/-- The import at a node. -/
def import? (t : Tree) (id : NodeId) : Option Import :=
  (t.kind? id).bind fun
    | .importing directive => some directive
    | _ => none

/-- The imports of a file, place by place. -/
theorem imports_eq_filterMap (t : Tree) :
    t.imports = (List.range t.size).filterMap t.import? := by
  have hnodes : t.nodes.toList.map some = (List.range t.size).map t.get? := by
    refine List.ext_getElem (by simp [size]) fun id h _ => ?_
    simp only [List.length_map, Array.length_toList] at h
    simp [get?, h]
  have himport : t.import? = (fun node? : Option Node => (node?.map (·.kind)).bind fun
      | .importing directive => some directive
      | _ => none) ∘ t.get? := rfl
  rw [himport, ← List.filterMap_map, ← hnodes, List.filterMap_map]
  rfl

end Tree

end SpecOutline
