/-
# Document order

Going down from a node and going up to it name the same structure in a linked tree.

* A node is among the descendants of another exactly if it is that node or has it among its
  ancestors (`Linked.mem_descendants_iff`).  Siblings have no descendants in common, because a way
  up passes one child of a node at most (`Linked.eq_of_mem_wayToRoot`); so nothing is listed twice
  (`Linked.nodup_descendants`), and the descendants of the file are all the nodes, in some order
  (`Linked.descendants_root_perm`).
* The list can be made with a stack (`Walk`): take the node on top off, list it, and put its
  children on, the last one first.  Each turn lists the first node of those that the stack owes,
  and the stack owes the others from then on (`Walk.owed_eq_cons`); so the walk ends, and it ends
  with the descendants of the node it started from (`Linked.walk_ends`).
-/
import Mathlib.Data.List.Nodup
import Mathlib.Logic.Relation
import SpecOutline.Proofs.Tree.Sequences
import SpecOutline.Proofs.Tree.Walks

namespace SpecOutline.Tree

variable {t : Tree}

/-! ## 1. Ancestors and descendants -/

namespace Linked

variable (h : t.Linked) {id n c p : NodeId}
include h

theorem ancestors_of_parent? (hp : t.parent? n = some p) :
    t.view.ancestors n = p :: t.view.ancestors p :=
  View.ancestors_of_parent? h.grounded hp

/-- Induction from the file: a property that passes from the parent of a node to the node holds
everywhere. -/
theorem top_down {P : NodeId → Prop} (orphan : ∀ id, t.parent? id = none → P id)
    (step : ∀ id p, t.parent? id = some p → P p → P id) : ∀ id, P id := by
  intro id
  induction id using Nat.strongRecOn with
  | ind id ih =>
    cases hp : t.parent? id with
    | none => exact orphan id hp
    | some p => exact step id p hp (ih p (h.lt_of_parent? hp))

/-- Ancestors come before a node. -/
theorem lt_of_mem_ancestors : ∀ n, id ∈ t.view.ancestors n → id < n := by
  refine h.top_down ?_ ?_
  · intro n hn hid
    rw [View.ancestors_of_parent?_none hn] at hid
    cases hid
  · intro n p hp ih hid
    rw [h.ancestors_of_parent? hp] at hid
    rcases List.mem_cons.mp hid with rfl | hid
    · exact h.lt_of_parent? hp
    · exact Nat.lt_trans (ih hid) (h.lt_of_parent? hp)

/-- The parent of an ancestor is an ancestor. -/
theorem mem_ancestors_of_parent? (hp : t.parent? c = some p) :
    ∀ n, c ∈ t.view.ancestors n → p ∈ t.view.ancestors n := by
  refine h.top_down ?_ ?_
  · intro n hn hc
    rw [View.ancestors_of_parent?_none hn] at hc
    cases hc
  · intro n q hq ih hc
    rw [h.ancestors_of_parent? hq] at hc ⊢
    rcases List.mem_cons.mp hc with rfl | hc
    · rw [h.ancestors_of_parent? hp]
      exact List.mem_cons_of_mem _ List.mem_cons_self
    · exact List.mem_cons_of_mem _ (ih hc)

/-- What is below a node has it among its ancestors. -/
theorem mem_ancestors_of_mem_descendants : ∀ id < t.size, ∀ {n}, n ∈ t.descendants id →
    n = id ∨ id ∈ t.view.ancestors n := by
  refine h.bottom_up fun id hid ih n hn => ?_
  rw [h.descendants_eq hid] at hn
  rcases List.mem_cons.mp hn with rfl | hn
  · exact .inl rfl
  · obtain ⟨c, hc, hn⟩ := List.mem_flatMap.mp hn
    have hparent : t.parent? c = some id := (h.mem_children id c).mp hc
    rcases ih c hc hn with rfl | hn
    · exact .inr (by rw [h.ancestors_of_parent? hparent]; exact List.mem_cons_self)
    · exact .inr (h.mem_ancestors_of_parent? hparent n hn)

/-- A node is below its ancestors. -/
theorem mem_descendants_of_mem_ancestors (hid : id < t.size) :
    ∀ n, id ∈ t.view.ancestors n → n ∈ t.descendants id := by
  refine h.top_down ?_ ?_
  · intro n hp hn
    rw [View.ancestors_of_parent?_none hp] at hn
    cases hn
  · intro n p hp ih hn
    rw [h.ancestors_of_parent? hp] at hn
    have hc : n ∈ t.children p := (h.mem_children p n).mpr hp
    refine h.mem_descendants_of_mem_children id hid ?_ hc
    rcases List.mem_cons.mp hn with rfl | hn
    · exact h.mem_descendants_self hid
    · exact ih hn

/-- **Down and up agree.** -/
theorem mem_descendants_iff (hid : id < t.size) :
    n ∈ t.descendants id ↔ n = id ∨ id ∈ t.view.ancestors n := by
  refine ⟨h.mem_ancestors_of_mem_descendants id hid, ?_⟩
  rintro (rfl | hn)
  · exact h.mem_descendants_self hid
  · exact h.mem_descendants_of_mem_ancestors hid n hn

theorem le_of_mem_descendants (hid : id < t.size) (hn : n ∈ t.descendants id) : id ≤ n := by
  rcases (h.mem_descendants_iff hid).mp hn with rfl | hn
  · exact Nat.le_refl _
  · exact Nat.le_of_lt (h.lt_of_mem_ancestors n hn)

/-! ## 2. Nothing twice -/

/-- **A way up passes one child of a node at most.** -/
theorem eq_of_mem_wayToRoot {c₁ c₂ : NodeId} (h₁ : t.parent? c₁ = some p)
    (h₂ : t.parent? c₂ = some p) :
    ∀ n, c₁ ∈ n :: t.view.ancestors n → c₂ ∈ n :: t.view.ancestors n → c₁ = c₂ := by
  -- a child of `p` that comes before another one on the way is not above `p` itself
  have key : ∀ {a b : NodeId}, t.parent? a = some p → t.parent? b = some p →
      b ∉ t.view.ancestors a := by
    intro a b ha hb hmem
    rw [h.ancestors_of_parent? ha] at hmem
    have hlt : p < b := h.lt_of_parent? hb
    rcases List.mem_cons.mp hmem with rfl | hmem
    · exact Nat.lt_irrefl _ hlt
    · exact Nat.lt_asymm hlt (h.lt_of_mem_ancestors p hmem)
  refine h.top_down ?_ ?_
  · intro n hn hm₁ hm₂
    rw [View.ancestors_of_parent?_none hn] at hm₁ hm₂
    rw [List.mem_singleton.mp hm₁, List.mem_singleton.mp hm₂]
  · intro n q hq ih hm₁ hm₂
    rcases List.mem_cons.mp hm₁ with rfl | hm₁
    · rcases List.mem_cons.mp hm₂ with rfl | hm₂
      · rfl
      · exact absurd hm₂ (key h₁ h₂)
    · rcases List.mem_cons.mp hm₂ with rfl | hm₂
      · exact absurd hm₁ (key h₂ h₁)
      · rw [h.ancestors_of_parent? hq] at hm₁ hm₂
        exact ih hm₁ hm₂

/-- Different children of a node have no descendants in common. -/
theorem disjoint_descendants {c₁ c₂ : NodeId} (h₁ : c₁ ∈ t.children p) (h₂ : c₂ ∈ t.children p)
    (hne : c₁ ≠ c₂) : (t.descendants c₁).Disjoint (t.descendants c₂) := by
  intro n hn₁ hn₂
  have hway : ∀ c ∈ t.children p, n ∈ t.descendants c → c ∈ n :: t.view.ancestors n := by
    intro c hc hn
    rcases (h.mem_descendants_iff (h.lt_size_of_mem_children hc)).mp hn with rfl | hn
    · exact List.mem_cons_self
    · exact List.mem_cons_of_mem _ hn
  exact hne (h.eq_of_mem_wayToRoot ((h.mem_children p c₁).mp h₁) ((h.mem_children p c₂).mp h₂) n
    (hway c₁ h₁ hn₁) (hway c₂ h₂ hn₂))

/-- **No node is listed twice.** -/
theorem nodup_descendants : ∀ id < t.size, (t.descendants id).Nodup := by
  refine h.bottom_up fun id hid ih => ?_
  rw [h.descendants_eq hid, List.nodup_cons]
  constructor
  · intro hmem
    obtain ⟨c, hc, hn⟩ := List.mem_flatMap.mp hmem
    have hle := h.le_of_mem_descendants (h.lt_size_of_mem_children hc) hn
    exact Nat.lt_irrefl _ (Nat.lt_of_lt_of_le (h.lt_of_mem_children hc) hle)
  · refine List.nodup_flatMap.mpr ⟨ih, ?_⟩
    refine (h.sorted id).imp_of_mem fun {c₁ c₂} h₁ h₂ hlt => ?_
    exact h.disjoint_descendants h₁ h₂ (Nat.ne_of_lt hlt)

theorem lt_size_of_mem_descendants : ∀ id < t.size, n ∈ t.descendants id → n < t.size := by
  refine h.bottom_up fun id hid ih hn => ?_
  rw [h.descendants_eq hid] at hn
  rcases List.mem_cons.mp hn with rfl | hn
  · exact hid
  · obtain ⟨c, hc, hn⟩ := List.mem_flatMap.mp hn
    exact ih c hc hn

/-- **The descendants of the file are all the nodes.** -/
theorem descendants_root_perm : (t.descendants root).Perm (List.range t.size) := by
  refine (List.perm_ext_iff_of_nodup (h.nodup_descendants root h.size_pos)
    List.nodup_range).mpr fun n => ?_
  rw [List.mem_range]
  exact ⟨h.lt_size_of_mem_descendants root h.size_pos, h.mem_descendants_root⟩

theorem nodup_findAll (f : Kind → Bool) : (t.findAll f).Nodup :=
  (h.nodup_descendants root h.size_pos).filter _

theorem mem_calls : n ∈ t.calls ↔ t.kind? n = some .call := by
  rw [calls, h.mem_findAll]
  constructor
  · rintro ⟨kind, hk, hcall⟩
    cases kind with
    | call => exact hk
    | _ => cases hcall
  · exact fun hk => ⟨.call, hk, rfl⟩

end Linked

/-! ## 3. Walks with a stack -/

/-- A walk under way: the nodes listed so far, and a stack of those to come, the top last. -/
structure Walk where
  listed : List NodeId
  stack : List NodeId

namespace Walk

/-- A turn of a walk: the top of the stack goes and is listed, and its children come on the stack,
the last one first.  A place without a node just goes. -/
def turn? (t : Tree) (w : Walk) : Option Walk :=
  w.stack.getLast?.map fun id =>
    match t.get? id with
    | none => { w with stack := w.stack.dropLast }
    | some node =>
      { listed := w.listed ++ [id], stack := w.stack.dropLast ++ node.children.reverse }

/-- One turn leads from a walk to the next. -/
def Turn (t : Tree) (w w' : Walk) : Prop := w.turn? t = some w'

/-- What a stack owes: the descendants of all that is on it, from the top. -/
def owed (t : Tree) (stack : List NodeId) : List NodeId := stack.reverse.flatMap t.descendants

/-- A node on top of the stack is listed. -/
theorem turn_of_lt {listed stack : List NodeId} {id : NodeId} (hid : id < t.size) :
    Turn t ⟨listed, stack ++ [id]⟩ ⟨listed ++ [id], stack ++ (t.children id).reverse⟩ := by
  obtain ⟨node, hn⟩ := get?_eq_some_iff_lt.mpr hid
  simp [Turn, turn?, hn, children_of_get? hn]

/-- What lies on top is owed first. -/
theorem owed_append (t : Tree) (below above : List NodeId) :
    owed t (below ++ above) = owed t above ++ owed t below := by
  rw [owed, List.reverse_append, List.flatMap_append, owed, owed]

/-- **The turn lists the first node that was owed**, and still owes the others. -/
theorem owed_eq_cons (h : t.Linked) (stack : List NodeId) {id : NodeId} (hid : id < t.size) :
    owed t (stack ++ [id]) = id :: owed t (stack ++ (t.children id).reverse) := by
  have htop : owed t [id] = id :: owed t (t.children id).reverse := by
    rw [owed, List.reverse_singleton, List.flatMap_singleton, h.descendants_eq hid, owed,
      List.reverse_reverse]
  rw [owed_append, htop, owed_append, List.cons_append]

end Walk

/-- **A walk ends, and has then listed all that it owed.** -/
theorem Linked.walk_ends (h : t.Linked) (listed : List NodeId) {stack : List NodeId}
    (hstack : ∀ id ∈ stack, id < t.size) :
    Relation.ReflTransGen (Walk.Turn t) ⟨listed, stack⟩ ⟨listed ++ Walk.owed t stack, []⟩ := by
  -- the induction is on the number of nodes owed: every turn owes one less
  induction hn : (Walk.owed t stack).length generalizing listed stack with
  | zero =>
    rcases List.eq_nil_or_concat' stack with rfl | ⟨stack, id, rfl⟩
    · simpa [Walk.owed] using Relation.ReflTransGen.refl
    · rw [Walk.owed_eq_cons h stack (hstack id (by simp))] at hn
      cases hn
  | succ n ih =>
    rcases List.eq_nil_or_concat' stack with rfl | ⟨stack, id, rfl⟩
    · cases hn
    · have hid : id < t.size := hstack id (by simp)
      have hstack' : ∀ c ∈ stack ++ (t.children id).reverse, c < t.size := by
        intro c hc
        rcases List.mem_append.mp hc with hc | hc
        · exact hstack c (List.mem_append_left _ hc)
        · exact h.lt_size_of_mem_children (List.mem_reverse.mp hc)
      rw [Walk.owed_eq_cons h stack hid] at hn ⊢
      have hrest := ih (listed ++ [id]) hstack' (Nat.succ.inj hn)
      rw [List.append_assoc, List.singleton_append] at hrest
      exact .head (Walk.turn_of_lt hid) hrest

/-! ## 4. Trees built step by step -/

/-- **Down and up agree in every tree that steps have built.**  A walk with a stack from a node of
the tree ends, and has then listed the descendants of the node: each once, the node first and then
the descendants of its children in order.  They are the node and those that have it among their
ancestors.  From the file, all nodes of the tree are listed; so a search for nodes of a kind misses
none and repeats none. -/
theorem descendants_built {t : Tree} (ht : t.Built) {id : NodeId} (hid : id < t.size) :
    Relation.ReflTransGen (Walk.Turn t) ⟨[], [id]⟩ ⟨t.descendants id, []⟩ ∧
    (t.descendants id).Nodup ∧
    t.descendants id = id :: (t.children id).flatMap t.descendants ∧
    (∀ n, n ∈ t.descendants id ↔ n = id ∨ id ∈ t.view.ancestors n) ∧
    (t.descendants root).Perm (List.range t.size) ∧
    (∀ p, (t.findAll p).Nodup ∧
      ∀ n, n ∈ t.findAll p ↔ ∃ kind, t.kind? n = some kind ∧ p kind = true) ∧
    t.calls.Nodup ∧ ∀ n, n ∈ t.calls ↔ t.kind? n = some .call := by
  have h := ht.linked
  have hwalk : Relation.ReflTransGen (Walk.Turn t) ⟨[], [id]⟩ _ :=
    h.walk_ends [] (List.forall_mem_singleton.mpr hid)
  refine ⟨by simpa [Walk.owed] using hwalk, h.nodup_descendants id hid, h.descendants_eq hid,
    fun n => h.mem_descendants_iff hid, h.descendants_root_perm, ?_, ?_⟩
  · exact fun p => ⟨h.nodup_findAll p, fun n => h.mem_findAll⟩
  · exact ⟨h.nodup_findAll _, fun n => h.mem_calls⟩

namespace Example

/-- A function, a call behind it, and then an annotation of the function. -/
def outOfOrder : Tree :=
  (inPackage none).afterAll
    [.addFunction root { name := "f" }, .addCall root "g", .annotate 1 "Ignore"]

theorem built_outOfOrder : outOfOrder.Built := (Built.inPackage none).afterAll (by decide)

end Example

/-- The annotation at place 4 stands before the call at place 2. -/
theorem descendants_outOfOrder : Example.outOfOrder.Built ∧ root < Example.outOfOrder.size ∧
    Relation.ReflTransGen (Walk.Turn Example.outOfOrder) ⟨[], [root]⟩ ⟨[0, 1, 4, 2, 3], []⟩ ∧
    [0, 1, 4, 2, 3].Perm (List.range 5) ∧ (4 ∈ Example.outOfOrder.descendants 1 ↔
      4 = 1 ∨ 1 ∈ Example.outOfOrder.view.ancestors 4) := by
  have hroot : root < Example.outOfOrder.size := by decide
  have hlist : Example.outOfOrder.descendants root = [0, 1, 4, 2, 3] := by decide
  obtain ⟨hwalk, -, -, -, hperm, -, -⟩ := descendants_built Example.built_outOfOrder hroot
  rw [hlist] at hwalk hperm
  exact ⟨Example.built_outOfOrder, hroot, hwalk, hperm,
    (descendants_built Example.built_outOfOrder (by decide : 1 < _)).2.2.2.1 4⟩

end SpecOutline.Tree
