/-
# Trees under construction keep their links in order

A tree that grows only by adding nodes below its own nodes satisfies `Linked`: the file comes
first and has no parent, every other node comes after its parent, and a node is listed among
the children of its parent, once, and nowhere else.

* `Tree.append` is the only operation that adds a node, and `Linked.append` says that it keeps
  the invariant.  What a graft does is a row of such additions (`graft_induction`), all of them
  below the place where it started or below nodes that it has added itself; so a graft keeps
  the invariant too, and leaves every other node as it was (`get?_graft`).
* `Built` describes the trees that a sequence of steps makes out of an empty file.  Every one
  of them is `Linked` (`Built.linked`).
-/
import SpecOutline.Tree.Builder

namespace SpecOutline.Tree

/-! ## 1. The invariant -/

/-- Parents come before their children, and the links up and down agree. -/
structure Linked (t : Tree) : Prop where
  file : ∃ package?, t.kind? root = some (.file package?)
  root_parent : t.parent? root = none
  parent_lt : ∀ id, 0 < id → id < t.size → ∃ p < id, t.parent? id = some p
  mem_children : ∀ p id, id ∈ t.children p ↔ t.parent? id = some p
  sorted : ∀ p, (t.children p).Pairwise (· < ·)

/-- A place holds a node exactly if it lies inside the table. -/
theorem get?_eq_some_iff_lt {t : Tree} {id : NodeId} :
    (∃ node, t.get? id = some node) ↔ id < t.size := by
  unfold get? size
  constructor
  · rintro ⟨node, h⟩
    exact (Array.getElem?_eq_some_iff.mp h).1
  · intro h
    exact ⟨t.nodes[id], Array.getElem?_eq_getElem h⟩

theorem lt_size_of_get? {t : Tree} {id : NodeId} {node : Node} (h : t.get? id = some node) :
    id < t.size := get?_eq_some_iff_lt.mp ⟨node, h⟩

theorem lt_size_of_parent? {t : Tree} {id p : NodeId} (h : t.parent? id = some p) :
    id < t.size := by
  obtain ⟨node, hn, -⟩ := Option.bind_eq_some_iff.mp h
  exact lt_size_of_get? hn

/-- The links of a node, read off the node itself. -/
theorem kind?_of_get? {t : Tree} {id : NodeId} {node : Node} (h : t.get? id = some node) :
    t.kind? id = some node.kind := by
  rw [kind?, h]; rfl

theorem parent?_of_get? {t : Tree} {id : NodeId} {node : Node} (h : t.get? id = some node) :
    t.parent? id = node.parent? := by
  rw [parent?, h]; rfl

theorem children_of_get? {t : Tree} {id : NodeId} {node : Node} (h : t.get? id = some node) :
    t.children id = node.children := by
  rw [children, h]

theorem children_of_get?_none {t : Tree} {id : NodeId} (h : t.get? id = none) :
    t.children id = [] := by
  rw [children, h]

namespace Linked

variable {t : Tree}

/-- There is at least the file. -/
theorem size_pos (h : t.Linked) : 0 < t.size := by
  obtain ⟨package?, hk⟩ := h.file
  obtain ⟨node, hn, -⟩ := Option.map_eq_some_iff.mp hk
  exact lt_size_of_get? hn

/-- **A parent comes before its children.** -/
theorem lt_of_parent? (h : t.Linked) {id p : NodeId} (hp : t.parent? id = some p) : p < id := by
  rcases Nat.eq_zero_or_pos id with rfl | hpos
  · rw [show t.parent? 0 = none from h.root_parent] at hp
    exact absurd hp (by simp)
  · obtain ⟨q, hq, hqp⟩ := h.parent_lt id hpos (lt_size_of_parent? hp)
    rw [hqp, Option.some.injEq] at hp
    exact hp ▸ hq

theorem lt_of_mem_children (h : t.Linked) {id p : NodeId} (hc : id ∈ t.children p) : p < id :=
  h.lt_of_parent? ((h.mem_children p id).mp hc)

theorem lt_size_of_mem_children (h : t.Linked) {id p : NodeId} (hc : id ∈ t.children p) :
    id < t.size := lt_size_of_parent? ((h.mem_children p id).mp hc)

/-- The invariant speaks of links and of the kind of the file only. -/
theorem of_eq_links {t' : Tree} (h : t.Linked)
    (hfile : ∃ package?, t'.kind? root = some (.file package?)) (hsize : t'.size = t.size)
    (hparent : ∀ id, t'.parent? id = t.parent? id)
    (hchildren : ∀ id, t'.children id = t.children id) : t'.Linked where
  file := hfile
  root_parent := by rw [hparent]; exact h.root_parent
  parent_lt := by
    intro id hpos hid
    rw [hparent]
    exact h.parent_lt id hpos (hsize ▸ hid)
  mem_children := by
    intro p id
    rw [hchildren, hparent]
    exact h.mem_children p id
  sorted := by
    intro p
    rw [hchildren]
    exact h.sorted p

end Linked

/-! ## 2. Adding a node -/

/-- A node with more children at the end of its list. -/
def addChildren (ids : List NodeId) (node : Node) : Node :=
  { node with children := node.children ++ ids }

@[simp] theorem addChildren_nil : addChildren [] = id := by
  funext node
  simp [addChildren]

@[simp] theorem addChildren_addChildren (ids ids' : List NodeId) (node : Node) :
    addChildren ids' (addChildren ids node) = addChildren (ids ++ ids') node := by
  simp [addChildren, List.append_assoc]

@[simp] theorem size_append (t : Tree) (parent : NodeId) (kind : Kind) (span : Span) :
    (t.append parent kind span).size = t.size + 1 := by
  simp [append, size]

/-- A place outside the table holds no node. -/
theorem get?_eq_none_of_le {t : Tree} {id : NodeId} (h : t.size ≤ id) : t.get? id = none := by
  unfold get? size at *
  exact Array.getElem?_eq_none h

section Append

variable {t : Tree} {parent : NodeId} (hp : parent < t.size) (kind : Kind) (span : Span)
include hp

/-- **What adding a node changes**: the next free place holds it, and its parent has one child
more. -/
theorem get?_append (id : NodeId) :
    (t.append parent kind span).get? id =
      if id = t.size then some { kind, parent? := some parent, span }
      else if id = parent then (t.get? id).map (addChildren [t.size])
      else t.get? id := by
  have hne : parent ≠ t.nodes.size := Nat.ne_of_lt hp
  have hmodify : (t.append parent kind span).get? id =
      if parent = id then ((t.nodes.push { kind, parent? := some parent, span })[id]?).map
        (addChildren [t.size])
      else (t.nodes.push { kind, parent? := some parent, span })[id]? :=
    Array.getElem?_modify
  rw [hmodify, Array.getElem?_push]
  by_cases hs : id = t.size
  · rw [if_neg (fun he => hne (he.trans hs)), if_pos hs, if_pos (show id = t.nodes.size from hs)]
  · rw [if_neg hs, if_neg (show ¬ id = t.nodes.size from hs)]
    by_cases hq : id = parent
    · rw [if_pos hq.symm, if_pos hq]; rfl
    · rw [if_neg (Ne.symm hq), if_neg hq]; rfl

theorem kind?_append (id : NodeId) :
    (t.append parent kind span).kind? id = if id = t.size then some kind else t.kind? id := by
  rw [kind?, get?_append hp, kind?]
  split
  · rfl
  · split
    · rw [Option.map_map]; rfl
    · rfl

theorem parent?_append (id : NodeId) :
    (t.append parent kind span).parent? id =
      if id = t.size then some parent else t.parent? id := by
  rw [parent?, get?_append hp, parent?]
  split
  · rfl
  · split
    · rw [Option.bind_map]; rfl
    · rfl

theorem children_append (id : NodeId) :
    (t.append parent kind span).children id =
      if id = parent then t.children id ++ [t.size] else t.children id := by
  rw [children, get?_append hp, children]
  by_cases hs : id = t.size
  · have hne : id ≠ parent := fun hq => Nat.lt_irrefl _ (hs ▸ hq ▸ hp)
    rw [if_pos hs, if_neg hne, get?_eq_none_of_le (Nat.le_of_eq hs.symm)]
  · rw [if_neg hs]
    by_cases hq : id = parent
    · obtain ⟨node, hn⟩ := get?_eq_some_iff_lt.mpr hp
      rw [if_pos hq, if_pos hq, hq, hn]
      rfl
    · rw [if_neg hq, if_neg hq]

/-- **Adding a node keeps the links in order.** -/
theorem Linked.append (h : t.Linked) : (t.append parent kind span).Linked where
  file := by
    have hne : root ≠ t.size := Nat.ne_of_lt h.size_pos
    rw [kind?_append hp, if_neg hne]
    exact h.file
  root_parent := by
    have hne : root ≠ t.size := Nat.ne_of_lt h.size_pos
    rw [parent?_append hp, if_neg hne]
    exact h.root_parent
  parent_lt := by
    intro id hpos hid
    rw [parent?_append hp]
    by_cases hs : id = t.size
    · exact ⟨parent, hs ▸ hp, by rw [if_pos hs]⟩
    · rw [if_neg hs]
      exact h.parent_lt id hpos (by rw [size_append] at hid; omega)
  mem_children := by
    intro p id
    rw [children_append hp, parent?_append hp]
    -- the new place is in no list of the old table
    have hnew : t.size ∉ t.children p := fun hc =>
      Nat.lt_irrefl _ (h.lt_size_of_mem_children hc)
    by_cases hs : id = t.size
    · by_cases hq : p = parent
      · simp [hs, hq]
      · simp only [hs, hq, if_true, if_false, Option.some.injEq, hnew, false_iff]
        exact fun he => hq he.symm
    · by_cases hq : p = parent
      · simp [hs, hq, h.mem_children]
      · simp [hs, hq, h.mem_children]
  sorted := by
    intro p
    rw [children_append hp]
    split
    · refine List.pairwise_append.mpr ⟨h.sorted p, List.pairwise_singleton _ _, ?_⟩
      intro a ha b hb
      rw [List.mem_singleton.mp hb]
      exact h.lt_size_of_mem_children ha
    · exact h.sorted p

end Append

/-! ## 3. Grafting -/

mutual

/-- A graft adds at least one node. -/
theorem size_lt_graft (t : Tree) (parent : NodeId) : ∀ s : Shape, t.size < (t.graft parent s).size
  | .node kind span children => by
    rw [graft]
    have := size_le_graftAll (t.append parent kind span) t.size children
    rw [size_append] at this
    omega
  | .lambda span items => by
    rw [graft]
    refine Nat.lt_of_lt_of_le ?_ (size_le_graftItems _ _ _ items)
    simp only [size_append]
    omega

theorem size_le_graftAll (t : Tree) (parent : NodeId) :
    ∀ ss : List Shape, t.size ≤ (t.graftAll parent ss).size
  | [] => Nat.le_refl _
  | s :: ss => by
    rw [graftAll]
    exact Nat.le_trans (Nat.le_of_lt (size_lt_graft t parent s)) (size_le_graftAll _ parent ss)

theorem size_le_graftItems (t : Tree) (literal block : NodeId) :
    ∀ items : List LambdaItem, t.size ≤ (t.graftItems literal block items).size
  | [] => Nat.le_refl _
  | .parameter s :: rest => by
    rw [graftItems]
    exact Nat.le_trans (Nat.le_of_lt (size_lt_graft t literal s))
      (size_le_graftItems _ literal block rest)
  | .statement s :: rest => by
    rw [graftItems]
    exact Nat.le_trans (Nat.le_of_lt (size_lt_graft t block s))
      (size_le_graftItems _ literal block rest)

end

/-- What holds of a tree still holds after adding a node below place `lo` or any later one. -/
def KeptFrom (lo : NodeId) (P : Tree → Prop) : Prop :=
  ∀ (t : Tree) (parent : NodeId) (kind : Kind) (span : Span),
    P t → lo ≤ parent → parent < t.size → P (t.append parent kind span)

section Induction

variable {P : Tree → Prop} {lo : NodeId}

mutual

/-- **A graft is a row of additions**, each below the place where the graft starts or below a
node that it has added: what such additions preserve, a graft preserves. -/
theorem graft_induction (step : KeptFrom lo P) {t : Tree} {parent : NodeId} (hP : P t)
    (hlo : lo ≤ parent) (hp : parent < t.size) : ∀ s : Shape, P (t.graft parent s)
  | .node kind span children => by
    rw [graft]
    refine graftAll_induction step (step t parent kind span hP hlo hp)
      (Nat.le_trans hlo (Nat.le_of_lt hp)) ?_ children
    rw [size_append]
    exact Nat.lt_succ_self t.size
  | .lambda span items => by
    rw [graft]
    have hlo₁ : lo ≤ t.size := Nat.le_trans hlo (Nat.le_of_lt hp)
    have hlo₂ : lo ≤ t.size + 1 := Nat.le_succ_of_le hlo₁
    have hlo₃ : lo ≤ t.size + 2 := Nat.le_succ_of_le hlo₂
    have h₁ : P (t.append parent .lambdaExpression span) := step _ _ _ _ hP hlo hp
    have h₂ := step _ t.size .functionLiteral span h₁ hlo₁ (by simp)
    have h₃ := step _ (t.size + 1) .block span h₂ hlo₂ (by simp)
    simp only [size_append]
    exact graftItems_induction step h₃ hlo₂ (by simp) hlo₃ (by simp) items

theorem graftAll_induction (step : KeptFrom lo P) {t : Tree} {parent : NodeId} (hP : P t)
    (hlo : lo ≤ parent) (hp : parent < t.size) : ∀ ss : List Shape, P (t.graftAll parent ss)
  | [] => by rw [graftAll]; exact hP
  | s :: ss => by
    rw [graftAll]
    exact graftAll_induction step (graft_induction step hP hlo hp s) hlo
      (Nat.lt_trans hp (size_lt_graft t parent s)) ss

theorem graftItems_induction (step : KeptFrom lo P) {t : Tree} {literal block : NodeId}
    (hP : P t) (hlo : lo ≤ literal) (hl : literal < t.size) (hlo' : lo ≤ block)
    (hb : block < t.size) : ∀ items : List LambdaItem, P (t.graftItems literal block items)
  | [] => by rw [graftItems]; exact hP
  | .parameter s :: rest => by
    rw [graftItems]
    have hlt := size_lt_graft t literal s
    exact graftItems_induction step (graft_induction step hP hlo hl s) hlo
      (Nat.lt_trans hl hlt) hlo' (Nat.lt_trans hb hlt) rest
  | .statement s :: rest => by
    rw [graftItems]
    have hlt := size_lt_graft t block s
    exact graftItems_induction step (graft_induction step hP hlo' hb s) hlo
      (Nat.lt_trans hl hlt) hlo' (Nat.lt_trans hb hlt) rest

end

end Induction

/-- Adding nodes keeps the links in order, wherever it happens. -/
theorem keptFrom_linked (lo : NodeId) : KeptFrom lo Linked :=
  fun _ _ kind span h _ hp => h.append hp kind span

theorem Linked.graft {t : Tree} (h : t.Linked) {parent : NodeId} (hp : parent < t.size)
    (s : Shape) : (t.graft parent s).Linked :=
  graft_induction (keptFrom_linked parent) h (Nat.le_refl _) hp s

theorem Linked.graftAll {t : Tree} (h : t.Linked) {parent : NodeId} (hp : parent < t.size)
    (ss : List Shape) : (t.graftAll parent ss).Linked :=
  graftAll_induction (keptFrom_linked parent) h (Nat.le_refl _) hp ss

/-- Adding nodes below later places does not change the earlier ones. -/
theorem keptFrom_get? (lo : NodeId) (node? : NodeId → Option Node) :
    KeptFrom lo fun t => ∀ id < lo, t.get? id = node? id := by
  intro t parent kind span h hlo hp id hid
  have hlt : id < parent := Nat.lt_of_lt_of_le hid hlo
  rw [get?_append hp, if_neg (Nat.ne_of_lt (Nat.lt_trans hlt hp)), if_neg (Nat.ne_of_lt hlt)]
  exact h id hid

/-- A graft begins by adding one node below its parent; all that follows happens below the
nodes it has added. -/
theorem graft_after_append (t : Tree) (parent : NodeId) (s : Shape) :
    ∃ kind span, ∀ P, KeptFrom t.size P → P (t.append parent kind span) →
      P (t.graft parent s) := by
  cases s with
  | node kind span children =>
    refine ⟨kind, span, fun P step h => ?_⟩
    rw [graft]
    exact graftAll_induction step h (Nat.le_refl _) (by simp) children
  | lambda span items =>
    refine ⟨.lambdaExpression, span, fun P step h => ?_⟩
    rw [graft]
    have h₂ := step _ t.size .functionLiteral span h (Nat.le_refl _) (by simp)
    have h₃ := step _ (t.size + 1) .block span h₂ (Nat.le_succ _) (by simp)
    simp only [size_append]
    exact graftItems_induction step h₃ (Nat.le_succ _) (by simp)
      (Nat.le_trans (Nat.le_succ _) (Nat.le_succ _)) (by simp) items

/-- **What a graft does to the nodes that were there**: its parent gets one child more, and
nothing else changes. -/
theorem get?_graft {t : Tree} {parent : NodeId} (hp : parent < t.size) (s : Shape)
    {id : NodeId} (hid : id < t.size) :
    (t.graft parent s).get? id =
      if id = parent then (t.get? id).map (addChildren [t.size]) else t.get? id := by
  obtain ⟨kind, span, hP⟩ := graft_after_append t parent s
  rw [hP _ (keptFrom_get? t.size (t.append parent kind span).get?) (fun _ _ => rfl) id hid,
    get?_append hp, if_neg (Nat.ne_of_lt hid)]

/-! ## 4. Edits and steps -/

/-- A tree with a change to one node that leaves the node's links alone. -/
theorem links_modify (t : Tree) (at_ : NodeId) (f : Node → Node)
    (hf : ∀ node, (f node).parent? = node.parent? ∧ (f node).children = node.children) :
    (∀ id, ({ t with nodes := t.nodes.modify at_ f } : Tree).parent? id = t.parent? id) ∧
      ∀ id, ({ t with nodes := t.nodes.modify at_ f } : Tree).children id = t.children id := by
  have hget : ∀ id, ({ t with nodes := t.nodes.modify at_ f } : Tree).get? id =
      if at_ = id then (t.get? id).map f else t.get? id := fun id => Array.getElem?_modify
  constructor
  · intro id
    rw [parent?, hget, parent?]
    split
    · cases t.get? id with
      | none => rfl
      | some node => exact (hf node).1
    · rfl
  · intro id
    rw [children, hget, children]
    by_cases he : at_ = id
    · rw [if_pos he]
      cases t.get? id with
      | none => rfl
      | some node => exact (hf node).2
    · rw [if_neg he]

theorem size_setPackage (t : Tree) (package? : Option String) :
    (t.setPackage package?).size = t.size := by
  simp [setPackage, size]

theorem size_setSpan (t : Tree) (id : NodeId) (span : Span) :
    (t.setSpan id span).size = t.size := by
  simp [setSpan, size]

theorem kind?_root_setPackage {t : Tree} (h : t.Linked) (package? : Option String) :
    (t.setPackage package?).kind? root = some (.file package?) := by
  obtain ⟨node, hn⟩ := get?_eq_some_iff_lt.mpr h.size_pos
  have hget : (t.setPackage package?).get? root =
      (t.get? root).map fun node => { node with kind := .file package? } := by
    rw [setPackage, get?, Array.getElem?_modify, if_pos rfl]; rfl
  rw [kind?, hget, show t.get? root = some node from hn]
  rfl

theorem Linked.setPackage {t : Tree} (h : t.Linked) (package? : Option String) :
    (t.setPackage package?).Linked := by
  obtain ⟨hp, hc⟩ := links_modify t root (fun node => { node with kind := .file package? })
    (fun _ => ⟨rfl, rfl⟩)
  exact h.of_eq_links ⟨package?, kind?_root_setPackage h package?⟩ (size_setPackage t package?)
    hp hc

theorem kind?_setSpan (t : Tree) (at_ : NodeId) (span : Span) (id : NodeId) :
    (t.setSpan at_ span).kind? id = t.kind? id := by
  rw [kind?, setSpan, get?, Array.getElem?_modify, kind?]
  split
  · rw [Option.map_map]; rfl
  · rfl

theorem Linked.setSpan {t : Tree} (h : t.Linked) (id : NodeId) (span : Span) :
    (t.setSpan id span).Linked := by
  obtain ⟨hp, hc⟩ :=
    links_modify t id (fun node => { node with span }) (fun _ => ⟨rfl, rfl⟩)
  exact h.of_eq_links (by rw [kind?_setSpan]; exact h.file) (size_setSpan t id span) hp hc

/-- The invariant does not speak of the path, the language or the error regions. -/
theorem Linked.of_eq_nodes {t t' : Tree} (h : t.Linked) (hn : t'.nodes = t.nodes) :
    t'.Linked := by
  have hget : ∀ id, t'.get? id = t.get? id := fun id => by rw [get?, hn, get?]
  exact h.of_eq_links (by rw [kind?, hget]; exact h.file) (by rw [size, hn, size])
    (fun id => by rw [parent?, hget, parent?]) (fun id => by rw [children, hget, children])

theorem linked_empty (language : Language) : (empty language).Linked where
  file := ⟨none, rfl⟩
  root_parent := rfl
  parent_lt := by
    intro id hpos hid
    have hone : id < 1 := hid
    exact absurd hpos (Nat.not_lt.mpr (Nat.le_of_lt_succ hone))
  mem_children := by
    intro p id
    have hc : (empty language).children p = [] := by
      cases p with
      | zero => rfl
      | succ p =>
        exact children_of_get?_none (get?_eq_none_of_le (Nat.succ_le_succ (Nat.zero_le p)))
    have hp : (empty language).parent? id = none := by
      cases id with
      | zero => rfl
      | succ id =>
        rw [parent?, get?_eq_none_of_le (Nat.succ_le_succ (Nat.zero_le id))]; rfl
    rw [hc, hp]
    simp
  sorted := by
    intro p
    cases p with
    | zero => exact List.Pairwise.nil
    | succ p =>
      rw [children_of_get?_none (get?_eq_none_of_le (Nat.succ_le_succ (Nat.zero_le p)))]
      exact List.Pairwise.nil

theorem linked_inPackage (package? : Option String) : (inPackage package?).Linked :=
  (linked_empty .kotlin).setPackage package?

/-- A step names no parent but a node of the tree. -/
def Step.Owns (t : Tree) (step : Step) : Prop :=
  ∀ growth ∈ step.growth?, growth.1 < t.size

/-- The trees that steps make out of an empty file, each step below nodes that are there. -/
inductive Built : Tree → Prop
  | empty (language : Language) : Built (Tree.empty language)
  | inPackage (package? : Option String) : Built (Tree.inPackage package?)
  | step {t t' : Tree} {step : Step} {answers : List NodeId} :
      Built t → step.Owns t → t.perform step = .ok (t', answers) → Built t'

/-- Carrying out a step below a node of the tree keeps the links in order. -/
theorem Linked.perform {t t' : Tree} {step : Step} {answers : List NodeId} (h : t.Linked)
    (ho : step.Owns t) (hs : t.perform step = .ok (t', answers)) : t'.Linked := by
  unfold Tree.perform at hs
  split at hs
  · next parent shape answers' hg =>
    have hp : parent < t.size := ho _ hg
    rw [if_pos (Nat.le_of_lt hp)] at hs
    cases hs
    exact h.graft hp shape
  · cases step with
    | setPackage package? => cases hs; exact h.setPackage package?
    | setSpan id span => cases hs; exact h.setSpan id span
    | _ => cases hs; exact h.of_eq_nodes rfl

/-- **Every tree that steps make has its links in order.** -/
theorem Built.linked {t : Tree} (h : t.Built) : t.Linked := by
  induction h with
  | empty language => exact linked_empty language
  | inPackage package? => exact linked_inPackage package?
  | step _ ho hs ih => exact ih.perform ho hs

/-- A step that grafts below a node of the tree is carried out. -/
theorem perform_of_growth? {t : Tree} {step : Step} {parent : NodeId} {shape : Shape}
    {answers : List Nat} (hg : step.growth? = some (parent, shape, answers))
    (hp : parent ≤ t.size) :
    t.perform step = .ok (t.graft parent shape, answers.map (t.size + ·)) := by
  simp only [perform, hg, if_pos hp]

end SpecOutline.Tree
