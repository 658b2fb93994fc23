/-
# Shapes that stand in a tree

A shape has no places and a tree has nothing but places.  `Stands` ties the two together: the
nodes at and below a place have the kinds, spans and children of the shape, with parents to
match, whatever the places are.  So what follows from `Stands` does not depend on the order in
which a tree was put together.

Grafting a shape onto a linked tree makes it stand there (`stands_graft`).  That needs a frame
property: a shape that stands somewhere goes on standing there as long as the nodes from its
place on are kept (`Stands.frame`), because in a linked tree all its nodes come after its place.
-/
import SpecOutline.Proofs.Tree.Linked

namespace SpecOutline.Tree

/-! ## 1. Standing -/

mutual

/-- The nodes at and below place `id` are a shape, and the parent of its top is `parent`. -/
def Stands (t : Tree) (parent id : NodeId) : Shape → Prop
  | .node kind span children =>
    ∃ ids, t.get? id = some { kind, parent? := some parent, children := ids, span } ∧
      t.StandsAll id children ids
  | .lambda span items =>
    ∃ literal block parameters statements,
      t.get? id = some { kind := .lambdaExpression, parent? := some parent,
                         children := [literal], span } ∧
      t.get? literal = some { kind := .functionLiteral, parent? := some id,
                              children := block :: parameters, span } ∧
      t.get? block = some { kind := .block, parent? := some literal,
                            children := statements, span } ∧
      t.StandsItems literal block items parameters statements

/-- At the places `ids`, in order, stand the shapes of a row, all below `parent`. -/
def StandsAll (t : Tree) (parent : NodeId) : List Shape → List NodeId → Prop
  | [], ids => ids = []
  | s :: ss, ids => ∃ id rest, ids = id :: rest ∧ t.Stands parent id s ∧ t.StandsAll parent ss rest

/-- The items of a lambda stand at their places: parameters below its literal, statements below
its block. -/
def StandsItems (t : Tree) (literal block : NodeId) :
    List LambdaItem → List NodeId → List NodeId → Prop
  | [], parameters, statements => parameters = [] ∧ statements = []
  | .parameter s :: items, parameters, statements =>
    ∃ id rest, parameters = id :: rest ∧ t.Stands literal id s ∧
      t.StandsItems literal block items rest statements
  | .statement s :: items, parameters, statements =>
    ∃ id rest, statements = id :: rest ∧ t.Stands block id s ∧
      t.StandsItems literal block items parameters rest

end

/-- The top of a standing shape is a child of its parent. -/
theorem Stands.parent?_eq {t : Tree} {parent id : NodeId} {s : Shape}
    (h : t.Stands parent id s) : t.parent? id = some parent := by
  cases s with
  | node kind span children =>
    rw [Stands] at h
    obtain ⟨ids, hn, -⟩ := h
    exact parent?_of_get? hn
  | lambda span items =>
    rw [Stands] at h
    obtain ⟨literal, block, parameters, statements, hn, -⟩ := h
    exact parent?_of_get? hn

theorem Stands.parent_lt {t : Tree} (ht : t.Linked) {parent id : NodeId} {s : Shape}
    (h : t.Stands parent id s) : parent < id := ht.lt_of_parent? h.parent?_eq

/-! ## 2. What a standing shape depends on -/

/-- `t'` has every node of `t` from place `lo` on. -/
def Keeps (lo : NodeId) (t t' : Tree) : Prop :=
  ∀ id node, lo ≤ id → t.get? id = some node → t'.get? id = some node

theorem Keeps.mono {lo lo' : NodeId} {t t' : Tree} (h : Keeps lo t t') (hle : lo ≤ lo') :
    Keeps lo' t t' := fun id node hid hn => h id node (Nat.le_trans hle hid) hn

theorem Keeps.of_get?_eq {lo : NodeId} {t t' : Tree}
    (h : ∀ id < t.size, lo ≤ id → t'.get? id = t.get? id) : Keeps lo t t' := by
  intro id node hid hn
  rw [h id (lt_size_of_get? hn) hid]
  exact hn

section Frame

variable {t t' : Tree} (ht : t.Linked)
include ht

mutual

/-- **A standing shape depends only on the nodes from its place on.** -/
theorem Stands.frame {parent id : NodeId} (hk : Keeps id t t') :
    ∀ {s : Shape}, t.Stands parent id s → t'.Stands parent id s
  | .node kind span children, h => by
    rw [Stands] at h ⊢
    obtain ⟨ids, hn, hc⟩ := h
    exact ⟨ids, hk id _ (Nat.le_refl _) hn, StandsAll.frame hk hc⟩
  | .lambda span items, h => by
    rw [Stands] at h ⊢
    obtain ⟨literal, block, parameters, statements, hn, hl, hb, hi⟩ := h
    -- the literal comes after the lambda, and the block after the literal
    have h₁ : id < literal := ht.lt_of_parent? (parent?_of_get? hl)
    have h₂ : literal < block := ht.lt_of_parent? (parent?_of_get? hb)
    have hk' : Keeps literal t t' := hk.mono (Nat.le_of_lt h₁)
    exact ⟨literal, block, parameters, statements, hk id _ (Nat.le_refl _) hn,
      hk' literal _ (Nat.le_refl _) hl, hk' block _ (Nat.le_of_lt h₂) hb,
      StandsItems.frame hk' h₂ hi⟩

theorem StandsAll.frame {parent : NodeId} (hk : Keeps parent t t') :
    ∀ {ss : List Shape} {ids : List NodeId}, t.StandsAll parent ss ids →
      t'.StandsAll parent ss ids
  | [], ids, h => by rw [StandsAll] at h ⊢; exact h
  | s :: ss, ids, h => by
    rw [StandsAll] at h ⊢
    obtain ⟨id, rest, hids, hs, hss⟩ := h
    have hlt : parent < id := hs.parent_lt ht
    exact ⟨id, rest, hids, Stands.frame (hk.mono (Nat.le_of_lt hlt)) hs, StandsAll.frame hk hss⟩

theorem StandsItems.frame {literal block : NodeId} (hk : Keeps literal t t')
    (hlt : literal < block) :
    ∀ {items : List LambdaItem} {parameters statements : List NodeId},
      t.StandsItems literal block items parameters statements →
      t'.StandsItems literal block items parameters statements
  | [], parameters, statements, h => by rw [StandsItems] at h ⊢; exact h
  | .parameter s :: items, parameters, statements, h => by
    rw [StandsItems] at h ⊢
    obtain ⟨id, rest, hids, hs, hi⟩ := h
    have hid : literal < id := hs.parent_lt ht
    exact ⟨id, rest, hids, Stands.frame (hk.mono (Nat.le_of_lt hid)) hs,
      StandsItems.frame hk hlt hi⟩
  | .statement s :: items, parameters, statements, h => by
    rw [StandsItems] at h ⊢
    obtain ⟨id, rest, hids, hs, hi⟩ := h
    have hid : literal < id := Nat.lt_trans hlt (hs.parent_lt ht)
    exact ⟨id, rest, hids, Stands.frame (hk.mono (Nat.le_of_lt hid)) hs,
      StandsItems.frame hk hlt hi⟩

end

end Frame

/-! ## 3. Grafted shapes stand -/

/-- The nodes of an empty lambda, one below the other. -/
theorem get?_append_lambda {t : Tree} {parent : NodeId} (hp : parent < t.size) (span : Span) :
    let t₃ := ((t.append parent .lambdaExpression span).append t.size .functionLiteral
      span).append (t.size + 1) .block span
    t₃.get? t.size = some { kind := .lambdaExpression, parent? := some parent,
                            children := [t.size + 1], span } ∧
      t₃.get? (t.size + 1) = some { kind := .functionLiteral, parent? := some t.size,
                                    children := [t.size + 2], span } ∧
      t₃.get? (t.size + 2) = some { kind := .block, parent? := some (t.size + 1), span } := by
  have h₂ : t.size < (t.append parent .lambdaExpression span).size := by simp
  have h₃ : t.size + 1 < ((t.append parent .lambdaExpression span).append t.size
      .functionLiteral span).size := by simp
  have hne : t.size ≠ t.size + 1 + 1 := by omega
  refine ⟨?_, ?_, ?_⟩
  · simp [get?_append h₃, get?_append h₂, get?_append hp, addChildren, hne]
  · simp [get?_append h₃, get?_append h₂, addChildren]
  · simp [get?_append h₃]

mutual

/-- **A grafted shape stands where it was grafted.** -/
theorem stands_graft {t : Tree} (ht : t.Linked) {parent : NodeId} (hp : parent < t.size) :
    ∀ s : Shape, (t.graft parent s).Stands parent t.size s
  | .node kind span children => by
    rw [graft, Stands]
    have hlt : t.size < (t.append parent kind span).size := by simp
    obtain ⟨ids, hn, -, hc⟩ := standsAll_graftAll (ht.append hp kind span) hlt children
    refine ⟨ids, ?_, hc⟩
    rw [hn, get?_append hp, if_pos rfl]
    rfl
  | .lambda span items => by
    rw [graft, Stands]
    simp only [size_append]
    have h₁ : t.size < (t.append parent .lambdaExpression span).size := by simp
    have h₂ : t.size + 1 < ((t.append parent .lambdaExpression span).append t.size
        .functionLiteral span).size := by simp
    have ht₃ := ((ht.append hp .lambdaExpression span).append h₁ .functionLiteral span).append
      h₂ .block span
    obtain ⟨hn, hl, hb⟩ := get?_append_lambda hp span
    obtain ⟨parameters, statements, hl', hb', hkeep, hi⟩ :=
      standsItems_graftItems ht₃ (Nat.lt_succ_self (t.size + 1)) (by simp) items
    refine ⟨t.size + 1, t.size + 2, parameters, statements, ?_, ?_, ?_, hi⟩
    · rw [hkeep t.size (by simp only [size_append]; omega) (by omega) (by omega)]
      exact hn
    · rw [hl', hl]
      rfl
    · rw [hb', hb]
      rfl

/-- Shapes grafted in a row stand in a row, at the end of the children of their parent. -/
theorem standsAll_graftAll {t : Tree} (ht : t.Linked) {parent : NodeId} (hp : parent < t.size) :
    ∀ ss : List Shape, ∃ ids,
      (t.graftAll parent ss).get? parent = (t.get? parent).map (addChildren ids) ∧
      (∀ id < t.size, id ≠ parent → (t.graftAll parent ss).get? id = t.get? id) ∧
      (t.graftAll parent ss).StandsAll parent ss ids
  | [] => by
    refine ⟨[], ?_, ?_, ?_⟩
    · rw [graftAll]; simp
    · intro id _ _; rw [graftAll]
    · rw [StandsAll]
  | s :: ss => by
    rw [graftAll]
    have hlt := size_lt_graft t parent s
    have ht₁ := ht.graft hp s
    obtain ⟨ids, hn, hkeep, hss⟩ := standsAll_graftAll ht₁ (Nat.lt_trans hp hlt) ss
    refine ⟨t.size :: ids, ?_, ?_, ?_⟩
    · rw [hn, get?_graft hp s hp, if_pos rfl, Option.map_map]
      cases t.get? parent <;> simp
    · intro id hid hne
      rw [hkeep id (Nat.lt_trans hid hlt) hne, get?_graft hp s hid, if_neg hne]
    · -- the first shape goes on standing while the others are grafted beside it
      have hk : Keeps t.size (t.graft parent s) ((t.graft parent s).graftAll parent ss) :=
        .of_get?_eq fun id hid hlo => hkeep id hid (Nat.ne_of_gt (Nat.lt_of_lt_of_le hp hlo))
      rw [StandsAll]
      exact ⟨t.size, ids, rfl, (stands_graft ht hp s).frame ht₁ hk, hss⟩

/-- The items of a lambda, grafted in turn, stand below its literal and its block. -/
theorem standsItems_graftItems {t : Tree} (ht : t.Linked) {literal block : NodeId}
    (hlt : literal < block) (hb : block < t.size) :
    ∀ items : List LambdaItem, ∃ parameters statements,
      (t.graftItems literal block items).get? literal =
        (t.get? literal).map (addChildren parameters) ∧
      (t.graftItems literal block items).get? block =
        (t.get? block).map (addChildren statements) ∧
      (∀ id < t.size, id ≠ literal → id ≠ block →
        (t.graftItems literal block items).get? id = t.get? id) ∧
      (t.graftItems literal block items).StandsItems literal block items parameters statements
  | [] => by
    refine ⟨[], [], ?_, ?_, ?_, ?_⟩
    · rw [graftItems]; simp
    · rw [graftItems]; simp
    · intro id _ _ _; rw [graftItems]
    · rw [StandsItems]; exact ⟨rfl, rfl⟩
  | .parameter s :: items => by
    rw [graftItems]
    have hl : literal < t.size := Nat.lt_trans hlt hb
    have hsize := size_lt_graft t literal s
    have ht₁ := ht.graft hl s
    obtain ⟨parameters, statements, hnl, hnb, hkeep, hi⟩ :=
      standsItems_graftItems ht₁ hlt (Nat.lt_trans hb hsize) items
    refine ⟨t.size :: parameters, statements, ?_, ?_, ?_, ?_⟩
    · rw [hnl, get?_graft hl s hl, if_pos rfl, Option.map_map]
      cases t.get? literal <;> simp
    · rw [hnb, get?_graft hl s hb, if_neg (Nat.ne_of_gt hlt)]
    · intro id hid hne hne'
      rw [hkeep id (Nat.lt_trans hid hsize) hne hne', get?_graft hl s hid, if_neg hne]
    · have hk : Keeps t.size (t.graft literal s)
          ((t.graft literal s).graftItems literal block items) :=
        .of_get?_eq fun id hid hlo => hkeep id hid (Nat.ne_of_gt (Nat.lt_of_lt_of_le hl hlo))
          (Nat.ne_of_gt (Nat.lt_of_lt_of_le hb hlo))
      rw [StandsItems]
      exact ⟨t.size, parameters, rfl, (stands_graft ht hl s).frame ht₁ hk, hi⟩
  | .statement s :: items => by
    rw [graftItems]
    have hl : literal < t.size := Nat.lt_trans hlt hb
    have hsize := size_lt_graft t block s
    have ht₁ := ht.graft hb s
    obtain ⟨parameters, statements, hnl, hnb, hkeep, hi⟩ :=
      standsItems_graftItems ht₁ hlt (Nat.lt_trans hb hsize) items
    refine ⟨parameters, t.size :: statements, ?_, ?_, ?_, ?_⟩
    · rw [hnl, get?_graft hb s hl, if_neg (Nat.ne_of_lt hlt)]
    · rw [hnb, get?_graft hb s hb, if_pos rfl, Option.map_map]
      cases t.get? block <;> simp
    · intro id hid hne hne'
      rw [hkeep id (Nat.lt_trans hid hsize) hne hne', get?_graft hb s hid, if_neg hne']
    · have hk : Keeps t.size (t.graft block s)
          ((t.graft block s).graftItems literal block items) :=
        .of_get?_eq fun id hid hlo => hkeep id hid (Nat.ne_of_gt (Nat.lt_of_lt_of_le hl hlo))
          (Nat.ne_of_gt (Nat.lt_of_lt_of_le hb hlo))
      rw [StandsItems]
      exact ⟨t.size, statements, rfl, (stands_graft ht hb s).frame ht₁ hk, hi⟩

end

/-! ## 4. Blocks and classes that stand in a tree -/

theorem stands_leaf_iff {t : Tree} {parent id : NodeId} {kind : Kind} :
    t.Stands parent id (.leaf kind) ↔ t.get? id = some { kind, parent? := some parent } := by
  rw [Shape.leaf, Stands]
  constructor
  · rintro ⟨ids, hn, hc⟩
    rw [StandsAll] at hc
    exact hc ▸ hn
  · intro hn
    exact ⟨[], hn, by rw [StandsAll]⟩

theorem standsAll_cons_iff {t : Tree} {parent : NodeId} {s : Shape} {ss : List Shape}
    {ids : List NodeId} :
    t.StandsAll parent (s :: ss) ids ↔
      ∃ id rest, ids = id :: rest ∧ t.Stands parent id s ∧ t.StandsAll parent ss rest := by
  rw [StandsAll]

theorem standsAll_nil_iff {t : Tree} {parent : NodeId} {ids : List NodeId} :
    t.StandsAll parent [] ids ↔ ids = [] := by
  rw [StandsAll]

/-- Two rows stand one behind the other. -/
theorem standsAll_append_iff {t : Tree} {parent : NodeId} {ss ss' : List Shape}
    {ids : List NodeId} :
    t.StandsAll parent (ss ++ ss') ids ↔
      ∃ first rest, ids = first ++ rest ∧ t.StandsAll parent ss first ∧
        t.StandsAll parent ss' rest := by
  induction ss generalizing ids with
  | nil =>
    constructor
    · intro h
      exact ⟨[], ids, rfl, standsAll_nil_iff.mpr rfl, h⟩
    · rintro ⟨first, rest, rfl, hnil, h⟩
      rw [standsAll_nil_iff.mp hnil]
      exact h
  | cons s ss ih =>
    rw [List.cons_append, standsAll_cons_iff]
    constructor
    · rintro ⟨id, ids', rfl, hs, h⟩
      obtain ⟨first, rest, rfl, hss, hss'⟩ := ih.mp h
      exact ⟨id :: first, rest, rfl, standsAll_cons_iff.mpr ⟨id, first, rfl, hs, hss⟩, hss'⟩
    · rintro ⟨first, rest, rfl, h, hss'⟩
      obtain ⟨id, first', rfl, hs, hss⟩ := standsAll_cons_iff.mp h
      exact ⟨id, first' ++ rest, rfl, hs, ih.mpr ⟨first', rest, rfl, hss, hss'⟩⟩

/-- A lambda with nothing but statements has no parameters. -/
theorem standsItems_statements_iff {t : Tree} {literal block : NodeId} {ss : List Shape}
    {parameters statements : List NodeId} :
    t.StandsItems literal block (ss.map .statement) parameters statements ↔
      parameters = [] ∧ t.StandsAll block ss statements := by
  induction ss generalizing statements with
  | nil => rw [List.map_nil, StandsItems, standsAll_nil_iff]
  | cons s ss ih =>
    rw [List.map_cons, StandsItems, standsAll_cons_iff]
    constructor
    · rintro ⟨id, rest, hids, hs, hi⟩
      obtain ⟨hp, hss⟩ := ih.mp hi
      exact ⟨hp, id, rest, hids, hs, hss⟩
    · rintro ⟨hp, id, rest, hids, hs, hss⟩
      exact ⟨id, rest, hids, hs, ih.mpr ⟨hp, hss⟩⟩

/-- The places of a lambda. -/
structure LambdaPlaces where
  lambda : NodeId
  literal : NodeId
  body : NodeId

/-- The places of a call with a string and a trailing lambda. -/
structure CallPlaces extends LambdaPlaces where
  call : NodeId
  callee : NodeId
  argument : NodeId
  text : NodeId
  trailing : NodeId

/-- The places of a class whose supertype is called with a lambda. -/
structure ClassPlaces extends LambdaPlaces where
  declaration : NodeId
  specifier : NodeId
  invocation : NodeId
  argument : NodeId

/-- At the given places stands the lambda `{ ss }`. -/
structure LambdaAt (t : Tree) (parent : NodeId) (p : LambdaPlaces) (ss : List Shape) :
    Prop where
  lambda : t.get? p.lambda = some { kind := .lambdaExpression, parent? := some parent,
                                    children := [p.literal] }
  literal : t.get? p.literal = some { kind := .functionLiteral, parent? := some p.lambda,
                                      children := [p.body] }
  body : ∃ statements, t.get? p.body = some { kind := .block, parent? := some p.literal,
                                              children := statements }
  statements : t.StandsAll p.body ss (t.children p.body)

/-- At the given places stands the call `function("description") { ss }`. -/
structure BlockCallAt (t : Tree) (parent : NodeId) (p : CallPlaces)
    (function description : String) (ss : List Shape) : Prop where
  call : t.get? p.call = some { kind := .call, parent? := some parent,
                                children := [p.callee, p.argument, p.trailing] }
  callee : t.get? p.callee = some { kind := .nameRef function, parent? := some p.call }
  argument : t.get? p.argument = some { kind := .valueArgument, parent? := some p.call,
                                        children := [p.text] }
  text : t.get? p.text = some { kind := .stringTemplate ("\"" ++ description ++ "\""),
                                parent? := some p.argument }
  trailing : t.get? p.trailing = some { kind := .lambdaArgument, parent? := some p.call,
                                        children := [p.lambda] }
  block : t.LambdaAt p.trailing p.toLambdaPlaces ss

/-- At the given places stands a class whose supertype is called with the lambda `{ ss }`. -/
structure SpecClassAt (t : Tree) (parent : NodeId) (p : ClassPlaces) (head : ClassHead)
    (ss : List Shape) : Prop where
  declaration : t.get? p.declaration = some { kind := .classLike head, parent? := some parent,
                                              children := [p.specifier] }
  specifier : t.get? p.specifier = some { kind := .other "delegation_specifier",
                                          parent? := some p.declaration,
                                          children := [p.invocation] }
  invocation : t.get? p.invocation = some { kind := .other "constructor_invocation",
                                            parent? := some p.specifier,
                                            children := [p.argument] }
  argument : t.get? p.argument = some { kind := .valueArgument, parent? := some p.invocation,
                                        children := [p.lambda] }
  block : t.LambdaAt p.argument p.toLambdaPlaces ss

theorem Stands.lambdaAt {t : Tree} {parent id : NodeId} {ss : List Shape}
    (h : t.Stands parent id (.lambda {} (ss.map .statement))) :
    ∃ p : LambdaPlaces, p.lambda = id ∧ t.LambdaAt parent p ss := by
  rw [Stands] at h
  obtain ⟨literal, body, parameters, statements, hn, hl, hb, hi⟩ := h
  obtain ⟨rfl, hss⟩ := standsItems_statements_iff.mp hi
  refine ⟨⟨id, literal, body⟩, rfl, hn, hl, ⟨statements, hb⟩, ?_⟩
  rw [children_of_get? hb]
  exact hss

/-- **The nodes where a block call stands.** -/
theorem Stands.blockCallAt {t : Tree} {parent id : NodeId} {function description : String}
    {ss : List Shape} (h : t.Stands parent id (.blockCall function description ss)) :
    ∃ p : CallPlaces, p.call = id ∧ t.BlockCallAt parent p function description ss := by
  rw [Shape.blockCall, Stands] at h
  obtain ⟨ids, hcall, hc⟩ := h
  obtain ⟨callee, _, rfl, hcallee, hc⟩ := standsAll_cons_iff.mp hc
  obtain ⟨argument, _, rfl, harg, hc⟩ := standsAll_cons_iff.mp hc
  obtain ⟨trailing, _, rfl, htr, hc⟩ := standsAll_cons_iff.mp hc
  obtain rfl := standsAll_nil_iff.mp hc
  rw [Shape.stringArgument, Stands] at harg
  obtain ⟨_, harg, hc⟩ := harg
  obtain ⟨text, _, rfl, htext, hc⟩ := standsAll_cons_iff.mp hc
  obtain rfl := standsAll_nil_iff.mp hc
  rw [Shape.trailingLambda, Stands] at htr
  obtain ⟨_, htr, hc⟩ := htr
  obtain ⟨_, _, rfl, hl, hc⟩ := standsAll_cons_iff.mp hc
  obtain rfl := standsAll_nil_iff.mp hc
  obtain ⟨p, rfl, hblock⟩ := hl.lambdaAt
  exact ⟨⟨p, id, callee, argument, text, trailing⟩, rfl, hcall, stands_leaf_iff.mp hcallee,
    harg, stands_leaf_iff.mp htext, htr, hblock⟩

/-- **The nodes where a class with a lambda stands.** -/
theorem Stands.specClassAt {t : Tree} {parent id : NodeId} {head : ClassHead} {ss : List Shape}
    (h : t.Stands parent id (.specClass head ss)) :
    ∃ p : ClassPlaces, p.declaration = id ∧ t.SpecClassAt parent p head ss := by
  rw [Shape.specClass, Stands] at h
  obtain ⟨_, hclass, hc⟩ := h
  obtain ⟨specifier, _, rfl, hs, hc⟩ := standsAll_cons_iff.mp hc
  obtain rfl := standsAll_nil_iff.mp hc
  rw [Stands] at hs
  obtain ⟨_, hs, hc⟩ := hs
  obtain ⟨invocation, _, rfl, hi, hc⟩ := standsAll_cons_iff.mp hc
  obtain rfl := standsAll_nil_iff.mp hc
  rw [Stands] at hi
  obtain ⟨_, hi, hc⟩ := hi
  obtain ⟨argument, _, rfl, harg, hc⟩ := standsAll_cons_iff.mp hc
  obtain rfl := standsAll_nil_iff.mp hc
  rw [Stands] at harg
  obtain ⟨_, harg, hc⟩ := harg
  obtain ⟨_, _, rfl, hl, hc⟩ := standsAll_cons_iff.mp hc
  obtain rfl := standsAll_nil_iff.mp hc
  obtain ⟨p, rfl, hblock⟩ := hl.lambdaAt
  exact ⟨⟨p, id, specifier, invocation, argument⟩, rfl, hclass, hs, hi, harg, hblock⟩

end SpecOutline.Tree
