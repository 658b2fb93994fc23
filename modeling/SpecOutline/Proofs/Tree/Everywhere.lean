/-
# What holds at every node

Much of what is said about a tree is said node by node: what a node is (`Face`: its kind and its
span) restricts what its children are.  Such a condition can be asked of a shape (`Everywhere`) or
of the node at a place of a tree (`LocalAt`).  Where a shape stands, the two are the same question
(`Stands.localAt`), so that a condition on the nodes of a grafted tree is proved about shapes, where
the induction follows the data.

Other questions are about the nodes of a tree in document order.  Where a shape stands, their faces
are those of the shape in its own order (`Stands.faces_descendants`).
-/
import SpecOutline.Proofs.Tree.Standing
import SpecOutline.Proofs.Tree.Walks

namespace SpecOutline

/-! ## 1. Faces -/

/-- What a node is apart from its links. -/
structure Face where
  kind : Kind
  span : Span
deriving Repr, DecidableEq

/-- A condition on a node and its children, the children in order. -/
abbrev LocalRule := Face → List Face → Prop

/-- The face of the top of a shape. -/
def Shape.face : Shape → Face
  | .node kind span _ => ⟨kind, span⟩
  | .lambda span _ => ⟨.lambdaExpression, span⟩

/-- The faces of the parameters of a lambda. -/
def parameterFaces : List LambdaItem → List Face
  | [] => []
  | .parameter s :: items => s.face :: parameterFaces items
  | .statement _ :: items => parameterFaces items

/-- The faces of the statements of a lambda. -/
def statementFaces : List LambdaItem → List Face
  | [] => []
  | .parameter _ :: items => statementFaces items
  | .statement s :: items => s.face :: statementFaces items

/-- The shape of a parameter or a statement. -/
def LambdaItem.shape : LambdaItem → Shape
  | .parameter s => s
  | .statement s => s

/-- The shape of a statement. -/
def LambdaItem.statement? : LambdaItem → Option Shape
  | .parameter _ => none
  | .statement s => some s

/-- The shape of a parameter. -/
def LambdaItem.parameter? : LambdaItem → Option Shape
  | .parameter s => some s
  | .statement _ => none

theorem filterMap_statement?_statements (ss : List Shape) :
    (ss.map LambdaItem.statement).filterMap LambdaItem.statement? = ss := by
  rw [List.filterMap_map]
  exact List.filterMap_some

theorem filterMap_statement?_parameters (ss : List Shape) :
    (ss.map LambdaItem.parameter).filterMap LambdaItem.statement? = [] := by
  simp [LambdaItem.statement?]

theorem filterMap_parameter?_parameters (ss : List Shape) :
    (ss.map LambdaItem.parameter).filterMap LambdaItem.parameter? = ss := by
  rw [List.filterMap_map]
  exact List.filterMap_some

theorem filterMap_parameter?_statements (ss : List Shape) :
    (ss.map LambdaItem.statement).filterMap LambdaItem.parameter? = [] := by
  simp [LambdaItem.parameter?]

/-- What holds of all items holds of the parameters and of the statements. -/
theorem forall_parameterFaces_and_statementFaces {F : Face → Prop} {items : List LambdaItem}
    (h : ∀ item ∈ items, F item.shape.face) :
    (∀ f ∈ parameterFaces items, F f) ∧ ∀ f ∈ statementFaces items, F f := by
  induction items with
  | nil => simp [parameterFaces, statementFaces]
  | cons item items ih =>
    obtain ⟨hitem, hitems⟩ := List.forall_mem_cons.mp h
    obtain ⟨hp, hs⟩ := ih hitems
    cases item with
    | parameter s => exact ⟨List.forall_mem_cons.mpr ⟨hitem, hp⟩, hs⟩
    | statement s => exact ⟨hp, List.forall_mem_cons.mpr ⟨hitem, hs⟩⟩

/-! ## 2. Conditions on shapes and trees -/

mutual

/-- A rule holds at every node of a shape. -/
def Shape.Everywhere (rule : LocalRule) : Shape → Prop
  | .node kind span children =>
    rule ⟨kind, span⟩ (children.map Shape.face) ∧ EverywhereAll rule children
  | .lambda span items =>
    rule ⟨.lambdaExpression, span⟩ [⟨.functionLiteral, span⟩] ∧
      rule ⟨.functionLiteral, span⟩ (⟨.block, span⟩ :: parameterFaces items) ∧
      rule ⟨.block, span⟩ (statementFaces items) ∧ EverywhereItems rule items

/-- A rule holds at every node of the shapes of a row. -/
def EverywhereAll (rule : LocalRule) : List Shape → Prop
  | [] => True
  | s :: ss => s.Everywhere rule ∧ EverywhereAll rule ss

/-- A rule holds at every node between the braces of a lambda. -/
def EverywhereItems (rule : LocalRule) : List LambdaItem → Prop
  | [] => True
  | .parameter s :: items => s.Everywhere rule ∧ EverywhereItems rule items
  | .statement s :: items => s.Everywhere rule ∧ EverywhereItems rule items

end

theorem everywhereAll_iff {rule : LocalRule} {ss : List Shape} :
    EverywhereAll rule ss ↔ ∀ s ∈ ss, s.Everywhere rule := by
  induction ss with
  | nil => simp [EverywhereAll]
  | cons s ss ih => rw [EverywhereAll, ih, List.forall_mem_cons]

theorem everywhereItems_iff {rule : LocalRule} {items : List LambdaItem} :
    EverywhereItems rule items ↔ ∀ item ∈ items, item.shape.Everywhere rule := by
  induction items with
  | nil => simp [EverywhereItems]
  | cons item items ih =>
    rw [List.forall_mem_cons]
    cases item <;> rw [EverywhereItems, ih, LambdaItem.shape]

namespace Tree

/-- The face of the node at a place. -/
def face? (t : Tree) (id : NodeId) : Option Face :=
  (t.get? id).map fun node => ⟨node.kind, node.span⟩

/-- A rule holds at a place: there is a node, its children are nodes, and they keep the rule. -/
def LocalAt (t : Tree) (rule : LocalRule) (id : NodeId) : Prop :=
  ∃ face faces, t.face? id = some face ∧ (t.children id).map t.face? = faces.map some ∧
    rule face faces

variable {t : Tree}

theorem face?_of_get? {id : NodeId} {node : Node} (h : t.get? id = some node) :
    t.face? id = some ⟨node.kind, node.span⟩ := by
  rw [face?, h]
  rfl

/-- The kind of a node is that of its face. -/
theorem kind?_eq_map_face? (t : Tree) (id : NodeId) :
    t.kind? id = (t.face? id).map Face.kind := by
  rw [kind?, face?, Option.map_map]
  rfl

/-- The span of a node is that of its face. -/
theorem span_of_face? {id : NodeId} {face : Face} (h : t.face? id = some face) :
    t.span id = face.span := by
  obtain ⟨node, hn, rfl⟩ := Option.map_eq_some_iff.mp h
  rw [span, hn]

theorem localAt_of_get? {rule : LocalRule} {id : NodeId} {node : Node} {faces : List Face}
    (hn : t.get? id = some node) (hc : node.children.map t.face? = faces.map some)
    (hr : rule ⟨node.kind, node.span⟩ faces) : t.LocalAt rule id :=
  ⟨_, faces, face?_of_get? hn, by rw [children_of_get? hn]; exact hc, hr⟩

/-! ## 3. Where a shape stands -/

theorem Stands.face?_eq {parent id : NodeId} {s : Shape} (h : t.Stands parent id s) :
    t.face? id = some s.face := by
  cases s with
  | node kind span children =>
    rw [Stands] at h
    obtain ⟨ids, hn, -⟩ := h
    exact face?_of_get? hn
  | lambda span items =>
    rw [Stands] at h
    obtain ⟨literal, block, parameters, statements, hn, -⟩ := h
    exact face?_of_get? hn

theorem StandsAll.faces {parent : NodeId} {ss : List Shape} {ids : List NodeId}
    (h : t.StandsAll parent ss ids) : ids.map t.face? = (ss.map Shape.face).map some := by
  induction ss generalizing ids with
  | nil =>
    rw [standsAll_nil_iff] at h
    rw [h]
    rfl
  | cons s ss ih =>
    obtain ⟨id, rest, rfl, hs, hss⟩ := standsAll_cons_iff.mp h
    rw [List.map_cons, List.map_cons, List.map_cons, hs.face?_eq, ih hss]

theorem StandsItems.faces {literal block : NodeId} {items : List LambdaItem}
    {parameters statements : List NodeId}
    (h : t.StandsItems literal block items parameters statements) :
    parameters.map t.face? = (parameterFaces items).map some ∧
      statements.map t.face? = (statementFaces items).map some := by
  induction items generalizing parameters statements with
  | nil =>
    rw [StandsItems] at h
    rw [h.1, h.2]
    exact ⟨rfl, rfl⟩
  | cons item items ih =>
    cases item with
    | parameter s =>
      rw [StandsItems] at h
      obtain ⟨id, rest, rfl, hs, hi⟩ := h
      obtain ⟨hp, hst⟩ := ih hi
      rw [List.map_cons, hs.face?_eq, hp, parameterFaces, statementFaces]
      exact ⟨rfl, hst⟩
    | statement s =>
      rw [StandsItems] at h
      obtain ⟨id, rest, rfl, hs, hi⟩ := h
      obtain ⟨hp, hst⟩ := ih hi
      rw [List.map_cons, hs.face?_eq, hst, parameterFaces, statementFaces]
      exact ⟨hp, rfl⟩

/-- What holds at a node and below its children holds below the node. -/
theorem forall_descendants_of_get? (ht : t.Linked) {P : NodeId → Prop} {id : NodeId} {node : Node}
    (hn : t.get? id = some node) (hid : P id)
    (hc : ∀ d ∈ node.children.flatMap t.descendants, P d) : ∀ d ∈ t.descendants id, P d := by
  rw [ht.descendants_eq (lt_size_of_get? hn), children_of_get? hn]
  exact List.forall_mem_cons.mpr ⟨hid, hc⟩

mutual

/-- **A rule that holds everywhere in a shape holds at the nodes where the shape stands.** -/
theorem Stands.localAt (ht : t.Linked) {rule : LocalRule} {parent id : NodeId} :
    ∀ {s : Shape}, s.Everywhere rule → t.Stands parent id s →
      ∀ d ∈ t.descendants id, t.LocalAt rule d
  | .node kind span children, hr, h => by
    rw [Shape.Everywhere] at hr
    rw [Stands] at h
    obtain ⟨ids, hn, hc⟩ := h
    exact forall_descendants_of_get? ht hn (localAt_of_get? hn hc.faces hr.1)
      (StandsAll.localAt ht hr.2 hc)
  | .lambda span items, hr, h => by
    rw [Shape.Everywhere] at hr
    rw [Stands] at h
    obtain ⟨literal, block, parameters, statements, hn, hl, hb, hi⟩ := h
    obtain ⟨hrn, hrl, hrb, hri⟩ := hr
    obtain ⟨hparameters, hstatements⟩ := hi.faces
    obtain ⟨hp, hs⟩ := StandsItems.localAt ht hri hi
    have hblock : ∀ d ∈ t.descendants block, t.LocalAt rule d :=
      forall_descendants_of_get? ht hb (localAt_of_get? hb hstatements hrb) hs
    have hliteral : ∀ d ∈ t.descendants literal, t.LocalAt rule d := by
      refine forall_descendants_of_get? ht hl (localAt_of_get? hl ?_ hrl) ?_
      · rw [List.map_cons, List.map_cons, face?_of_get? hb, hparameters]
      · intro d hd
        rw [List.flatMap_cons, List.mem_append] at hd
        exact hd.elim (hblock d) (hp d)
    refine forall_descendants_of_get? ht hn (localAt_of_get? hn ?_ hrn) ?_
    · rw [List.map_singleton, face?_of_get? hl]
      rfl
    · rw [List.flatMap_singleton]
      exact hliteral

theorem StandsAll.localAt (ht : t.Linked) {rule : LocalRule} {parent : NodeId} :
    ∀ {ss : List Shape} {ids : List NodeId}, EverywhereAll rule ss → t.StandsAll parent ss ids →
      ∀ d ∈ ids.flatMap t.descendants, t.LocalAt rule d
  | [], ids, _, h => by
    rw [standsAll_nil_iff] at h
    simp [h]
  | s :: ss, ids, hr, h => by
    rw [EverywhereAll] at hr
    obtain ⟨id, rest, rfl, hs, hss⟩ := standsAll_cons_iff.mp h
    intro d hd
    rw [List.flatMap_cons, List.mem_append] at hd
    exact hd.elim (Stands.localAt ht hr.1 hs d) (StandsAll.localAt ht hr.2 hss d)

theorem StandsItems.localAt (ht : t.Linked) {rule : LocalRule} {literal block : NodeId} :
    ∀ {items : List LambdaItem} {parameters statements : List NodeId},
    EverywhereItems rule items → t.StandsItems literal block items parameters statements →
      (∀ d ∈ parameters.flatMap t.descendants, t.LocalAt rule d) ∧
      ∀ d ∈ statements.flatMap t.descendants, t.LocalAt rule d
  | [], parameters, statements, _, h => by
    rw [StandsItems] at h
    simp [h.1, h.2]
  | .parameter s :: items, parameters, statements, hr, h => by
    rw [EverywhereItems] at hr
    rw [StandsItems] at h
    obtain ⟨id, rest, rfl, hs, hi⟩ := h
    obtain ⟨hp, hst⟩ := StandsItems.localAt ht hr.2 hi
    refine ⟨fun d hd => ?_, hst⟩
    rw [List.flatMap_cons, List.mem_append] at hd
    exact hd.elim (Stands.localAt ht hr.1 hs d) (hp d)
  | .statement s :: items, parameters, statements, hr, h => by
    rw [EverywhereItems] at hr
    rw [StandsItems] at h
    obtain ⟨id, rest, rfl, hs, hi⟩ := h
    obtain ⟨hp, hst⟩ := StandsItems.localAt ht hr.2 hi
    refine ⟨hp, fun d hd => ?_⟩
    rw [List.flatMap_cons, List.mem_append] at hd
    exact hd.elim (Stands.localAt ht hr.1 hs d) (hst d)

end

/-- **A rule for the nodes of a file**: it holds everywhere if it holds of the file and what is
grafted below it, and everywhere in what is grafted. -/
theorem localAt_graftAll (ht : t.Linked) {rule : LocalRule} {kind : Kind} {span : Span}
    (hfile : t.get? root = some { kind, span }) {ss : List Shape}
    (hroot : rule ⟨kind, span⟩ (ss.map Shape.face)) (hss : EverywhereAll rule ss) :
    ∀ id < (t.graftAll root ss).size, (t.graftAll root ss).LocalAt rule id := by
  have hlt : root < t.size := ht.size_pos
  have hg : (t.graftAll root ss).Linked := ht.graftAll hlt ss
  obtain ⟨ids, hn, -, hc⟩ := standsAll_graftAll ht hlt ss
  rw [hfile, Option.map_some] at hn
  have hall : ∀ d ∈ (t.graftAll root ss).descendants root, (t.graftAll root ss).LocalAt rule d :=
    forall_descendants_of_get? hg hn (localAt_of_get? hn hc.faces hroot) (hc.localAt hg hss)
  exact fun id hid => hall id (hg.mem_descendants_root hid)

end Tree

/-! ## 4. Faces in document order -/

mutual

/-- The faces of the nodes of a shape in document order.  The statements of a lambda come before its
parameters, because its block is the first child of its literal. -/
def Shape.faces : Shape → List Face
  | .node kind span children => ⟨kind, span⟩ :: facesOf children
  | .lambda span items =>
    ⟨.lambdaExpression, span⟩ :: ⟨.functionLiteral, span⟩ :: ⟨.block, span⟩ ::
      (facesInStatements items ++ facesInParameters items)

/-- The faces of the nodes of a row of shapes. -/
def facesOf : List Shape → List Face
  | [] => []
  | s :: ss => s.faces ++ facesOf ss

/-- The faces of the nodes in the parameters of a lambda. -/
def facesInParameters : List LambdaItem → List Face
  | [] => []
  | .parameter s :: items => s.faces ++ facesInParameters items
  | .statement _ :: items => facesInParameters items

/-- The faces of the nodes in the statements of a lambda. -/
def facesInStatements : List LambdaItem → List Face
  | [] => []
  | .parameter _ :: items => facesInStatements items
  | .statement s :: items => s.faces ++ facesInStatements items

end

theorem facesOf_append (ss ss' : List Shape) : facesOf (ss ++ ss') = facesOf ss ++ facesOf ss' := by
  induction ss with
  | nil => rw [facesOf]; rfl
  | cons s ss ih => rw [List.cons_append, facesOf, facesOf, ih, List.append_assoc]

/-- The shapes of the statements and of the parameters, each by themselves. -/
theorem facesInItems_eq (items : List LambdaItem) :
    facesInStatements items = facesOf (items.filterMap LambdaItem.statement?) ∧
      facesInParameters items = facesOf (items.filterMap LambdaItem.parameter?) := by
  induction items with
  | nil => simp [facesInStatements, facesInParameters, facesOf]
  | cons item items ih =>
    obtain ⟨hs, hp⟩ := ih
    cases item with
    | parameter s =>
      have hcons : (LambdaItem.parameter s :: items).filterMap LambdaItem.parameter? =
        s :: items.filterMap LambdaItem.parameter? := rfl
      rw [facesInStatements, facesInParameters, hcons, facesOf, hp]
      exact ⟨hs, rfl⟩
    | statement s =>
      have hcons : (LambdaItem.statement s :: items).filterMap LambdaItem.statement? =
        s :: items.filterMap LambdaItem.statement? := rfl
      rw [facesInStatements, facesInParameters, hcons, facesOf, hs]
      exact ⟨rfl, hp⟩

namespace Tree

variable {t : Tree}

/-- The faces at and below a node, from those of its children. -/
theorem map_face?_descendants (ht : t.Linked) {id : NodeId} {node : Node} {faces : List Face}
    (hn : t.get? id = some node)
    (hc : (node.children.flatMap t.descendants).map t.face? = faces.map some) :
    (t.descendants id).map t.face? = ((⟨node.kind, node.span⟩ : Face) :: faces).map some := by
  rw [ht.descendants_eq (lt_size_of_get? hn), children_of_get? hn, List.map_cons, List.map_cons, hc,
    face?_of_get? hn]

mutual

/-- **Where a shape stands, the nodes in document order have the faces of the shape.** -/
theorem Stands.faces_descendants (ht : t.Linked) {parent id : NodeId} :
    ∀ {s : Shape}, t.Stands parent id s → (t.descendants id).map t.face? = s.faces.map some
  | .node kind span children, h => by
    rw [Stands] at h
    obtain ⟨ids, hn, hc⟩ := h
    rw [Shape.faces]
    exact map_face?_descendants ht hn (StandsAll.faces_descendants ht hc)
  | .lambda span items, h => by
    rw [Stands] at h
    obtain ⟨literal, block, parameters, statements, hn, hl, hb, hi⟩ := h
    obtain ⟨hp, hs⟩ := StandsItems.faces_descendants ht hi
    have hblock := map_face?_descendants ht hb hs
    rw [Shape.faces]
    refine map_face?_descendants ht hn ?_
    rw [List.flatMap_singleton]
    refine map_face?_descendants ht hl ?_
    rw [List.flatMap_cons, List.map_append, hblock, hp, ← List.map_append, List.cons_append]

theorem StandsAll.faces_descendants (ht : t.Linked) {parent : NodeId} :
    ∀ {ss : List Shape} {ids : List NodeId}, t.StandsAll parent ss ids →
      (ids.flatMap t.descendants).map t.face? = (facesOf ss).map some
  | [], ids, h => by
    rw [standsAll_nil_iff.mp h, facesOf]
    rfl
  | s :: ss, ids, h => by
    obtain ⟨id, rest, rfl, hs, hss⟩ := standsAll_cons_iff.mp h
    rw [List.flatMap_cons, List.map_append, Stands.faces_descendants ht hs,
      StandsAll.faces_descendants ht hss, facesOf, List.map_append]

theorem StandsItems.faces_descendants (ht : t.Linked) {literal block : NodeId} :
    ∀ {items : List LambdaItem} {parameters statements : List NodeId},
      t.StandsItems literal block items parameters statements →
      (parameters.flatMap t.descendants).map t.face? = (facesInParameters items).map some ∧
        (statements.flatMap t.descendants).map t.face? = (facesInStatements items).map some
  | [], parameters, statements, h => by
    rw [StandsItems] at h
    rw [h.1, h.2, facesInParameters, facesInStatements]
    exact ⟨rfl, rfl⟩
  | .parameter s :: items, parameters, statements, h => by
    rw [StandsItems] at h
    obtain ⟨id, rest, rfl, hs, hi⟩ := h
    obtain ⟨hp, hst⟩ := StandsItems.faces_descendants ht hi
    rw [List.flatMap_cons, List.map_append, Stands.faces_descendants ht hs, hp, facesInParameters,
      facesInStatements, List.map_append]
    exact ⟨rfl, hst⟩
  | .statement s :: items, parameters, statements, h => by
    rw [StandsItems] at h
    obtain ⟨id, rest, rfl, hs, hi⟩ := h
    obtain ⟨hp, hst⟩ := StandsItems.faces_descendants ht hi
    rw [List.flatMap_cons, List.map_append, Stands.faces_descendants ht hs, hst, facesInParameters,
      facesInStatements, List.map_append]
    exact ⟨hp, rfl⟩

end

/-- **The faces of a file in document order**: its own, and those of what is grafted below it. -/
theorem faces_graftAll (ht : t.Linked) {kind : Kind} {span : Span}
    (hfile : t.get? root = some { kind, span }) (ss : List Shape) :
    ((t.graftAll root ss).descendants root).map (t.graftAll root ss).face? =
      ((⟨kind, span⟩ : Face) :: facesOf ss).map some := by
  have hlt : root < t.size := ht.size_pos
  obtain ⟨ids, hn, -, hc⟩ := standsAll_graftAll ht hlt ss
  have hg : (t.graftAll root ss).Linked := ht.graftAll hlt ss
  rw [hfile, Option.map_some] at hn
  exact map_face?_descendants hg hn (hc.faces_descendants hg)

end Tree

end SpecOutline
