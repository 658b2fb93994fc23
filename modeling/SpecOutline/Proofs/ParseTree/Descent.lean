/-
# Going down a parse tree

Lowering goes down a parse tree by functions that call one another, one for each way to read a row
of trees.  What is proved about it by induction needs no more than this: the shapes of a phrase are
those of some of its children in order (`FromRow`), either bare or below a node that has the place
of the phrase.  A property of phrases and their shapes that is kept by these few forms
(`KeptByLowering`) holds of whatever lowering makes (`KeptByLowering.shapes`).

The trees that are met on the way down are the `parts` of a parse tree.  Conditions on them give
rules for the nodes of the lowered tree: a rule that a phrase can answer for (`AnswersFor`) holds at
every node (`AnswersFor.localAt_lower`).
-/
import SpecOutline.Proofs.ParseTree.ByKind
import SpecOutline.Proofs.Tree.Everywhere

namespace SpecOutline

/-- Calls come from call expressions only. -/
theorem Role.kind_of_call {position : Position} {kind : String}
    (h : Role.at position kind = .call) : kind = "call_expression" := by
  have hof : Role.ofKind kind = .call → kind = "call_expression" := by
    unfold Role.ofKind
    repeat' split
    all_goals intro hk
    all_goals first | rfl | cases hk
  unfold Role.at at h
  repeat' split at h
  all_goals first | exact hof h | cases h

namespace ParseTree

/-! ## 1. Parts -/

mutual

/-- A tree and all trees below it, tokens included, in document order. -/
def parts : ParseTree → List ParseTree
  | .node info children => .node info children :: partsAmong children

/-- The trees of a row and all trees below them. -/
def partsAmong : List ParseTree → List ParseTree
  | [] => []
  | t :: ts => parts t ++ partsAmong ts

end

theorem parts_eq (t : ParseTree) : t.parts = t :: partsAmong t.children := by
  obtain ⟨info, children⟩ := t
  rw [parts]
  rfl

theorem self_mem_parts (t : ParseTree) : t ∈ t.parts := by
  rw [parts_eq]
  exact List.mem_cons_self

theorem mem_partsAmong {p : ParseTree} {ts : List ParseTree} :
    p ∈ partsAmong ts ↔ ∃ t ∈ ts, p ∈ t.parts := by
  induction ts with
  | nil => simp [partsAmong]
  | cons t ts ih => simp [partsAmong, ih]

/-- What holds of all parts of a tree holds of all parts of its children. -/
theorem forall_parts_of_mem {Q : ParseTree → Prop} {t c : ParseTree} (h : ∀ p ∈ t.parts, Q p)
    (hc : c ∈ t.children) : ∀ p ∈ c.parts, Q p := by
  intro p hp
  refine h p ?_
  rw [parts_eq]
  exact List.mem_cons_of_mem t (mem_partsAmong.mpr ⟨c, hc, hp⟩)

/-! ## 2. Shapes of a row -/

/-- The shapes are those that some trees of a row leave, in the order of the row. -/
inductive FromRow (P : ParseTree → List Shape → Prop) : List ParseTree → List Shape → Prop
  | nil : FromRow P [] []
  | skip {t : ParseTree} {ts : List ParseTree} {ss : List Shape} :
      FromRow P ts ss → FromRow P (t :: ts) ss
  | take {t : ParseTree} {ts : List ParseTree} {ss ss' : List Shape} :
      P t ss → FromRow P ts ss' → FromRow P (t :: ts) (ss ++ ss')

/-- What stands between the braces of a lambda comes from the trees of a row in order: parameters
from a phrase for parameters, statements from any other. -/
inductive ItemsFromRow (P : ParseTree → List Shape → Prop) :
    List ParseTree → List LambdaItem → Prop
  | nil : ItemsFromRow P [] []
  | skip {t : ParseTree} {ts : List ParseTree} {items : List LambdaItem} :
      ItemsFromRow P ts items → ItemsFromRow P (t :: ts) items
  | parameters {t : ParseTree} {ts : List ParseTree} {items : List LambdaItem} :
      t.kind = "lambda_parameters" → P t (shapes .anywhere t) → ItemsFromRow P ts items →
      ItemsFromRow P (t :: ts) ((shapes .anywhere t).map .parameter ++ items)
  | statements {t : ParseTree} {ts : List ParseTree} {items : List LambdaItem} :
      P t (shapes .anywhere t) → ItemsFromRow P ts items →
      ItemsFromRow P (t :: ts) ((shapes .anywhere t).map .statement ++ items)

variable {P : ParseTree → List Shape → Prop}

/-- A row that leaves nothing. -/
theorem FromRow.none : ∀ ts : List ParseTree, FromRow P ts []
  | [] => .nil
  | _ :: ts => .skip (FromRow.none ts)

/-- Of a row, only the first tree leaves anything. -/
theorem FromRow.first {t : ParseTree} {ss : List Shape} (h : P t ss) (ts : List ParseTree) :
    FromRow P (t :: ts) ss := by
  have h' := FromRow.take h (FromRow.none ts)
  rwa [List.append_nil] at h'

namespace ItemsFromRow

variable {ts : List ParseTree} {items : List LambdaItem}

/-- Parameters and statements together are the shapes of a row. -/
theorem fromRow (h : ItemsFromRow P ts items) : FromRow P ts (items.map LambdaItem.shape) := by
  have hparameter : LambdaItem.shape ∘ .parameter = id := rfl
  have hstatement : LambdaItem.shape ∘ .statement = id := rfl
  induction h with
  | nil => exact .nil
  | skip _ ih => exact .skip ih
  | parameters _ hp _ ih =>
    rw [List.map_append, List.map_map, hparameter, List.map_id]
    exact .take hp ih
  | statements hp _ ih =>
    rw [List.map_append, List.map_map, hstatement, List.map_id]
    exact .take hp ih

/-- The statements alone are the shapes of a row. -/
theorem statements_fromRow (h : ItemsFromRow P ts items) :
    FromRow P ts (items.filterMap LambdaItem.statement?) := by
  induction h with
  | nil => exact .nil
  | skip _ ih => exact .skip ih
  | parameters _ _ _ ih =>
    rw [List.filterMap_append, filterMap_statement?_parameters]
    exact .skip ih
  | statements hp _ ih =>
    rw [List.filterMap_append, filterMap_statement?_statements]
    exact .take hp ih

/-- The parameters alone are the shapes of a row, all from phrases for parameters. -/
theorem parameters_fromRow (h : ItemsFromRow P ts items) :
    FromRow (fun t ss => P t ss ∧ t.kind = "lambda_parameters" ∧ ss = shapes .anywhere t) ts
      (items.filterMap LambdaItem.parameter?) := by
  induction h with
  | nil => exact .nil
  | skip _ ih => exact .skip ih
  | parameters hk hp _ ih =>
    rw [List.filterMap_append, filterMap_parameter?_parameters]
    exact .take ⟨hp, hk, rfl⟩ ih
  | statements _ _ ih =>
    rw [List.filterMap_append, filterMap_parameter?_statements]
    exact .skip ih

end ItemsFromRow

/-! ## 3. What lowering keeps -/

/-- A property of phrases and the shapes they leave that every form of lowering keeps. -/
structure KeptByLowering (P : ParseTree → List Shape → Prop) : Prop where
  /-- The phrase only groups. -/
  row : ∀ {t : ParseTree} {ss : List Shape}, FromRow P t.children ss → P t ss
  /-- The phrase becomes a node that is no call. -/
  node : ∀ {t : ParseTree} {ss : List Shape} {kind : Kind}, kind ≠ .call →
    FromRow P t.children ss → P t [.node kind t.span ss]
  /-- The phrase becomes a call. -/
  call : ∀ {t : ParseTree}, t.kind = "call_expression" →
    FromRow P t.children (callParts t.children) →
    P t [.node .call t.span (callParts t.children)]
  /-- The phrase becomes a node with annotations in front of all else. -/
  declaration : ∀ {t modifiers : ParseTree} {ss : List Shape} {kind : Kind}, kind ≠ .call →
    modifiers ∈ t.children → P modifiers modifiers.annotationShapes →
    FromRow P t.children ss → P t [.node kind t.span (modifiers.annotationShapes ++ ss)]
  /-- The phrase becomes a lambda. -/
  lambda : ∀ {t : ParseTree} {items : List LambdaItem}, ItemsFromRow P t.children items →
    P t [.lambda t.span items]
  /-- The phrase becomes a lambda behind a callee. -/
  trailing : ∀ {t : ParseTree} {s : Shape}, P t [s] → P t [.node .lambdaArgument t.span [s]]

namespace KeptByLowering

/-- A phrase may leave a node with nothing below it. -/
theorem leaf (hP : KeptByLowering P) {kind : Kind} (hk : kind ≠ .call) (t : ParseTree) :
    P t [.node kind t.span []] :=
  hP.node hk (FromRow.none t.children)

/-- The annotations among modifiers are those of some phrases in order. -/
theorem annotationShapes (hP : KeptByLowering P) (modifiers : ParseTree) :
    P modifiers modifiers.annotationShapes := by
  refine hP.row ?_
  rw [ParseTree.annotationShapes, phrases, List.filter_filter]
  induction modifiers.children with
  | nil => exact .nil
  | cons t ts ih =>
    rw [List.filter_cons]
    split
    · exact FromRow.take (hP.leaf Kind.noConfusion t) ih
    · exact .skip ih

/-- A declaration with annotations in front, if its modifiers have any. -/
theorem withAnnotations (hP : KeptByLowering P) {t : ParseTree} {kind : Kind} {ss : List Shape}
    (hk : kind ≠ .call) (h : FromRow P t.children ss) :
    P t [.node kind t.span (classAnnotations t.children ++ ss)] := by
  rw [classAnnotations]
  cases hm : modifiers? t.children with
  | none => exact hP.node hk h
  | some modifiers =>
    exact hP.declaration hk (List.mem_of_find?_eq_some hm) (hP.annotationShapes modifiers) h

mutual

/-- **What lowering keeps holds of every phrase and the shapes it leaves**, wherever it stands. -/
theorem shapes (hP : KeptByLowering P) (position : Position) :
    ∀ t : ParseTree, P t (ParseTree.shapes position t)
  | .node info children => by
    rw [ParseTree.shapes]
    cases hr : Role.at position info.kind with
    | skipped => exact hP.row (FromRow.none children)
    | wrapper => exact hP.row (shapesAmong hP .anywhere children)
    | mergedCall => exact hP.row (callParts hP children)
    | argumentGroup => exact hP.row (shapesAmong hP .suffix children)
    | stringLiteral => exact hP.leaf Kind.noConfusion (.node info children)
    | identifier => exact hP.leaf Kind.noConfusion (.node info children)
    | importing => exact hP.leaf Kind.noConfusion (.node info children)
    | annotated => exact hP.leaf Kind.noConfusion (.node info children)
    | selection => exact hP.node Kind.noConfusion (shapesAmong hP .anywhere children)
    | valueArgument => exact hP.node Kind.noConfusion (shapesAmong hP .anywhere children)
    | plain => exact hP.node Kind.noConfusion (shapesAmong hP .anywhere children)
    | annotatedLambda => exact hP.node Kind.noConfusion (firstLambda hP children)
    | call => exact hP.call (Role.kind_of_call hr) (callParts hP children)
    | classDeclaration => exact hP.withAnnotations Kind.noConfusion (members hP false _ 0 children)
    | objectDeclaration => exact hP.withAnnotations Kind.noConfusion (members hP false _ 0 children)
    | functionDeclaration => exact hP.node Kind.noConfusion (members hP true _ 0 children)
    | lambda => exact hP.lambda (lambdaItems hP children)
    | trailingLambda => exact hP.trailing (hP.lambda (lambdaItems hP children))

theorem shapesAmong (hP : KeptByLowering P) (position : Position) :
    ∀ ts : List ParseTree, FromRow P ts (ParseTree.shapesAmong position ts)
  | [] => by rw [ParseTree.shapesAmong]; exact .nil
  | t :: ts => by
    rw [ParseTree.shapesAmong]
    split
    · exact .take (shapes hP position t) (shapesAmong hP position ts)
    · exact .skip (shapesAmong hP position ts)

theorem callParts (hP : KeptByLowering P) :
    ∀ ts : List ParseTree, FromRow P ts (ParseTree.callParts ts)
  | [] => by rw [ParseTree.callParts]; exact .nil
  | t :: ts => by
    rw [ParseTree.callParts]
    split
    · exact .take (shapes hP .callee t) (shapesAmong hP .suffix ts)
    · exact .skip (callParts hP ts)

theorem firstLambda (hP : KeptByLowering P) :
    ∀ ts : List ParseTree, FromRow P ts (ParseTree.firstLambda ts)
  | [] => by rw [ParseTree.firstLambda]; exact .nil
  | t :: ts => by
    rw [ParseTree.firstLambda]
    split
    · exact .first (shapes hP .anywhere t) ts
    · exact .skip (firstLambda hP ts)

theorem lambdaItems (hP : KeptByLowering P) :
    ∀ ts : List ParseTree, ItemsFromRow P ts (ParseTree.lambdaItems ts)
  | [] => by rw [ParseTree.lambdaItems]; exact .nil
  | t :: ts => by
    rw [ParseTree.lambdaItems]
    split
    · exact .skip (lambdaItems hP ts)
    · split
      · next hk => exact .parameters (beq_iff_eq.mp hk) (shapes hP .anywhere t) (lambdaItems hP ts)
      · exact .statements (shapes hP .anywhere t) (lambdaItems hP ts)

theorem members (hP : KeptByLowering P) (keepAnnotations : Bool) (skip : List Nat) (i : Nat) :
    ∀ ts : List ParseTree, FromRow P ts (ParseTree.members keepAnnotations skip i ts)
  | [] => by rw [ParseTree.members]; exact .nil
  | t :: ts => by
    rw [ParseTree.members]
    split
    · exact .skip (members hP keepAnnotations skip (i + 1) ts)
    · split
      · cases keepAnnotations with
        | true => exact .take (hP.annotationShapes t) (members hP true skip (i + 1) ts)
        | false => exact .skip (members hP false skip (i + 1) ts)
      · exact .take (shapes hP .anywhere t) (members hP keepAnnotations skip (i + 1) ts)

end

end KeptByLowering

/-! ## 4. Rules for the nodes of a lowered tree -/

/-- A phrase under a condition `H`, which its children inherit, answers for a rule: all nodes that
it leaves satisfy `F`, and a node with its place and such children keeps the rule. -/
structure AnswersFor (H : ParseTree → Prop) (F : ParseTree → Face → Prop) (rule : LocalRule) :
    Prop where
  inherited : ∀ {t c : ParseTree}, H t → c ∈ t.children → H c
  own : ∀ {t : ParseTree} (kind : Kind), H t → F t ⟨kind, t.span⟩
  child : ∀ {t c : ParseTree} {f : Face}, H t → c ∈ t.children → F c f → F t f
  node : ∀ {t : ParseTree} {kind : Kind} {faces : List Face}, H t → kind ≠ .call →
    (∀ f ∈ faces, F t f) → rule ⟨kind, t.span⟩ faces
  call : ∀ {t : ParseTree}, H t → t.kind = "call_expression" →
    (∀ f ∈ (callParts t.children).map Shape.face, F t f) →
    rule ⟨.call, t.span⟩ ((callParts t.children).map Shape.face)

/-- The shapes that a phrase answers for. -/
def Answered (F : ParseTree → Face → Prop) (rule : LocalRule) (t : ParseTree) (ss : List Shape) :
    Prop :=
  ∀ s ∈ ss, F t s.face ∧ s.Everywhere rule

namespace AnswersFor

variable {H : ParseTree → Prop} {F : ParseTree → Face → Prop} {rule : LocalRule} {t : ParseTree}

theorem faces_of_answered {ss : List Shape} (h : Answered F rule t ss) :
    ∀ f ∈ ss.map Shape.face, F t f := by
  intro f hf
  obtain ⟨s, hs, rfl⟩ := List.mem_map.mp hf
  exact (h s hs).1

/-- A phrase answers for what its children answer for. -/
theorem of_row (hA : AnswersFor H F rule) (ht : H t) {ts : List ParseTree} {ss : List Shape}
    (h : FromRow (fun t ss => H t → Answered F rule t ss) ts ss) (hts : ts ⊆ t.children) :
    Answered F rule t ss := by
  induction h with
  | nil => intro s hs; cases hs
  | skip _ ih => exact ih (List.subset_of_cons_subset hts)
  | take hc _ ih =>
    obtain ⟨hmem, hsub⟩ := List.cons_subset.mp hts
    intro s hs
    rcases List.mem_append.mp hs with hs | hs
    · obtain ⟨hf, he⟩ := hc (hA.inherited ht hmem) s hs
      exact ⟨hA.child ht hmem hf, he⟩
    · exact ih hsub s hs

/-- A node that is no call, around shapes that its phrase answers for. -/
theorem singleton (hA : AnswersFor H F rule) (ht : H t) {kind : Kind} {ss : List Shape}
    (hk : kind ≠ .call) (h : Answered F rule t ss) :
    Answered F rule t [.node kind t.span ss] := by
  intro s hs
  rw [List.mem_singleton.mp hs, Shape.Everywhere]
  exact ⟨hA.own kind ht, hA.node ht hk (faces_of_answered h),
    everywhereAll_iff.mpr fun s hs => (h s hs).2⟩

/-- **Phrases answer for their shapes.** -/
theorem kept (hA : AnswersFor H F rule) :
    KeptByLowering fun t ss => H t → Answered F rule t ss where
  row := fun h ht => hA.of_row ht h (List.Subset.refl _)
  node := fun hk h ht => hA.singleton ht hk (hA.of_row ht h (List.Subset.refl _))
  call := by
    intro t hk h ht s hs
    have hrow := hA.of_row ht h (List.Subset.refl _)
    rw [List.mem_singleton.mp hs, Shape.Everywhere]
    exact ⟨hA.own .call ht, hA.call ht hk (faces_of_answered hrow),
      everywhereAll_iff.mpr fun s hs => (hrow s hs).2⟩
  declaration := by
    intro t modifiers ss kind hk hm ha h ht
    refine hA.singleton ht hk ?_
    have hfirst := hA.of_row ht (FromRow.first ha []) (List.cons_subset.mpr ⟨hm, List.nil_subset _⟩)
    intro s hs
    exact (List.mem_append.mp hs).elim (hfirst s) (hA.of_row ht h (List.Subset.refl _) s)
  lambda := by
    intro t items h ht s hs
    have hitems := fun item hi =>
      hA.of_row ht h.fromRow (List.Subset.refl _) _ (List.mem_map_of_mem (a := item) hi)
    obtain ⟨hp, hst⟩ := forall_parameterFaces_and_statementFaces fun item hi => (hitems item hi).1
    rw [List.mem_singleton.mp hs, Shape.Everywhere]
    refine ⟨hA.own _ ht, hA.node ht Kind.noConfusion ?_, hA.node ht Kind.noConfusion ?_,
      hA.node ht Kind.noConfusion hst, everywhereItems_iff.mpr fun item hi => (hitems item hi).2⟩
    · exact List.forall_mem_singleton.mpr (hA.own _ ht)
    · exact List.forall_mem_cons.mpr ⟨hA.own _ ht, hp⟩
  trailing := fun h ht => hA.singleton ht Kind.noConfusion (h ht)

/-- **A rule that phrases answer for holds at every node of the lowered tree.** -/
theorem localAt_lower (hA : AnswersFor H F rule) {source : ParseTree} (hs : H source) :
    ∀ id < source.lower.size, source.lower.LocalAt rule id := by
  have hrow : Answered F rule source (shapesAmong .anywhere source.children) :=
    hA.of_row hs (hA.kept.shapesAmong .anywhere source.children) (List.Subset.refl _)
  have hfile := ((Tree.linked_empty .kotlin).setSpan Tree.root source.span).setPackage
    source.package?
  exact Tree.localAt_graftAll hfile rfl (hA.node hs Kind.noConfusion (faces_of_answered hrow))
    (everywhereAll_iff.mpr fun s hs => (hrow s hs).2)

end AnswersFor

end ParseTree

end SpecOutline
