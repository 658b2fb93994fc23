/-
# The form of lowered trees

Whatever a grammar makes of a text, in the tree made from it every kind of node has its place.

* `Kind.Admits` says which children a node of a kind may have: a lambda has one literal, a literal
  has one block and the parameters behind it, a trailing lambda holds a lambda or nothing and stands
  in a call, and some kinds are leaves.
* `Row` says this of a row of shapes, together with the kinds of their tops.  Lowering makes such
  rows (`row_shapes`): only behind a callee are there trailing lambdas among them.
* So the rule holds at every node of a lowered tree (`localAt_lower`).  With the links in order it
  says the same of parents (`Form`).
-/
import SpecOutline.Proofs.ParseTree.ByKind
import SpecOutline.Proofs.Suite.Lowered
import SpecOutline.Proofs.Tree.Everywhere

namespace SpecOutline

/-! ## 1. Which kinds stand below which -/

namespace Kind

/-- The kinds that stand below nodes of any kind. -/
def isOrdinary : Kind → Bool
  | .file _ | .block | .functionLiteral | .lambdaArgument => false
  | _ => true

/-- The kinds that stand in a call: trailing lambdas, besides. -/
def isCallPart : Kind → Bool
  | .file _ | .block | .functionLiteral => false
  | _ => true

/-- The kind of the only nodes that stand around a node of a kind. -/
def home? : Kind → Option Kind
  | .block => some .functionLiteral
  | .functionLiteral => some .lambdaExpression
  | .lambdaArgument => some .call
  | _ => none

/-- The kinds of nodes without children. -/
def isLeaf : Kind → Bool
  | .importing _ | .annotated _ | .nameRef _ | .stringTemplate _ => true
  | _ => false

/-- The kinds of nodes with anything ordinary below them. -/
def isOpen : Kind → Bool
  | .classLike _ | .objectLike _ | .function _ | .dotQualified | .valueArgument | .other _ => true
  | _ => false

/-- The kinds that the children of a node may have. -/
def Admits : Kind → List Kind → Prop
  | .importing _, kinds | .annotated _, kinds | .nameRef _, kinds | .stringTemplate _, kinds =>
    kinds = []
  | .call, kinds => ∀ k ∈ kinds, k.isCallPart = true
  | .lambdaArgument, kinds => kinds = [] ∨ kinds = [.lambdaExpression]
  | .lambdaExpression, kinds => kinds = [.functionLiteral]
  | .functionLiteral, kinds =>
    ∃ parameters, kinds = .block :: parameters ∧ ∀ k ∈ parameters, k = .other "lambda_parameters"
  | _, kinds => ∀ k ∈ kinds, k.isOrdinary = true

theorem isCallPart_of_isOrdinary {k : Kind} (h : k.isOrdinary = true) : k.isCallPart = true := by
  cases k with
  | file | block | functionLiteral | lambdaArgument => cases h
  | _ => rfl

theorem admits_nil_of_isLeaf {k : Kind} (h : k.isLeaf = true) : k.Admits [] := by
  cases k with
  | importing | annotated | nameRef | stringTemplate => rfl
  | _ => cases h

theorem Admits.eq_nil_of_isLeaf {k : Kind} {kinds : List Kind} (ha : k.Admits kinds)
    (h : k.isLeaf = true) : kinds = [] := by
  cases k with
  | importing | annotated | nameRef | stringTemplate => exact ha
  | _ => cases h

theorem isOrdinary_of_isLeaf {k : Kind} (h : k.isLeaf = true) : k.isOrdinary = true := by
  cases k with
  | importing | annotated | nameRef | stringTemplate => rfl
  | _ => cases h

theorem admits_of_isOpen {k : Kind} (h : k.isOpen = true) {kinds : List Kind}
    (hk : ∀ k ∈ kinds, k.isOrdinary = true) : k.Admits kinds := by
  cases k with
  | classLike | objectLike | function | dotQualified | valueArgument | other => exact hk
  | _ => cases h

theorem isOrdinary_of_isOpen {k : Kind} (h : k.isOpen = true) : k.isOrdinary = true := by
  cases k with
  | classLike | objectLike | function | dotQualified | valueArgument | other => rfl
  | _ => cases h

end Kind

/-- The children of a node have kinds that the node admits. -/
def admitted : LocalRule := fun face faces => face.kind.Admits (faces.map Face.kind)

/-! ## 2. Rows of shapes -/

/-- The tops of the shapes are of allowed kinds, and everywhere in the shapes children have kinds
that are admitted. -/
def Row (allowed : Kind → Bool) (ss : List Shape) : Prop :=
  ∀ s ∈ ss, allowed s.face.kind = true ∧ s.Everywhere admitted

namespace Row

variable {allowed : Kind → Bool} {ss ss' : List Shape}

theorem nil : Row allowed [] := by
  intro s hs
  cases hs

theorem singleton {s : Shape} (hk : allowed s.face.kind = true) (hs : s.Everywhere admitted) :
    Row allowed [s] := by
  intro s' hs'
  rw [List.mem_singleton.mp hs']
  exact ⟨hk, hs⟩

theorem append (h : Row allowed ss) (h' : Row allowed ss') : Row allowed (ss ++ ss') := by
  intro s hs
  exact (List.mem_append.mp hs).elim (h s) (h' s)

theorem weaken (h : Row Kind.isOrdinary ss) : Row Kind.isCallPart ss := by
  intro s hs
  exact ⟨Kind.isCallPart_of_isOrdinary (h s hs).1, (h s hs).2⟩

theorem everywhereAll (h : Row allowed ss) : EverywhereAll admitted ss :=
  everywhereAll_iff.mpr fun s hs => (h s hs).2

theorem kinds (h : Row allowed ss) :
    ∀ k ∈ (ss.map Shape.face).map Face.kind, allowed k = true := by
  intro k hk
  rw [List.map_map] at hk
  obtain ⟨s, hs, rfl⟩ := List.mem_map.mp hk
  exact (h s hs).1

/-- A node around a row of kinds that it admits. -/
theorem everywhere_node {kind : Kind} {span : Span} (h : Row allowed ss)
    (hk : kind.Admits ((ss.map Shape.face).map Face.kind)) :
    (Shape.node kind span ss).Everywhere admitted := by
  rw [Shape.Everywhere]
  exact ⟨hk, h.everywhereAll⟩

theorem leaf {kind : Kind} (hl : kind.isLeaf = true) (span : Span) :
    Row Kind.isOrdinary [.node kind span []] := by
  refine singleton (Kind.isOrdinary_of_isLeaf hl) ?_
  rw [Shape.Everywhere, EverywhereAll]
  exact ⟨Kind.admits_nil_of_isLeaf hl, trivial⟩

theorem node {kind : Kind} (ho : kind.isOpen = true) (span : Span)
    (h : Row Kind.isOrdinary ss) : Row Kind.isOrdinary [.node kind span ss] :=
  singleton (Kind.isOrdinary_of_isOpen ho) (h.everywhere_node (Kind.admits_of_isOpen ho h.kinds))

end Row

/-- What stands between the braces of a lambda: parameters, and statements of kinds that stand
anywhere. -/
def ItemRow (items : List LambdaItem) : Prop :=
  (∀ f ∈ parameterFaces items, f.kind = .other "lambda_parameters") ∧
    (∀ f ∈ statementFaces items, f.kind.isOrdinary = true) ∧ EverywhereItems admitted items

namespace ItemRow

variable {items : List LambdaItem} {ss : List Shape}

theorem append_statements (h' : ItemRow items) (h : Row Kind.isOrdinary ss) :
    ItemRow (ss.map .statement ++ items) := by
  induction ss with
  | nil => exact h'
  | cons s ss ih =>
    obtain ⟨hs, hss⟩ := List.forall_mem_cons.mp h
    obtain ⟨hp, hst, he⟩ := ih hss
    refine ⟨hp, ?_, ?_⟩
    · exact List.forall_mem_cons.mpr ⟨hs.1, hst⟩
    · rw [List.map_cons, List.cons_append, EverywhereItems]
      exact ⟨hs.2, he⟩

theorem cons_parameter (h' : ItemRow items) {s : Shape}
    (hk : s.face.kind = .other "lambda_parameters") (hs : s.Everywhere admitted) :
    ItemRow (.parameter s :: items) := by
  obtain ⟨hp, hst, he⟩ := h'
  refine ⟨?_, hst, ?_⟩
  · exact List.forall_mem_cons.mpr ⟨hk, hp⟩
  · rw [EverywhereItems]
    exact ⟨hs, he⟩

/-- A lambda around such items. -/
theorem everywhere_lambda (h : ItemRow items) (span : Span) :
    (Shape.lambda span items).Everywhere admitted := by
  rw [Shape.Everywhere]
  refine ⟨rfl, ⟨_, rfl, ?_⟩, ?_, h.2.2⟩
  · intro k hk
    obtain ⟨f, hf, rfl⟩ := List.mem_map.mp hk
    exact h.1 f hf
  · intro k hk
    obtain ⟨f, hf, rfl⟩ := List.mem_map.mp hk
    exact h.2.1 f hf

end ItemRow

/-! ## 3. Lowering makes such rows -/

/-- The kinds that a phrase at a position may be lowered to. -/
def Position.allows : Position → Kind → Bool
  | .anywhere => Kind.isOrdinary
  | .callee => Kind.isCallPart
  | .suffix => Kind.isCallPart

/-- What stands anywhere stands at every position. -/
theorem Row.at_position {ss : List Shape} (h : Row Kind.isOrdinary ss) (position : Position) :
    Row position.allows ss := by
  cases position with
  | anywhere => exact h
  | callee => exact h.weaken
  | suffix => exact h.weaken

/-- The roles that a phrase has only in a call. -/
def Role.isInCall : Role → Bool
  | .mergedCall | .argumentGroup | .annotatedLambda | .trailingLambda => true
  | _ => false

theorem Role.ofKind_not_isInCall (kind : String) : (Role.ofKind kind).isInCall = false := by
  unfold Role.ofKind
  repeat' split
  all_goals rfl

/-- Such a role comes with a position in a call. -/
theorem Role.allows_of_isInCall {position : Position} {kind : String}
    (h : (Role.at position kind).isInCall = true) : position.allows = Kind.isCallPart := by
  cases position with
  | anywhere => rw [Role.at, Role.ofKind_not_isInCall] at h; cases h
  | callee => rfl
  | suffix => rfl

namespace ParseTree

theorem row_annotationShapes (modifiers : ParseTree) :
    Row Kind.isOrdinary modifiers.annotationShapes := by
  intro s hs
  obtain ⟨t, -, rfl⟩ := List.mem_map.mp hs
  exact Row.leaf rfl t.span _ List.mem_cons_self

theorem row_classAnnotations (children : List ParseTree) :
    Row Kind.isOrdinary (classAnnotations children) := by
  unfold classAnnotations
  cases modifiers? children with
  | none => exact Row.nil
  | some modifiers => exact row_annotationShapes modifiers

mutual

/-- **The shapes of a phrase make a row**, of kinds that its position allows. -/
theorem row_shapes (position : Position) :
    ∀ t : ParseTree, Row position.allows (shapes position t)
  | .node info children => by
    rw [shapes]
    cases hr : Role.at position info.kind with
    | skipped => exact Row.nil
    | wrapper => exact (row_shapesAmong .anywhere children).at_position position
    | stringLiteral => exact (Row.leaf rfl info.span).at_position position
    | identifier => exact (Row.leaf rfl info.span).at_position position
    | importing => exact (Row.leaf rfl info.span).at_position position
    | annotated => exact (Row.leaf rfl info.span).at_position position
    | classDeclaration =>
      refine Row.at_position (Row.node rfl info.span ?_) position
      exact (row_classAnnotations children).append (row_members false _ 0 children)
    | objectDeclaration =>
      refine Row.at_position (Row.node rfl info.span ?_) position
      exact (row_classAnnotations children).append (row_members false _ 0 children)
    | functionDeclaration =>
      refine Row.at_position (Row.node rfl info.span ?_) position
      exact row_members true _ 0 children
    | selection =>
      refine Row.at_position (Row.node rfl info.span ?_) position
      exact row_shapesAmong .anywhere children
    | valueArgument =>
      refine Row.at_position (Row.node rfl info.span ?_) position
      exact row_shapesAmong .anywhere children
    | plain =>
      refine Row.at_position (Row.node rfl info.span ?_) position
      exact row_shapesAmong .anywhere children
    | call =>
      refine Row.at_position (Row.singleton rfl ?_) position
      exact (row_callParts children).everywhere_node (row_callParts children).kinds
    | lambda =>
      refine Row.at_position (Row.singleton rfl ?_) position
      exact (itemRow_lambdaItems children).everywhere_lambda info.span
    -- from here on trailing lambdas may come out, and the position allows them
    | mergedCall =>
      rw [Role.allows_of_isInCall (by rw [hr]; rfl)]
      exact row_callParts children
    | argumentGroup =>
      rw [Role.allows_of_isInCall (by rw [hr]; rfl)]
      exact row_shapesAmong .suffix children
    | annotatedLambda =>
      rw [Role.allows_of_isInCall (by rw [hr]; rfl)]
      refine Row.singleton rfl ?_
      rw [Shape.Everywhere]
      exact trailing_firstLambda children
    | trailingLambda =>
      rw [Role.allows_of_isInCall (by rw [hr]; rfl)]
      refine Row.singleton rfl ?_
      rw [Shape.Everywhere, EverywhereAll, EverywhereAll]
      exact ⟨.inr rfl, (itemRow_lambdaItems children).everywhere_lambda info.span, trivial⟩

theorem row_shapesAmong (position : Position) :
    ∀ ts : List ParseTree, Row position.allows (shapesAmong position ts)
  | [] => by rw [shapesAmong]; exact Row.nil
  | t :: ts => by
    rw [shapesAmong]
    split
    · exact (row_shapes position t).append (row_shapesAmong position ts)
    · exact row_shapesAmong position ts

theorem row_callParts : ∀ ts : List ParseTree, Row Kind.isCallPart (callParts ts)
  | [] => by rw [callParts]; exact Row.nil
  | t :: ts => by
    rw [callParts]
    split
    · exact (row_shapes .callee t).append (row_shapesAmong .suffix ts)
    · exact row_callParts ts

/-- Below a trailing lambda stands the first lambda there is, or nothing. -/
theorem trailing_firstLambda : ∀ ts : List ParseTree,
    Kind.Admits .lambdaArgument (((firstLambda ts).map Shape.face).map Face.kind) ∧
      EverywhereAll admitted (firstLambda ts)
  | [] => by
    rw [firstLambda, EverywhereAll]
    exact ⟨.inl rfl, trivial⟩
  | t :: ts => by
    rw [firstLambda]
    split
    · next hk =>
      rw [Bool.and_eq_true, beq_iff_eq] at hk
      refine ⟨?_, (row_shapes .anywhere t).everywhereAll⟩
      rw [shapes_lambda_literal hk.2]
      exact .inr rfl
    · exact trailing_firstLambda ts

theorem itemRow_lambdaItems : ∀ ts : List ParseTree, ItemRow (lambdaItems ts)
  | [] => by
    rw [lambdaItems]
    refine ⟨?_, ?_, ?_⟩
    · intro f hf; cases hf
    · intro f hf; cases hf
    · rw [EverywhereItems]; trivial
  | t :: ts => by
    rw [lambdaItems]
    split
    · exact itemRow_lambdaItems ts
    · split
      · next hk =>
        have hrow := row_shapes .anywhere t
        rw [shapes_lambda_parameters (beq_iff_eq.mp hk)] at hrow ⊢
        exact (itemRow_lambdaItems ts).cons_parameter rfl (hrow _ List.mem_cons_self).2
      · exact (itemRow_lambdaItems ts).append_statements (row_shapes .anywhere t)

theorem row_members (keepAnnotations : Bool) (skip : List Nat) (i : Nat) :
    ∀ ts : List ParseTree, Row Kind.isOrdinary (members keepAnnotations skip i ts)
  | [] => by rw [members]; exact Row.nil
  | t :: ts => by
    rw [members]
    split
    · exact row_members keepAnnotations skip (i + 1) ts
    · split
      · refine Row.append ?_ (row_members keepAnnotations skip (i + 1) ts)
        cases keepAnnotations with
        | true => exact row_annotationShapes t
        | false => exact Row.nil
      · exact (row_shapes .anywhere t).append (row_members keepAnnotations skip (i + 1) ts)

end

/-- **In a lowered tree every node has children of kinds that it admits.** -/
theorem localAt_lower (source : ParseTree) :
    ∀ id < source.lower.size, source.lower.LocalAt admitted id := by
  have hrow := row_shapesAmong .anywhere source.children
  have hfile := ((Tree.linked_empty .kotlin).setSpan Tree.root source.span).setPackage
    source.package?
  exact Tree.localAt_graftAll hfile rfl hrow.kinds hrow.everywhereAll

end ParseTree

/-! ## 4. Parents and children in a lowered tree -/

/-- What a node admits is ordinary, or has its home in the node. -/
theorem Kind.Admits.of_mem {k kind : Kind} {kinds : List Kind} (h : kind.Admits kinds)
    (hk : k ∈ kinds) : k.isOrdinary = true ∨ k.home? = some kind := by
  cases kind with
  | importing | annotated | nameRef | stringTemplate =>
    obtain rfl : kinds = [] := h
    cases hk
  | call =>
    have hpart := h k hk
    cases k with
    | lambdaArgument => exact .inr rfl
    | file | block | functionLiteral => cases hpart
    | _ => exact .inl rfl
  | lambdaArgument =>
    obtain rfl | rfl : kinds = [] ∨ kinds = [.lambdaExpression] := h
    · cases hk
    · rw [List.mem_singleton.mp hk]
      exact .inl rfl
  | lambdaExpression =>
    obtain rfl : kinds = [.functionLiteral] := h
    rw [List.mem_singleton.mp hk]
    exact .inr rfl
  | functionLiteral =>
    obtain ⟨parameters, rfl, hp⟩ := h
    rcases List.mem_cons.mp hk with rfl | hk
    · exact .inr rfl
    · rw [hp k hk]
      exact .inl rfl
  | _ => exact .inl (h k hk)

/-- A kind with a home is not ordinary. -/
theorem Kind.not_isOrdinary_of_home? {k home : Kind} (h : k.home? = some home) :
    k.isOrdinary = false := by
  cases k with
  | block | functionLiteral | lambdaArgument => rfl
  | _ => cases h

namespace Tree

/-- **The form of a lowered tree.**  A lambda is an expression around a literal around a block,
with the parameters behind the block; a trailing lambda stands in a call and holds a lambda or
nothing; imports, annotations, names and string literals are leaves; and no node but the first is
a file. -/
structure Form (t : Tree) : Prop where
  block_parent : ∀ id, t.kind? id = some .block →
    ∃ p, t.parent? id = some p ∧ t.kind? p = some .functionLiteral
  literal_parent : ∀ id, t.kind? id = some .functionLiteral →
    ∃ p, t.parent? id = some p ∧ t.kind? p = some .lambdaExpression
  lambda_children : ∀ id, t.kind? id = some .lambdaExpression →
    ∃ literal block parameters, t.children id = [literal] ∧
      t.kind? literal = some .functionLiteral ∧ t.children literal = block :: parameters ∧
      t.kind? block = some .block ∧
      ∀ p ∈ parameters, t.kind? p = some (.other "lambda_parameters")
  argument_parent : ∀ id, t.kind? id = some .lambdaArgument →
    ∃ p, t.parent? id = some p ∧ t.kind? p = some .call
  argument_children : ∀ id, t.kind? id = some .lambdaArgument →
    t.children id = [] ∨ ∃ lambda, t.children id = [lambda] ∧
      t.kind? lambda = some .lambdaExpression
  leaf : ∀ id kind, t.kind? id = some kind → kind.isLeaf = true → t.children id = []
  file : ∀ id, (∃ package?, t.kind? id = some (.file package?)) ↔ id = root

section Form

variable {t : Tree} (hrule : ∀ id < t.size, t.LocalAt admitted id)
include hrule

/-- The children of a node of a kind. -/
theorem admits_of_kind? {id : NodeId} {kind : Kind} (hk : t.kind? id = some kind) :
    ∃ kinds, (t.children id).map t.kind? = kinds.map some ∧ kind.Admits kinds := by
  obtain ⟨node, hn, -⟩ := Option.map_eq_some_iff.mp hk
  obtain ⟨face, faces, hf, hc, hr⟩ := hrule id (lt_size_of_get? hn)
  rw [kind?_eq_map_face?, hf, Option.map_some, Option.some.injEq] at hk
  subst hk
  refine ⟨faces.map Face.kind, ?_, hr⟩
  have hkinds := congrArg (List.map (Option.map Face.kind)) hc
  rw [List.map_map, List.map_map] at hkinds
  rw [List.map_map, List.map_congr_left fun id _ => kind?_eq_map_face? t id]
  exact hkinds

/-- **What a node says about its parent.** -/
theorem parent_of_kind? (ht : t.Linked) {id : NodeId} {k : Kind} (hk : t.kind? id = some k)
    (hne : id ≠ root) : ∃ p kind kinds, t.parent? id = some p ∧ t.kind? p = some kind ∧
      kind.Admits kinds ∧ k ∈ kinds := by
  obtain ⟨node, hn, -⟩ := Option.map_eq_some_iff.mp hk
  obtain ⟨p, hlt, hp⟩ := ht.parent_lt id (Nat.pos_of_ne_zero hne) (lt_size_of_get? hn)
  obtain ⟨pnode, hpn⟩ := get?_eq_some_iff_lt.mpr (Nat.lt_trans hlt (lt_size_of_get? hn))
  obtain ⟨kinds, hc, ha⟩ := admits_of_kind? hrule (kind?_of_get? hpn)
  have hmem : some k ∈ (t.children p).map t.kind? :=
    List.mem_map.mpr ⟨id, (ht.mem_children p id).mpr hp, hk⟩
  rw [hc] at hmem
  obtain ⟨k', hk', he⟩ := List.mem_map.mp hmem
  exact ⟨p, pnode.kind, kinds, hp, kind?_of_get? hpn, ha, Option.some.inj he ▸ hk'⟩

/-- A node with a home stands in it. -/
theorem parent_of_home? (ht : t.Linked) {id : NodeId} {k home : Kind}
    (hk : t.kind? id = some k) (hh : k.home? = some home) :
    ∃ p, t.parent? id = some p ∧ t.kind? p = some home := by
  have hne : id ≠ root := by
    rintro rfl
    obtain ⟨package?, hroot⟩ := ht.file
    rw [hroot, Option.some.injEq] at hk
    subst hk
    cases hh
  obtain ⟨p, kind, kinds, hp, hkp, ha, hmem⟩ := parent_of_kind? hrule ht hk hne
  rcases ha.of_mem hmem with ho | hhome
  · rw [Kind.not_isOrdinary_of_home? hh] at ho
    cases ho
  · rw [hh, Option.some.injEq] at hhome
    exact ⟨p, hp, hhome ▸ hkp⟩

/-- A trailing lambda holds a lambda or nothing. -/
theorem argument_children {id : NodeId} (hk : t.kind? id = some .lambdaArgument) :
    t.children id = [] ∨ ∃ lambda, t.children id = [lambda] ∧
      t.kind? lambda = some .lambdaExpression := by
  obtain ⟨kinds, hc, rfl | rfl⟩ := admits_of_kind? hrule hk
  · exact .inl (List.map_eq_nil_iff.mp hc)
  · exact .inr (List.map_eq_singleton_iff.mp hc)

/-- A lambda is an expression around a literal around a block and parameters. -/
theorem lambda_children {id : NodeId} (hk : t.kind? id = some .lambdaExpression) :
    ∃ literal block parameters, t.children id = [literal] ∧
      t.kind? literal = some .functionLiteral ∧ t.children literal = block :: parameters ∧
      t.kind? block = some .block ∧
      ∀ p ∈ parameters, t.kind? p = some (.other "lambda_parameters") := by
  obtain ⟨kinds, hc, rfl⟩ := admits_of_kind? hrule hk
  obtain ⟨literal, hid, hl⟩ := List.map_eq_singleton_iff.mp hc
  obtain ⟨kinds, hc, kinds', rfl, hp⟩ := admits_of_kind? hrule hl
  obtain ⟨block, parameters, hliteral, hb, hps⟩ := List.map_eq_cons_iff.mp hc
  refine ⟨literal, block, parameters, hid, hl, hliteral, hb, ?_⟩
  intro p hmem
  have hsome : t.kind? p ∈ kinds'.map some := hps ▸ List.mem_map_of_mem hmem
  obtain ⟨k, hk', he⟩ := List.mem_map.mp hsome
  rw [← he, hp k hk']

/-- No node but the first is a file. -/
theorem eq_root_of_file (ht : t.Linked) {id : NodeId} {package? : Option String}
    (hk : t.kind? id = some (.file package?)) : id = root := by
  by_contra hne
  obtain ⟨p, kind, kinds, -, -, ha, hmem⟩ := parent_of_kind? hrule ht hk hne
  rcases ha.of_mem hmem with h | h <;> cases h

/-- **A linked tree in which children have admitted kinds has the form of a lowered tree.** -/
theorem form_of_localAt (ht : t.Linked) : t.Form where
  block_parent := fun _ hk => parent_of_home? hrule ht hk rfl
  literal_parent := fun _ hk => parent_of_home? hrule ht hk rfl
  lambda_children := fun _ hk => lambda_children hrule hk
  argument_parent := fun _ hk => parent_of_home? hrule ht hk rfl
  argument_children := fun _ hk => argument_children hrule hk
  leaf := by
    intro id kind hk hleaf
    obtain ⟨kinds, hc, ha⟩ := admits_of_kind? hrule hk
    obtain rfl := ha.eq_nil_of_isLeaf hleaf
    exact List.map_eq_nil_iff.mp hc
  file := by
    intro id
    constructor
    · rintro ⟨package?, hk⟩
      exact eq_root_of_file hrule ht hk
    · rintro rfl
      exact ht.file

end Form

end Tree

/-! ## 5. Blocks of lowered trees -/

namespace Suite

variable {t : Tree}

/-- Where literals and blocks have their places, a node stands in a lambda if its parent is a
block. -/
theorem enclosingLambda?_isSome_iff (hf : t.Form) (id : NodeId) :
    (enclosingLambda? t.view id).isSome = true ↔
      ∃ p, t.parent? id = some p ∧ t.kind? p = some .block := by
  rw [Option.isSome_iff_exists]
  constructor
  · rintro ⟨lambda, hl⟩
    obtain ⟨block, literal, ⟨hp, hk⟩, -, -⟩ := enclosingLambda?_eq_some_iff.mp hl
    obtain ⟨kind, hkind, he⟩ := (Option.any_eq_true _ _).mp hk
    exact ⟨block, hp, beq_iff_eq.mp he ▸ hkind⟩
  · rintro ⟨block, hp, hk⟩
    obtain ⟨literal, hpl, hkl⟩ := hf.block_parent block hk
    obtain ⟨lambda, hpe, hke⟩ := hf.literal_parent literal hkl
    have hkind : ∀ {n k}, t.kind? n = some k → t.view.kindIs (· == k) n = true :=
      fun hk => (Option.any_eq_true _ _).mpr ⟨_, hk, beq_self_eq_true _⟩
    exact ⟨lambda, enclosingLambda?_eq_some_iff.mpr
      ⟨block, literal, ⟨hp, hkind hk⟩, ⟨hpl, hkind hkl⟩, ⟨hpe, hkind hke⟩⟩⟩

/-- Where trailing lambdas have their places, blocks are calls: a block has a trailing lambda. -/
theorem kind?_of_isBlock (ht : t.Linked) (hf : t.Form) {r : Resolver} {call : NodeId}
    (hb : isBlock t.view r call = true) : t.kind? call = some .call := by
  obtain ⟨b, hb⟩ := Option.isSome_iff_exists.mp hb
  obtain ⟨-, f, -, ha, -⟩ := block?_eq_some_iff.mp hb
  unfold hasBlockArguments at ha
  split at ha
  · next first last hargs =>
    have hmem : last ∈ t.children call := by
      have : last ∈ arguments t.view call := by simp [hargs]
      exact (List.mem_filter.mp this).1
    obtain ⟨p, hp, hk⟩ := hf.argument_parent last (beq_iff_eq.mp ha)
    rw [(ht.mem_children call last).mp hmem, Option.some.injEq] at hp
    exact hp ▸ hk
  · cases ha

/-- **The form of every lowered tree**, whatever the grammar says.  Lambdas, trailing lambdas,
leaves and the file have their places.  Hence, whatever names mean, only calls are blocks, and a
node stands in a lambda exactly if its parent is a block. -/
theorem form_lower (source : ParseTree) :
    source.lower.Form ∧
    (∀ (r : Resolver) (call : NodeId), isBlock source.lower.view r call = true →
      source.lower.kind? call = some .call) ∧
    ∀ id, (enclosingLambda? source.lower.view id).isSome = true ↔
      ∃ p, source.lower.parent? id = some p ∧ source.lower.kind? p = some .block := by
  have ht := source.linked_lower
  have hf : source.lower.Form := Tree.form_of_localAt source.localAt_lower ht
  exact ⟨hf, fun r call => kind?_of_isBlock ht hf, enclosingLambda?_isSome_iff hf⟩

/-- There are blocks in lowered trees, such as the test in the loop at place 34. -/
theorem form_lower_loopFile :
    isBlock Example.loopFile.lower.view
      (Index.build Example.loopFile.lower .framework).resolver 34 = true ∧
    Example.loopFile.lower.kind? 34 = some .call ∧
    ∃ p, Example.loopFile.lower.parent? 34 = some p ∧
      Example.loopFile.lower.kind? p = some .block := by
  obtain ⟨-, hkind, hiff⟩ := form_lower Example.loopFile
  obtain ⟨-, hblock, -⟩ := Example.owned_innerTest Example.mem_innerTests_loopFile
  exact ⟨hblock, hkind _ 34 hblock, (hiff 34).mp (by decide +kernel)⟩

end Suite

end SpecOutline
