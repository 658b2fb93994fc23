/-
# Places and order of the source

Where the parts of every phrase lie inside it, in order and without overlap (`Laid`), the tree made
from a parse tree keeps to the text.

* Every node lies inside its parent (`answersFor_nestedSpans`): a node has the place of a phrase,
  and what stands below it comes from phrases below that one.
* The calls, in document order, begin in the order of the text (`kept_ascending`).  Lowering changes
  the order of siblings in two ways: annotations are moved to the front of a class, and the
  statements of a lambda stand before its parameters.  Annotations hold no calls, and parameters
  hold none if there are no call phrases in them (`kept_noCall`).
-/
import SpecOutline.Proofs.ParseTree.Descent
import SpecOutline.Proofs.Suite.Lowered

namespace SpecOutline

/-! ## 1. Places of phrases -/

namespace Span

instance (s t : Span) : Decidable (s.Within t) :=
  inferInstanceAs (Decidable (t.start ≤ s.start ∧ s.stop ≤ t.stop))

theorem Within.refl (s : Span) : s.Within s := ⟨Nat.le_refl _, Nat.le_refl _⟩

theorem Within.trans {s t u : Span} (h : s.Within t) (h' : t.Within u) : s.Within u :=
  ⟨Nat.le_trans h'.1 h.1, Nat.le_trans h.2 h'.2⟩

end Span

namespace ParseTree

/-- The place of a phrase is a range, and its children lie in it, in order and without overlap. -/
def Laid (t : ParseTree) : Prop :=
  t.span.start ≤ t.span.stop ∧ (∀ c ∈ t.children, c.span.Within t.span) ∧
    t.children.Pairwise fun c d => c.span.stop ≤ d.span.start

instance (t : ParseTree) : Decidable t.Laid :=
  inferInstanceAs (Decidable (_ ∧ _ ∧ _))

/-- The children of a node lie inside it. -/
def nestedSpans : LocalRule := fun face faces => ∀ f ∈ faces, f.span.Within face.span

/-- **Phrases answer for the places of the nodes that they leave.** -/
theorem answersFor_nestedSpans :
    AnswersFor (fun t => ∀ p ∈ t.parts, p.Laid) (fun t f => f.span.Within t.span) nestedSpans where
  inherited := forall_parts_of_mem
  own := fun _ _ => Span.Within.refl _
  child := fun h hc hf => hf.trans ((h _ (self_mem_parts _)).2.1 _ hc)
  node := fun _ _ h => h
  call := fun _ _ h => h

end ParseTree

/-- Where children lie inside their parents, a node lies inside its parent. -/
theorem Tree.within_parent {t : Tree} (ht : t.Linked)
    (hrule : ∀ id < t.size, t.LocalAt ParseTree.nestedSpans id) {id p : NodeId}
    (hp : t.parent? id = some p) : (t.span id).Within (t.span p) := by
  have hmem : id ∈ t.children p := (ht.mem_children p id).mpr hp
  have hlt : p < t.size := Nat.lt_trans (ht.lt_of_parent? hp) (lt_size_of_parent? hp)
  obtain ⟨face, faces, hface, hc, hr⟩ := hrule p hlt
  have hid : t.face? id ∈ faces.map some := hc ▸ List.mem_map_of_mem hmem
  obtain ⟨f, hf, hid⟩ := List.mem_map.mp hid
  rw [span_of_face? hid.symm, span_of_face? hface]
  exact hr f hf

/-! ## 2. Where calls begin -/

/-- The beginnings of the calls in a row of shapes, in document order. -/
def callStarts (ss : List Shape) : List Nat :=
  ((facesOf ss).filter fun f => f.kind.isCall).map fun f => f.span.start

section CallStarts

variable {ss ss' : List Shape} {span : Span}

@[simp] theorem callStarts_nil : callStarts [] = [] := by
  rw [callStarts, facesOf]
  rfl

@[simp] theorem callStarts_append (ss ss' : List Shape) :
    callStarts (ss ++ ss') = callStarts ss ++ callStarts ss' := by
  rw [callStarts, facesOf_append, List.filter_append, List.map_append]
  rfl

theorem callStarts_call (span : Span) (ss : List Shape) :
    callStarts [.node .call span ss] = span.start :: callStarts ss := by
  rw [callStarts, facesOf, facesOf, List.append_nil, Shape.faces]
  rfl

theorem callStarts_node {kind : Kind} (hk : kind ≠ .call) (span : Span) (ss : List Shape) :
    callStarts [.node kind span ss] = callStarts ss := by
  have hcall : kind.isCall = false := by
    cases kind with
    | call => exact absurd rfl hk
    | _ => rfl
  rw [callStarts, facesOf, facesOf, List.append_nil, Shape.faces, List.filter_cons, hcall]
  rfl

/-- In a lambda the calls in statements come before those in parameters. -/
theorem callStarts_lambda (span : Span) (items : List LambdaItem) :
    callStarts [.lambda span items] = callStarts (items.filterMap LambdaItem.statement?) ++
      callStarts (items.filterMap LambdaItem.parameter?) := by
  obtain ⟨hs, hp⟩ := facesInItems_eq items
  rw [callStarts, facesOf, facesOf, List.append_nil, Shape.faces, hs, hp]
  simp [callStarts, Kind.isCall]

end CallStarts

namespace ParseTree

theorem callStarts_annotationShapes (modifiers : ParseTree) :
    callStarts modifiers.annotationShapes = [] := by
  rw [annotationShapes]
  induction modifiers.phrases.filter fun c => c.kind == "annotation" with
  | nil => exact callStarts_nil
  | cons t ts ih =>
    have hannotation : callStarts [annotationShape t] = [] :=
      (callStarts_node Kind.noConfusion t.span []).trans callStarts_nil
    rw [List.map_cons, ← List.singleton_append, callStarts_append, hannotation, ih]
    rfl

/-! ## 3. Phrases without calls -/

/-- Nothing in a tree is a call phrase. -/
def NoCall (t : ParseTree) : Prop := ∀ p ∈ t.parts, p.kind ≠ "call_expression"

instance (t : ParseTree) : Decidable t.NoCall :=
  inferInstanceAs (Decidable (∀ p ∈ t.parts, p.kind ≠ "call_expression"))

theorem NoCall.child {t c : ParseTree} (h : t.NoCall) (hc : c ∈ t.children) : c.NoCall :=
  forall_parts_of_mem h hc

/-- A row leaves no calls if none of its trees does. -/
theorem callStarts_of_row {P : ParseTree → List Shape → Prop} {ts : List ParseTree}
    {ss : List Shape} (h : FromRow P ts ss)
    (hts : ∀ t ∈ ts, ∀ ss, P t ss → callStarts ss = []) : callStarts ss = [] := by
  induction h with
  | nil => exact callStarts_nil
  | skip _ ih => exact ih (List.forall_mem_cons.mp hts).2
  | take ht _ ih =>
    obtain ⟨hhead, htail⟩ := List.forall_mem_cons.mp hts
    rw [callStarts_append, hhead _ ht, ih htail]
    rfl

/-- **Where there are no call phrases, no calls come out.** -/
theorem kept_noCall : KeptByLowering fun t ss => t.NoCall → callStarts ss = [] where
  row := fun h ht => callStarts_of_row h fun _ hc _ hss => hss (ht.child hc)
  node := by
    intro t ss kind hk h ht
    rw [callStarts_node hk]
    exact callStarts_of_row h fun _ hc _ hss => hss (ht.child hc)
  call := fun hk _ ht => absurd hk (ht _ (self_mem_parts _))
  declaration := by
    intro t modifiers ss kind hk _ _ h ht
    rw [callStarts_node hk, callStarts_append, callStarts_annotationShapes, List.nil_append]
    exact callStarts_of_row h fun _ hc _ hss => hss (ht.child hc)
  lambda := by
    intro t items h ht
    rw [callStarts_lambda, List.append_eq_nil_iff]
    exact ⟨callStarts_of_row h.statements_fromRow fun _ hc _ hss => hss (ht.child hc),
      callStarts_of_row h.parameters_fromRow fun _ hc _ hss => hss.1 (ht.child hc)⟩
  trailing := by
    intro t s h ht
    rw [callStarts_node Kind.noConfusion]
    exact h ht

/-! ## 4. The order of calls -/

/-- Numbers that never decrease and lie in a range. -/
def Ascending (span : Span) (starts : List Nat) : Prop :=
  starts.Pairwise (· ≤ ·) ∧ ∀ x ∈ starts, span.start ≤ x ∧ x ≤ span.stop

/-- Everything in a tree is laid out in order, and no call phrase is among the parameters of a
lambda. -/
def Orderly (t : ParseTree) : Prop :=
  ∀ p ∈ t.parts, p.Laid ∧ (p.kind = "lambda_parameters" → p.NoCall)

theorem Orderly.child {t c : ParseTree} (h : t.Orderly) (hc : c ∈ t.children) : c.Orderly :=
  forall_parts_of_mem h hc

/-- In a row that is laid out in order the calls of one tree come before those of the next. -/
theorem ascending_among {ts : List ParseTree} {ss : List Shape}
    (h : FromRow (fun t ss => t.Orderly → Ascending t.span (callStarts ss)) ts ss)
    (hts : ∀ t ∈ ts, t.Orderly) (hrow : ts.Pairwise fun c d => c.span.stop ≤ d.span.start) :
    (callStarts ss).Pairwise (· ≤ ·) ∧
      ∀ x ∈ callStarts ss, ∃ t ∈ ts, t.span.start ≤ x ∧ x ≤ t.span.stop := by
  induction h with
  | nil =>
    rw [callStarts_nil]
    exact ⟨.nil, fun x hx => absurd hx List.not_mem_nil⟩
  | skip _ ih =>
    obtain ⟨hpairs, hbounds⟩ := ih (List.forall_mem_cons.mp hts).2 (List.pairwise_cons.mp hrow).2
    refine ⟨hpairs, fun x hx => ?_⟩
    obtain ⟨t, ht, hx⟩ := hbounds x hx
    exact ⟨t, List.mem_cons_of_mem _ ht, hx⟩
  | @take t ts ss ss' ht _ ih =>
    obtain ⟨hhead, htail⟩ := List.forall_mem_cons.mp hts
    obtain ⟨hnext, hrest⟩ := List.pairwise_cons.mp hrow
    obtain ⟨hfirst, hinside⟩ := ht hhead
    obtain ⟨hpairs, hbounds⟩ := ih htail hrest
    rw [callStarts_append]
    refine ⟨List.pairwise_append.mpr ⟨hfirst, hpairs, ?_⟩, ?_⟩
    · intro x hx y hy
      obtain ⟨d, hd, hy, -⟩ := hbounds y hy
      calc
        x ≤ t.span.stop := (hinside x hx).2
        _ ≤ d.span.start := hnext d hd
        _ ≤ y := hy
    · intro x hx
      rcases List.mem_append.mp hx with hx | hx
      · exact ⟨t, List.mem_cons_self, hinside x hx⟩
      · obtain ⟨d, hd, hx⟩ := hbounds x hx
        exact ⟨d, List.mem_cons_of_mem _ hd, hx⟩

/-- The calls that the children of a phrase leave lie in it, in order. -/
theorem ascending_of_row {t : ParseTree} {ss : List Shape} (ht : t.Orderly)
    (h : FromRow (fun t ss => t.Orderly → Ascending t.span (callStarts ss)) t.children ss) :
    Ascending t.span (callStarts ss) := by
  obtain ⟨-, hinside, hrow⟩ := (ht t (self_mem_parts t)).1
  obtain ⟨hpairs, hbounds⟩ := ascending_among h (fun c hc => ht.child hc) hrow
  refine ⟨hpairs, fun x hx => ?_⟩
  obtain ⟨c, hc, hstart, hstop⟩ := hbounds x hx
  exact ⟨Nat.le_trans (hinside c hc).1 hstart, Nat.le_trans hstop (hinside c hc).2⟩

/-- **Calls begin in the order of the text**, in the shapes of every phrase. -/
theorem kept_ascending :
    KeptByLowering fun t ss => t.Orderly → Ascending t.span (callStarts ss) where
  row := fun h ht => ascending_of_row ht h
  node := by
    intro t ss kind hk h ht
    rw [callStarts_node hk]
    exact ascending_of_row ht h
  call := by
    intro t _ h ht
    obtain ⟨hpairs, hinside⟩ := ascending_of_row ht h
    have hspan : t.span.start ≤ t.span.stop := (ht t (self_mem_parts t)).1.1
    rw [callStarts_call]
    exact ⟨List.pairwise_cons.mpr ⟨fun x hx => (hinside x hx).1, hpairs⟩,
      List.forall_mem_cons.mpr ⟨⟨Nat.le_refl _, hspan⟩, hinside⟩⟩
  declaration := by
    intro t modifiers ss kind hk _ _ h ht
    rw [callStarts_node hk, callStarts_append, callStarts_annotationShapes, List.nil_append]
    exact ascending_of_row ht h
  lambda := by
    intro t items h ht
    -- the parameters come after the statements, but there are no calls in them
    have hparameters : callStarts (items.filterMap LambdaItem.parameter?) = [] := by
      refine callStarts_of_row h.parameters_fromRow ?_
      rintro c hc ss ⟨-, hk, rfl⟩
      exact kept_noCall.shapes .anywhere c ((ht.child hc c (self_mem_parts c)).2 hk)
    rw [callStarts_lambda, hparameters, List.append_nil]
    exact ascending_of_row ht h.statements_fromRow
  trailing := by
    intro t s h ht
    rw [callStarts_node Kind.noConfusion]
    exact h ht

end ParseTree

/-! ## 5. Lowered trees -/

/-- The beginnings of the nodes of some kinds, read off the faces of the nodes. -/
theorem Tree.starts_of_faces {t : Tree} (isKind : Kind → Bool) {ids : List NodeId}
    {faces : List Face} (h : ids.map t.face? = faces.map some) :
    ((ids.filter fun id => (t.kind? id).any isKind).map fun id => (t.span id).start) =
      (faces.filter fun f => isKind f.kind).map fun f => f.span.start := by
  induction ids generalizing faces with
  | nil =>
    rw [List.map_nil, eq_comm, List.map_eq_nil_iff] at h
    rw [h]
    rfl
  | cons id ids ih =>
    cases faces with
    | nil => cases h
    | cons f faces =>
      rw [List.map_cons, List.map_cons, List.cons.injEq] at h
      have hkind : (t.kind? id).any isKind = isKind f.kind := by
        rw [kind?_eq_map_face?, h.1]
        rfl
      rw [List.filter_cons, List.filter_cons, hkind]
      cases isKind f.kind with
      | true => simp [ih h.2, span_of_face? h.1]
      | false => simpa using ih h.2

namespace ParseTree

/-- The calls of a lowered tree begin where those of its shapes do. -/
theorem starts_calls_lower (source : ParseTree) :
    (source.lower.calls.map fun call => (source.lower.span call).start) =
      callStarts (shapesAmong .anywhere source.children) := by
  let file := ((Tree.empty .kotlin).setSpan Tree.root source.span).setPackage source.package?
  have hfile : file.Linked := ((Tree.linked_empty .kotlin).setSpan _ _).setPackage _
  have hroot : file.get? Tree.root =
      some { kind := .file source.package?, span := source.span } := rfl
  have hfaces := Tree.faces_graftAll hfile hroot (shapesAmong .anywhere source.children)
  have hdescendants : source.lower.descendants Tree.root =
      (file.graftAll Tree.root (shapesAmong .anywhere source.children)).descendants Tree.root := by
    refine Tree.descendants_congr ?_ ?_ Tree.root
    · rfl
    · intro id
      rfl
  rw [Tree.calls, Tree.findAll, hdescendants]
  -- the file itself is no call
  exact (Tree.starts_of_faces Kind.isCall hfaces).trans rfl

/-- **Lowering keeps places and order.**  Where the parts of every phrase lie inside it, in order
and without overlap, every node of the lowered tree but the file lies inside its parent.  If,
besides, no call phrase stands in the parameters of a lambda, the calls of the tree in document order
begin in the order of the text; and so do the blocks that a scan reports, whatever names mean. -/
theorem lower_in_place_and_order (source : ParseTree) (hlaid : ∀ p ∈ source.parts, p.Laid) :
    (∀ id < source.lower.size, id ≠ Tree.root → ∃ p, source.lower.parent? id = some p ∧
      (source.lower.span id).Within (source.lower.span p)) ∧
    ((∀ p ∈ source.parts, p.kind = "lambda_parameters" → p.NoCall) →
      (source.lower.calls.map fun call => (source.lower.span call).start).Pairwise (· ≤ ·) ∧
      ∀ (r : Resolver) (options : Suite.Options),
        ((Suite.scan source.lower r options).map fun f => f.span.start).Pairwise (· ≤ ·)) := by
  have ht := source.linked_lower
  refine ⟨?_, ?_⟩
  · intro id hid hne
    obtain ⟨p, -, hp⟩ := ht.parent_lt id (Nat.pos_of_ne_zero hne) hid
    exact ⟨p, hp, Tree.within_parent ht (answersFor_nestedSpans.localAt_lower hlaid) hp⟩
  · intro hparameters
    have horderly : source.Orderly := fun p hp => ⟨hlaid p hp, hparameters p hp⟩
    have hcalls := (ascending_of_row horderly
      (kept_ascending.shapesAmong .anywhere source.children)).1
    rw [← starts_calls_lower] at hcalls
    refine ⟨hcalls, fun r options => ?_⟩
    rw [List.pairwise_map] at hcalls ⊢
    refine hcalls.filterMap _ ?_
    intro call call' hle f hf f' hf'
    obtain ⟨-, -, hspan⟩ := (Suite.findingOf?_eq_some_iff ht).mp hf
    obtain ⟨-, -, hspan'⟩ := (Suite.findingOf?_eq_some_iff ht).mp hf'
    rw [hspan, hspan']
    exact hle

namespace Example

/-- A phrase at a place. -/
def placed (kind : String) (start stop : Nat) (parts : List ParseTree) : ParseTree :=
  .node { kind, text := "", span := { start, stop } } parts

/-- The arguments of a call of nothing, in parentheses. -/
def noArguments (start : Nat) : ParseTree := placed "value_arguments" start (start + 2) []

/-- The text `f(a()) { n -> g() }`. -/
def nestedCalls : ParseTree :=
  placed "source_file" 0 19 [placed "call_expression" 0 19 [
    placed "call_expression" 0 6 [placed "identifier" 0 1 [],
      placed "value_arguments" 1 6 [placed "value_argument" 2 5 [
        placed "call_expression" 2 5 [placed "identifier" 2 3 [], noArguments 3]]]],
    placed "annotated_lambda" 7 19 [placed "lambda_literal" 7 19 [
      placed "lambda_parameters" 9 10 [placed "identifier" 9 10 []],
      placed "call_expression" 14 17 [placed "identifier" 14 15 [], noArguments 15]]]]]

end Example

/-- Three calls, one in the arguments and one in the lambda of another, in the order of the text. -/
theorem lower_in_place_and_order_nestedCalls :
    (∀ p ∈ Example.nestedCalls.parts, p.Laid) ∧
    (∀ p ∈ Example.nestedCalls.parts, p.kind = "lambda_parameters" → p.NoCall) ∧
    (∃ p, Example.nestedCalls.lower.parent? 4 = some p ∧
      (Example.nestedCalls.lower.span 4).Within (Example.nestedCalls.lower.span p)) ∧
    (Example.nestedCalls.lower.calls.map fun call => (Example.nestedCalls.lower.span call).start) =
      [0, 2, 14] ∧
    (Example.nestedCalls.lower.calls.map fun call =>
      (Example.nestedCalls.lower.span call).start).Pairwise (· ≤ ·) := by
  have hlaid : ∀ p ∈ Example.nestedCalls.parts, p.Laid := by decide +kernel
  have hparameters : ∀ p ∈ Example.nestedCalls.parts,
      p.kind = "lambda_parameters" → p.NoCall := by decide +kernel
  obtain ⟨hplace, horder⟩ := lower_in_place_and_order Example.nestedCalls hlaid
  exact ⟨hlaid, hparameters, hplace 4 (by decide +kernel) (by decide), by decide +kernel,
    (horder hparameters).1⟩

end ParseTree

end SpecOutline
