/-
# Calls of calls

A call with several groups of arguments, as in `f(x)(y) { }`, is parsed as a call whose callee is a
call whose callee is a call: a `Chain` of calls that ends at the callee `f`.  Lowering makes one
call of the whole chain (`Chain.shapes_eq`).  Its children are what is left of the callee and of all
arguments, those of the innermost call first.  Phrases that only group arguments are looked through
(`argumentsOf`), and a lambda outside parentheses becomes a trailing lambda (`argumentShapes`).

So a call stands first below a call only if the callee of a chain leaves nothing or leaves what
stands in it.  A phrase that leaves a node of its own does neither (`shapes_eq_singleton`).
-/
import SpecOutline.Proofs.ParseTree.Descent
import SpecOutline.Proofs.ParseTree.Regular

namespace SpecOutline

namespace ParseTree

/-! ## 1. Chains of calls -/

/-- From a call down along first phrases: the calls on the way, the innermost first, and the first
phrase of the innermost, which is no call. -/
inductive Chain : ParseTree → List ParseTree → Option ParseTree → Prop
  | last {e : ParseTree} : e.kind = "call_expression" →
      (∀ c ∈ e.phrases.head?, c.kind ≠ "call_expression") → Chain e [e] e.phrases.head?
  | next {e e' : ParseTree} {calls : List ParseTree} {callee? : Option ParseTree} :
      e.kind = "call_expression" → e.phrases.head? = some e' → Chain e' calls callee? →
      Chain e (calls ++ [e]) callee?

theorem Chain.kind_eq {e : ParseTree} {calls : List ParseTree} {callee? : Option ParseTree}
    (h : Chain e calls callee?) : e.kind = "call_expression" := by
  cases h with
  | last hk => exact hk
  | next hk => exact hk

/-- The callee of a chain is no call. -/
theorem Chain.callee_kind_ne {e : ParseTree} {calls : List ParseTree} {callee? : Option ParseTree}
    (h : Chain e calls callee?) : ∀ c ∈ callee?, c.kind ≠ "call_expression" := by
  induction h with
  | last _ hlast => exact hlast
  | next _ _ _ ih => exact ih

theorem mem_children_of_head? {t c : ParseTree} (h : t.phrases.head? = some c) : c ∈ t.children :=
  (List.mem_filter.mp (List.mem_of_mem_head? h)).1

theorem sizeOf_lt_of_mem_children {t c : ParseTree} (h : c ∈ t.children) : sizeOf c < sizeOf t := by
  obtain ⟨info, children⟩ := t
  have hlt : sizeOf c < sizeOf children := List.sizeOf_lt_of_mem h
  rw [node.sizeOf_spec]
  omega

/-- Every call is the outermost of a chain. -/
theorem exists_chain (e : ParseTree) (hk : e.kind = "call_expression") :
    ∃ calls callee?, Chain e calls callee? := by
  by_cases hlast : ∀ c ∈ e.phrases.head?, c.kind ≠ "call_expression"
  · exact ⟨[e], _, .last hk hlast⟩
  · obtain ⟨e', he, hk'⟩ : ∃ c ∈ e.phrases.head?, c.kind = "call_expression" := by
      simpa using hlast
    have hlt := sizeOf_lt_of_mem_children (mem_children_of_head? he)
    obtain ⟨calls, callee?, h⟩ := exists_chain e' hk'
    exact ⟨calls ++ [e], callee?, .next hk he h⟩
termination_by sizeOf e

/-! ## 2. Arguments -/

/-- The kinds of phrases behind a callee that only group. -/
def argumentGroupKinds : List String := ["call_suffix", "value_arguments"]

mutual

/-- The arguments in a phrase behind a callee: what stands in groups, or else the phrase. -/
def argumentsOf : ParseTree → List ParseTree
  | .node info children =>
    if info.kind ∈ argumentGroupKinds then argumentsAmong children else [.node info children]

/-- The arguments in the phrases of a row. -/
def argumentsAmong : List ParseTree → List ParseTree
  | [] => []
  | t :: ts => if t.isNamed then argumentsOf t ++ argumentsAmong ts else argumentsAmong ts

end

/-- The shapes of an argument.  A lambda, bare or with annotations, is one trailing lambda. -/
def argumentShapes (t : ParseTree) : List Shape :=
  if t.kind = "annotated_lambda" then
    [.node .lambdaArgument t.span
      ((t.phraseOf? ["lambda_literal"]).toList.flatMap (shapes .anywhere))]
  else if t.kind = "lambda_literal" then [.node .lambdaArgument t.span (shapes .anywhere t)]
  else shapes .anywhere t

/-- The position matters only for the role. -/
theorem shapes_of_role {position position' : Position} {t : ParseTree}
    (h : Role.at position t.kind = Role.at position' t.kind) :
    shapes position t = shapes position' t := by
  obtain ⟨info, children⟩ := t
  have h' : Role.at position info.kind = Role.at position' info.kind := h
  rw [shapes, shapes, h']

theorem firstLambda_eq (ts : List ParseTree) :
    firstLambda ts = ((ts.filter isNamed).find? fun c => c.kind ∈ ["lambda_literal"]).toList.flatMap
      (shapes .anywhere) := by
  induction ts with
  | nil => rw [firstLambda]; rfl
  | cons t ts ih =>
    rw [firstLambda, ih, List.filter_cons]
    cases hn : t.isNamed with
    | false => simp
    | true =>
      by_cases hk : t.kind = "lambda_literal"
      · simp [hk]
      · simp [hk]

/-- A phrase behind a callee that is no group is one argument. -/
theorem shapes_suffix_of_not_group {t : ParseTree} (hg : t.kind ∉ argumentGroupKinds) :
    shapes .suffix t = argumentShapes t := by
  rw [argumentShapes]
  split
  · next hk =>
    rw [shapes_suffix_annotated_lambda hk, firstLambda_eq]
    rfl
  · next hk =>
    split
    · next hk' =>
      rw [shapes_lambda_literal hk', eq_node_of_kind hk']
      rfl
    · next hk' =>
      refine shapes_of_role ?_
      simp only [argumentGroupKinds, List.mem_cons, List.not_mem_nil, or_false, not_or] at hg
      rw [Role.at, Role.at]
      exacts [hg.1, hg.2, hk, hk']

mutual

/-- **Behind a callee, groups leave their arguments one by one.** -/
theorem shapes_suffix_eq : ∀ t : ParseTree,
    shapes .suffix t = (argumentsOf t).flatMap argumentShapes
  | .node info children => by
    rw [argumentsOf]
    split
    · next hg =>
      have hrole : Role.at .suffix info.kind = .argumentGroup := by
        simp only [argumentGroupKinds, List.mem_cons, List.not_mem_nil, or_false] at hg
        rcases hg with hg | hg <;> rw [hg] <;> rfl
      rw [shapes, hrole]
      exact shapesAmong_suffix_eq children
    · next hg =>
      rw [List.flatMap_singleton]
      exact shapes_suffix_of_not_group hg

theorem shapesAmong_suffix_eq : ∀ ts : List ParseTree,
    shapesAmong .suffix ts = (argumentsAmong ts).flatMap argumentShapes
  | [] => by rw [shapesAmong, argumentsAmong]; rfl
  | t :: ts => by
    rw [shapesAmong, argumentsAmong]
    split
    · rw [List.flatMap_append, shapes_suffix_eq t, shapesAmong_suffix_eq ts]
    · exact shapesAmong_suffix_eq ts

end

/-! ## 3. One call for a chain -/

/-- The arguments of a chain, those of the first call of the list first. -/
def chainArguments (calls : List ParseTree) : List ParseTree :=
  (calls.flatMap fun e => e.phrases.tail).flatMap argumentsOf

/-- A call has its first phrase for callee and the others behind it. -/
theorem callParts_children (e : ParseTree) :
    callParts e.children = e.phrases.head?.toList.flatMap (shapes .callee) ++
      (e.phrases.tail.flatMap argumentsOf).flatMap argumentShapes := by
  have hsuffix : shapes .suffix = fun t => (argumentsOf t).flatMap argumentShapes :=
    funext shapes_suffix_eq
  rw [phrases, List.flatMap_assoc, ← hsuffix]
  induction e.children with
  | nil => rw [callParts]; rfl
  | cons t ts ih =>
    rw [callParts, List.filter_cons]
    split
    · rw [shapesAmong_of_phrases rfl]
      simp
    · exact ih

/-- What stands in a chain: the callee, and all arguments from the innermost call on. -/
theorem Chain.callParts_eq {e : ParseTree} {calls : List ParseTree} {callee? : Option ParseTree}
    (h : Chain e calls callee?) :
    callParts e.children = callee?.toList.flatMap (shapes .anywhere) ++
      (chainArguments calls).flatMap argumentShapes := by
  induction h with
  | @last e _ hlast =>
    have hcallee : e.phrases.head?.toList.flatMap (shapes .callee) =
        e.phrases.head?.toList.flatMap (shapes .anywhere) := by
      cases hc : e.phrases.head? with
      | none => rfl
      | some c =>
        rw [Option.toList_some, List.flatMap_singleton, List.flatMap_singleton]
        refine shapes_of_role ?_
        rw [Role.at, Role.at, if_neg (hlast c hc)]
    rw [callParts_children, hcallee, chainArguments, List.flatMap_singleton]
  | @next e e' calls callee? _ he h' ih =>
    have hcallee : shapes .callee e' = callParts e'.children :=
      shapes_callee_call_expression h'.kind_eq
    rw [callParts_children, he, Option.toList_some, List.flatMap_singleton, hcallee, ih,
      List.append_assoc, chainArguments, chainArguments, List.flatMap_append,
      List.flatMap_append, List.flatMap_append, List.flatMap_singleton]

/-- **Lowering makes one call of a chain**, with the place of the outermost call. -/
theorem Chain.shapes_eq {e : ParseTree} {calls : List ParseTree} {callee? : Option ParseTree}
    (h : Chain e calls callee?) {position : Position} (hp : position ≠ .callee) :
    shapes position e = [.node .call e.span (callee?.toList.flatMap (shapes .anywhere) ++
      (chainArguments calls).flatMap argumentShapes)] := by
  have hrole : Role.at position e.kind = Role.at .anywhere e.kind := by
    rw [h.kind_eq]
    cases position with
    | anywhere => rfl
    | callee => exact absurd rfl hp
    | suffix => rfl
  rw [shapes_of_role hrole, shapes_call_expression h.kind_eq, h.callParts_eq]

/-! ## 4. What stands first below a call -/

/-- The kinds of phrases that leave a node of their own: no comments, package headers and
wrappers. -/
def leavesNode (kind : String) : Bool :=
  kind ∉ commentKinds && kind ≠ "package_header" && kind ∉ wrapperKinds

/-- The first phrase of a call is one that leaves a node. -/
def HasCallee (e : ParseTree) : Prop :=
  e.kind = "call_expression" → ∃ c ∈ e.phrases.head?, leavesNode c.kind = true

instance (e : ParseTree) : Decidable e.HasCallee :=
  inferInstanceAs (Decidable (_ → ∃ c ∈ e.phrases.head?, leavesNode c.kind = true))

theorem ofKind_of_leavesNode {kind : String} (h : leavesNode kind = true) :
    Role.ofKind kind ≠ .skipped ∧ Role.ofKind kind ≠ .wrapper := by
  simp only [leavesNode, Bool.and_eq_true, decide_eq_true_eq] at h
  obtain ⟨⟨hcomment, hheader⟩, hwrapper⟩ := h
  unfold Role.ofKind
  rw [if_neg (not_or.mpr ⟨hcomment, hheader⟩), if_neg hwrapper]
  repeat' split
  all_goals exact ⟨Role.noConfusion, Role.noConfusion⟩

/-- A phrase that leaves a node and is no call leaves just one, which is no call. -/
theorem shapes_eq_singleton {t : ParseTree} (hl : leavesNode t.kind = true)
    (hk : t.kind ≠ "call_expression") :
    ∃ s, shapes .anywhere t = [s] ∧ s.face.kind ≠ .call := by
  obtain ⟨info, children⟩ := t
  obtain ⟨hskipped, hwrapper⟩ := ofKind_of_leavesNode hl
  have hnotInCall := Role.ofKind_not_isInCall info.kind
  rw [shapes]
  cases hr : Role.at .anywhere info.kind with
  | skipped => exact absurd hr hskipped
  | wrapper => exact absurd hr hwrapper
  | call => exact absurd (Role.kind_of_call hr) hk
  | mergedCall | argumentGroup | annotatedLambda | trailingLambda =>
    rw [Role.at] at hr
    rw [hr] at hnotInCall
    cases hnotInCall
  | _ => exact ⟨_, rfl, Kind.noConfusion⟩

/-- Where every call has a callee, so has every chain. -/
theorem Chain.exists_callee {e : ParseTree} {calls : List ParseTree} {callee? : Option ParseTree}
    (h : Chain e calls callee?) (hall : ∀ p ∈ e.parts, p.HasCallee) :
    ∃ c ∈ callee?, leavesNode c.kind = true := by
  induction h with
  | last hk _ => exact hall _ (self_mem_parts _) hk
  | next _ he _ ih => exact ih (forall_parts_of_mem hall (mem_children_of_head? he))

/-- A call does not stand first below a call. -/
def calleeIsNoCall : LocalRule := fun face faces =>
  face.kind = .call → ∀ f ∈ faces.head?, f.kind ≠ .call

/-- Where every call has a callee, calls answer for what stands first below them. -/
theorem answersFor_calleeIsNoCall :
    AnswersFor (fun t => ∀ p ∈ t.parts, p.HasCallee) (fun _ _ => True) calleeIsNoCall where
  inherited := forall_parts_of_mem
  own := fun _ _ => trivial
  child := fun _ _ _ => trivial
  node := fun _ hk _ hcall => absurd hcall hk
  call := by
    intro e hall hk _ _ f hf
    obtain ⟨calls, callee?, h⟩ := exists_chain e hk
    obtain ⟨c, rfl, hl⟩ := h.exists_callee hall
    obtain ⟨s, hs, hne⟩ := shapes_eq_singleton hl (h.callee_kind_ne c rfl)
    rw [h.callParts_eq, Option.toList_some, List.flatMap_singleton, hs] at hf
    obtain rfl : s.face = f := Option.some.inj hf
    exact hne

end ParseTree

/-! ## 5. Calls in trees -/

namespace Tree

/-- `t'` is `t` with one more child of `parent`.  It is a call, and its children are a row for its
callee and a row for its arguments; all else that is new stands below it. -/
structure CallAdded (t t' : Tree) (parent call : NodeId) (span : Span)
    (callee arguments : List Shape) : Prop where
  parent_node : t'.get? parent = (t.get? parent).map (addChildren [call])
  kept : ∀ id < t.size, id ≠ parent → t'.get? id = t.get? id
  call_node : ∃ first rest,
    t'.get? call = some { kind := .call, parent? := some parent, children := first ++ rest, span } ∧
      t'.StandsAll call callee first ∧ t'.StandsAll call arguments rest
  below : ∀ id < t'.size, t.size ≤ id → id ∈ t'.descendants call

variable {t t' : Tree} {parent : NodeId}

/-- Where a tree has got one more child below one node, all that is new stands below that child. -/
theorem mem_descendants_of_new (ht : t.Linked) (ht' : t'.Linked) {child : NodeId}
    (hchild : child < t'.size)
    (hparent : t'.get? parent = (t.get? parent).map (addChildren [child]))
    (hkept : ∀ id < t.size, id ≠ parent → t'.get? id = t.get? id) :
    ∀ id < t'.size, t.size ≤ id → id ∈ t'.descendants child := by
  intro id hid hnew
  induction id using Nat.strongRecOn with
  | ind id ih =>
    obtain ⟨p, hlt, hp⟩ := ht'.parent_lt id (Nat.lt_of_lt_of_le ht.size_pos hnew) hid
    have hmem : id ∈ t'.children p := (ht'.mem_children p id).mpr hp
    rcases Nat.lt_or_ge p t.size with hold | hp'
    · obtain ⟨node, hn⟩ := get?_eq_some_iff_lt.mpr hold
      have hnot : id ∉ node.children := by
        intro h
        rw [← children_of_get? hn] at h
        exact absurd (ht.lt_size_of_mem_children h) (Nat.not_lt.mpr hnew)
      by_cases hpp : p = parent
      · subst hpp
        rw [hn, Option.map_some] at hparent
        rw [children_of_get? hparent, addChildren, List.mem_append, List.mem_singleton] at hmem
        rcases hmem with h | rfl
        · exact absurd h hnot
        · exact ht'.mem_descendants_self hchild
      · rw [children_of_get? ((hkept p hold hpp).trans hn)] at hmem
        exact absurd hmem hnot
    · exact ht'.mem_descendants_of_mem_children child hchild
        (ih p hlt (Nat.lt_trans hlt hid) hp') hmem

/-- Grafting a call adds it. -/
theorem callAdded_graftAll (ht : t.Linked) (hp : parent < t.size) (span : Span)
    (callee arguments : List Shape) :
    ∃ call, CallAdded t (t.graftAll parent [.node .call span (callee ++ arguments)]) parent call
      span callee arguments := by
  obtain ⟨ids, hparent, hkept, hs⟩ :=
    standsAll_graftAll ht hp [.node .call span (callee ++ arguments)]
  obtain ⟨call, rest, rfl, hcall, hnil⟩ := standsAll_cons_iff.mp hs
  rw [standsAll_nil_iff.mp hnil] at hparent
  rw [Stands] at hcall
  obtain ⟨children, hn, hc⟩ := hcall
  obtain ⟨first, rest, rfl, hfirst, hrest⟩ := standsAll_append_iff.mp hc
  exact ⟨call, hparent, hkept, ⟨first, rest, hn, hfirst, hrest⟩,
    mem_descendants_of_new ht (ht.graftAll hp _) (lt_size_of_get? hn) hparent hkept⟩

/-- Below a call that keeps the rule, no call stands first. -/
theorem kind?_ne_of_localAt {call first : NodeId}
    (hrule : t.LocalAt ParseTree.calleeIsNoCall call) (hcall : t.kind? call = some .call)
    (hfirst : (t.children call).head? = some first) : t.kind? first ≠ some .call := by
  obtain ⟨face, faces, hface, hchildren, hr⟩ := hrule
  rw [kind?_eq_map_face?, hface, Option.map_some, Option.some.injEq] at hcall
  have hhead := congrArg List.head? hchildren
  rw [List.head?_map, List.head?_map, hfirst, Option.map_some] at hhead
  obtain ⟨f, hf, hfirst⟩ := Option.map_eq_some_iff.mp hhead.symm
  rw [kind?_eq_map_face?, ← hfirst, Option.map_some]
  exact fun h => hr hcall f hf (Option.some.inj h)

end Tree

namespace ParseTree

/-- **Calls of calls are lowered to one call**, for every call phrase that is not itself the callee
of a call, and wherever it is lowered: one call is added, with the place of the phrase, and below it
stand the callee of the chain and then the arguments of all its calls, from the innermost on.  If
the first phrase of every call in a parse tree leaves a node, no call of its tree has a call for
first child. -/
theorem lower_call_chains :
    (∀ e : ParseTree, e.kind = "call_expression" →
      (∃ calls callee?, Chain e calls callee?) ∧
      ∀ calls callee?, Chain e calls callee? →
        ∀ position : Position, position ≠ .callee →
        ∀ (t : Tree) (parent : NodeId), t.Linked → parent < t.size →
          ∃ call, Tree.CallAdded t (t.graftAll parent (shapes position e)) parent call e.span
            (callee?.toList.flatMap (shapes .anywhere))
            ((chainArguments calls).flatMap argumentShapes)) ∧
    ∀ source : ParseTree, (∀ e ∈ source.parts, e.HasCallee) →
      ∀ call, source.lower.kind? call = some .call →
        ∀ first ∈ (source.lower.children call).head?, source.lower.kind? first ≠ some .call := by
  constructor
  · intro e hk
    refine ⟨exists_chain e hk, ?_⟩
    intro calls callee? h position hp t parent ht hparent
    rw [h.shapes_eq hp]
    exact Tree.callAdded_graftAll ht hparent e.span _ _
  · intro source hall call hcall first hfirst
    obtain ⟨node, hn, -⟩ := Option.map_eq_some_iff.mp hcall
    exact Tree.kind?_ne_of_localAt
      (answersFor_calleeIsNoCall.localAt_lower hall call (Tree.lt_size_of_get? hn)) hcall hfirst

namespace Example

open Suite.Example

/-- The phrase `f(x)`. -/
def callOfName : ParseTree :=
  phrase "call_expression" "" [word "identifier" "f", inParentheses (word "identifier" "x")]

/-- The phrase `f(x)(y)`, with its second arguments in a suffix. -/
def callOfCall : ParseTree :=
  phrase "call_expression" "" [callOfName,
    phrase "call_suffix" "" [inParentheses (word "identifier" "y")]]

/-- The phrase `f(x)(y) { }`. -/
def curried : ParseTree :=
  phrase "call_expression" " " [callOfCall, phrase "annotated_lambda" "" [inBraces []]]

/-- A file with nothing but that. -/
def curriedFile : ParseTree := phrase "source_file" "" [curried]

theorem chain_curried :
    Chain curried [callOfName, callOfCall, curried] (some (word "identifier" "f")) := by
  have h₁ : Chain callOfName [callOfName] (some (word "identifier" "f")) :=
    .last rfl (by decide)
  have h₂ : Chain callOfCall [callOfName, callOfCall] (some (word "identifier" "f")) :=
    .next rfl rfl h₁
  exact .next rfl rfl h₂

end Example

/-- The three calls of `f(x)(y) { }` are one, with four children: the name, two arguments and the
trailing lambda. -/
theorem lower_call_chains_curried :
    Chain Example.curried [Example.callOfName, Example.callOfCall, Example.curried]
      (some (Suite.Example.word "identifier" "f")) ∧
    (∃ call, Tree.CallAdded (.empty .kotlin)
      ((Tree.empty .kotlin).graftAll Tree.root (shapes .anywhere Example.curried)) Tree.root call
      Example.curried.span (shapes .anywhere (Suite.Example.word "identifier" "f"))
      ((chainArguments [Example.callOfName, Example.callOfCall, Example.curried]).flatMap
        argumentShapes)) ∧
    (chainArguments [Example.callOfName, Example.callOfCall, Example.curried]).map kind =
      ["value_argument", "value_argument", "annotated_lambda"] ∧
    (∀ e ∈ Example.curriedFile.parts, e.HasCallee) ∧
    Example.curriedFile.lower.kind? 1 = some .call ∧
    Example.curriedFile.lower.children 1 = [2, 3, 5, 7] ∧
    Example.curriedFile.lower.kind? 2 ≠ some .call := by
  obtain ⟨hchain, hfirst⟩ := lower_call_chains
  have hcallee : ∀ e ∈ Example.curriedFile.parts, e.HasCallee := by decide +kernel
  have hcall : Example.curriedFile.lower.kind? 1 = some .call := by decide +kernel
  have hchildren : Example.curriedFile.lower.children 1 = [2, 3, 5, 7] := by decide +kernel
  refine ⟨Example.chain_curried, ?_, by decide +kernel, hcallee, hcall, hchildren, ?_⟩
  · exact (hchain Example.curried rfl).2 _ _ Example.chain_curried .anywhere Position.noConfusion
      _ _ (Tree.linked_empty .kotlin) (by decide)
  · exact hfirst Example.curriedFile hcallee 1 hcall 2 (by rw [hchildren]; rfl)

end ParseTree

end SpecOutline
