/-
# Written blocks are lowered as they are built

A `Sketch` can be built, one block call after the other (`Sketch.buildAll`), and it can be written,
and then a grammar makes a parse tree of it.  `Writes` says which parse trees those are: two calls,
one in the other, around an argument and a lambda, and in the lambda the parse trees of its body,
with or without a phrase around the statements, with tokens and comments anywhere between them.

Lowering such parse trees below a node of a tree makes the tree that building makes, but for the
spans (`lowered_eq_built`).  Grafting does not look at spans (`Tree.withoutSpans_graftAll`), so the
theorem is one about shapes (`WritesAll.withoutSpans_eq`).
-/
import SpecOutline.Proofs.ParseTree.ByKind
import SpecOutline.Proofs.Suite.Lowered
import SpecOutline.Proofs.Tree.Sketch

namespace SpecOutline

/-! ## 1. Trees without spans -/

mutual

/-- A shape with empty spans. -/
def Shape.withoutSpans : Shape → Shape
  | .node kind _ children => .node kind {} (withoutSpansAll children)
  | .lambda _ items => .lambda {} (withoutSpansItems items)

/-- Shapes with empty spans. -/
def withoutSpansAll : List Shape → List Shape
  | [] => []
  | s :: ss => s.withoutSpans :: withoutSpansAll ss

/-- The items of a lambda with empty spans. -/
def withoutSpansItems : List LambdaItem → List LambdaItem
  | [] => []
  | .parameter s :: items => .parameter s.withoutSpans :: withoutSpansItems items
  | .statement s :: items => .statement s.withoutSpans :: withoutSpansItems items

end

theorem withoutSpansAll_append (ss ss' : List Shape) :
    withoutSpansAll (ss ++ ss') = withoutSpansAll ss ++ withoutSpansAll ss' := by
  induction ss with
  | nil => rw [withoutSpansAll]; rfl
  | cons s ss ih => rw [List.cons_append, withoutSpansAll, withoutSpansAll, ih, List.cons_append]

theorem withoutSpansItems_statements (ss : List Shape) :
    withoutSpansItems (ss.map .statement) = (withoutSpansAll ss).map .statement := by
  induction ss with
  | nil => rw [withoutSpansAll, List.map_nil, withoutSpansItems]
  | cons s ss ih =>
    rw [List.map_cons, withoutSpansItems, withoutSpansAll, ih, List.map_cons]

namespace Tree

/-- A tree with empty spans. -/
def withoutSpans (t : Tree) : Tree :=
  { t with nodes := t.nodes.map fun node => { node with span := {} } }

@[simp] theorem size_withoutSpans (t : Tree) : t.withoutSpans.size = t.size := by
  simp [withoutSpans, size]

theorem withoutSpans_append (t : Tree) (parent : NodeId) (kind : Kind) (span : Span) :
    (t.append parent kind span).withoutSpans = t.withoutSpans.append parent kind {} := by
  have hnodes : (t.append parent kind span).withoutSpans.nodes =
      (t.withoutSpans.append parent kind {}).nodes := by
    apply Array.ext_getElem?
    intro id
    simp only [withoutSpans, append, size, Array.getElem?_map, Array.getElem?_modify,
      Array.getElem?_push, Array.size_map]
    split <;> split <;> simp [Function.comp_def]
  simp only [withoutSpans, append] at hnodes ⊢
  rw [hnodes]

mutual

/-- **Grafting does not look at spans.** -/
theorem withoutSpans_graft (t : Tree) (parent : NodeId) : ∀ s : Shape,
    (t.graft parent s).withoutSpans = t.withoutSpans.graft parent s.withoutSpans
  | .node kind span children => by
    rw [graft, Shape.withoutSpans, graft, withoutSpans_graftAll, withoutSpans_append,
      size_withoutSpans]
  | .lambda span items => by
    rw [graft, Shape.withoutSpans, graft, withoutSpans_graftItems]
    simp only [withoutSpans_append, size_append, size_withoutSpans]

theorem withoutSpans_graftAll (t : Tree) (parent : NodeId) : ∀ ss : List Shape,
    (t.graftAll parent ss).withoutSpans = t.withoutSpans.graftAll parent (withoutSpansAll ss)
  | [] => by rw [graftAll, withoutSpansAll, graftAll]
  | s :: ss => by
    rw [graftAll, withoutSpansAll, graftAll, withoutSpans_graftAll, withoutSpans_graft]

theorem withoutSpans_graftItems (t : Tree) (literal block : NodeId) : ∀ items : List LambdaItem,
    (t.graftItems literal block items).withoutSpans =
      t.withoutSpans.graftItems literal block (withoutSpansItems items)
  | [] => by rw [graftItems, withoutSpansItems, graftItems]
  | .parameter s :: items => by
    rw [graftItems, withoutSpansItems, graftItems, withoutSpans_graftItems, withoutSpans_graft]
  | .statement s :: items => by
    rw [graftItems, withoutSpansItems, graftItems, withoutSpans_graftItems, withoutSpans_graft]

end

end Tree

namespace Sketch

mutual

/-- Sketches have no spans to begin with. -/
theorem withoutSpans_shape : ∀ o : Sketch, o.shape.withoutSpans = o.shape
  | .block name description inner => by
    simp only [shape, Shape.blockCall, Shape.leaf, Shape.stringArgument, Shape.trailingLambda,
      Shape.withoutSpans, withoutSpansAll, withoutSpansItems_statements,
      withoutSpansAll_shapes inner]

theorem withoutSpansAll_shapes : ∀ os : List Sketch, withoutSpansAll (shapes os) = shapes os
  | [] => by rw [shapes, withoutSpansAll]
  | o :: os => by rw [shapes, withoutSpansAll, withoutSpans_shape o, withoutSpansAll_shapes os]

end

end Sketch

/-! ## 2. Sketches, written -/

/-- The phrases of a block call. -/
structure BlockPhrases where
  /-- The whole call. -/
  call : ParseTree
  /-- The call without the lambda. -/
  inner : ParseTree
  callee : ParseTree
  arguments : ParseTree
  argument : ParseTree
  literal : ParseTree
  annotated : ParseTree
  lambda : ParseTree

/-- A tree is of a kind and has the given phrases, whatever tokens stand between them. -/
def ParseTree.Is (t : ParseTree) (kind : String) (phrases : List ParseTree) : Prop :=
  t.kind = kind ∧ t.phrases = phrases

/-- How the phrases of the call `name("description") lambda` hang together. -/
structure BlockPhrases.Reads (p : BlockPhrases) (name description : String) : Prop where
  call : p.call.Is "call_expression" [p.inner, p.annotated]
  inner : p.inner.Is "call_expression" [p.callee, p.arguments]
  callee : p.callee.kind = "identifier" ∧ p.callee.text = name
  arguments : p.arguments.Is "value_arguments" [p.argument]
  argument : p.argument.Is "value_argument" [p.literal]
  literal : p.literal.kind = "string_literal" ∧ p.literal.text = "\"" ++ description ++ "\""
  annotated : p.annotated.Is "annotated_lambda" [p.lambda]
  lambda : p.lambda.kind = "lambda_literal"

mutual

/-- A parse tree is that of a sketch. -/
inductive Writes : ParseTree → Sketch → Prop
  | block {p : BlockPhrases} {name description : String} {body : List Sketch} :
      p.Reads name description → WritesAll p.lambda.children body →
      Writes p.call (.block name description body)

/-- The phrases of a row are those of a row of sketches, some of them perhaps in a phrase of
statements, and comments. -/
inductive WritesAll : List ParseTree → List Sketch → Prop
  | nil : WritesAll [] []
  | token {t : ParseTree} {ts : List ParseTree} {os : List Sketch} :
      t.isNamed = false → WritesAll ts os → WritesAll (t :: ts) os
  | comment {t : ParseTree} {ts : List ParseTree} {os : List Sketch} :
      t.kind ∈ commentKinds → WritesAll ts os → WritesAll (t :: ts) os
  | block {t : ParseTree} {ts : List ParseTree} {o : Sketch} {os : List Sketch} :
      t.isNamed = true → Writes t o → WritesAll ts os → WritesAll (t :: ts) (o :: os)
  | statements {t : ParseTree} {ts : List ParseTree} {os os' : List Sketch} :
      t.isNamed = true → t.kind = "statements" → WritesAll t.children os → WritesAll ts os' →
      WritesAll (t :: ts) (os ++ os')

end

/-! ## 3. Written sketches, lowered -/

open ParseTree in
/-- **What a block call is lowered to**: one call for both calls, with the argument and the lambda
behind the name. -/
theorem BlockPhrases.Reads.shapes_eq {p : BlockPhrases} {name description : String}
    (h : p.Reads name description) :
    shapes .anywhere p.call = [.node .call p.call.span
      [.node (.nameRef name) p.callee.span [],
        .node .valueArgument p.argument.span
          [.node (.stringTemplate ("\"" ++ description ++ "\"")) p.literal.span []],
        .node .lambdaArgument p.annotated.span
          [.lambda p.lambda.span (lambdaItems p.lambda.children)]]] := by
  have hcallee : shapes .callee p.callee = [.node (.nameRef name) p.callee.span []] := by
    rw [shapes_callee_identifier h.callee.1, h.callee.2]
  have hargument : shapes .suffix p.argument = [.node .valueArgument p.argument.span
      [.node (.stringTemplate ("\"" ++ description ++ "\"")) p.literal.span []]] := by
    rw [shapes_suffix_value_argument h.argument.1, shapesAmong_of_phrases h.argument.2,
      List.flatMap_singleton, shapes_string_literal h.literal.1, h.literal.2]
  have harguments : shapes .suffix p.arguments = shapes .suffix p.argument := by
    rw [shapes_suffix_value_arguments h.arguments.1, shapesAmong_of_phrases h.arguments.2,
      List.flatMap_singleton]
  have hinner : shapes .callee p.inner = shapes .callee p.callee ++ shapes .suffix p.arguments := by
    rw [shapes_callee_call_expression h.inner.1, callParts_of_phrases h.inner.2,
      List.flatMap_singleton]
  have hlambda : shapes .suffix p.annotated = [.node .lambdaArgument p.annotated.span
      [.lambda p.lambda.span (lambdaItems p.lambda.children)]] := by
    rw [shapes_suffix_annotated_lambda h.annotated.1,
      firstLambda_of_phrases h.annotated.2 h.lambda, shapes_lambda_literal h.lambda]
  rw [shapes_call_expression h.call.1, callParts_of_phrases h.call.2, List.flatMap_singleton,
    hinner, hcallee, harguments, hargument, hlambda]
  rfl

/-- A written body holds no parameters. -/
theorem WritesAll.kind_ne : ∀ {ts : List ParseTree} {os : List Sketch}, WritesAll ts os →
    ∀ t ∈ ts, t.isNamed = true → t.kind ≠ "lambda_parameters"
  | _, _, .nil => nofun
  | _, _, .token hn h => by
    refine List.forall_mem_cons.mpr ⟨fun hn' => ?_, h.kind_ne⟩
    rw [hn] at hn'
    cases hn'
  | _, _, .comment hk h => by
    refine List.forall_mem_cons.mpr ⟨fun _ hk' => ?_, h.kind_ne⟩
    rw [hk'] at hk
    exact absurd hk (by decide)
  | _, _, .block _ (.block hp _) h => by
    refine List.forall_mem_cons.mpr ⟨fun _ => ?_, h.kind_ne⟩
    rw [hp.call.1]
    decide
  | _, _, .statements _ hk _ h => by
    refine List.forall_mem_cons.mpr ⟨fun _ => ?_, h.kind_ne⟩
    rw [hk]
    decide

mutual

/-- **A written sketch is lowered to its call**, but for the spans. -/
theorem Writes.withoutSpans_eq : ∀ {t : ParseTree} {o : Sketch}, Writes t o →
    withoutSpansAll (t.shapes .anywhere) = [o.shape]
  | _, _, @Writes.block p name description body hp hbody => by
    have hitems : withoutSpansItems (ParseTree.lambdaItems p.lambda.children) =
        (Sketch.shapes body).map .statement := by
      rw [ParseTree.lambdaItems_eq_statements hbody.kind_ne, withoutSpansItems_statements,
        WritesAll.withoutSpans_eq hbody]
    rw [hp.shapes_eq]
    simp only [withoutSpansAll, Shape.withoutSpans, hitems]
    rfl

theorem WritesAll.withoutSpans_eq : ∀ {ts : List ParseTree} {os : List Sketch}, WritesAll ts os →
    withoutSpansAll (ParseTree.shapesAmong .anywhere ts) = Sketch.shapes os
  | _, _, .nil => by
    rw [ParseTree.shapesAmong, withoutSpansAll, Sketch.shapes]
  | _, _, .token hn h => by
    rw [ParseTree.shapesAmong, hn]
    exact WritesAll.withoutSpans_eq h
  | _, _, .comment hk h => by
    rw [ParseTree.shapesAmong, ParseTree.shapes_comment hk]
    split <;> exact WritesAll.withoutSpans_eq h
  | _, _, .block hn ho h => by
    rw [ParseTree.shapesAmong, if_pos hn, withoutSpansAll_append, Writes.withoutSpans_eq ho,
      WritesAll.withoutSpans_eq h, Sketch.shapes]
    rfl
  | _, _, .statements hn hk hs h => by
    rw [ParseTree.shapesAmong, if_pos hn, withoutSpansAll_append, ParseTree.shapes_statements hk,
      WritesAll.withoutSpans_eq hs, WritesAll.withoutSpans_eq h, Sketch.shapes_append]

end

/-- **Lowering written blocks is building them.**  Take any tree and any node of it, any row of
sketches, and any row of parse trees that the sketches are written as.  Adding the sketches below
the node, one block call after the other and each inside the body of the call around it, is not
refused; and lowering the parse trees below the node makes the same tree, node by node and place by
place, but for the spans. -/
theorem lowered_eq_built (t : Tree) {parent : NodeId} (hp : parent < t.size)
    {ts : List ParseTree} {os : List Sketch} (h : WritesAll ts os) :
    ∃ built, Sketch.buildAll t parent os = .ok built ∧
      (t.graftAll parent (ParseTree.shapesAmong .anywhere ts)).withoutSpans =
        built.withoutSpans := by
  refine ⟨_, Sketch.buildAll_eq t hp os, ?_⟩
  rw [Tree.withoutSpans_graftAll, Tree.withoutSpans_graftAll, h.withoutSpans_eq,
    Sketch.withoutSpansAll_shapes]

namespace Example

open Suite.Example

/-- The phrases of `name("description") { parts }`. -/
def blockPhrases (name description : String) (parts : List ParseTree) : BlockPhrases :=
  let callee := word "identifier" name
  let literal := word "string_literal" ("\"" ++ description ++ "\"")
  let arguments := inParentheses literal
  let lambda := inBraces parts
  let inner := phrase "call_expression" "" [callee, arguments]
  let annotated := phrase "annotated_lambda" "" [lambda]
  { call := phrase "call_expression" " " [inner, annotated], inner, callee, arguments
    argument := phrase "value_argument" "" [literal], literal, annotated, lambda }

theorem reads_blockPhrases (name description : String) (parts : List ParseTree) :
    (blockPhrases name description parts).Reads name description where
  call := ⟨rfl, rfl⟩
  inner := ⟨rfl, rfl⟩
  callee := ⟨rfl, rfl⟩
  arguments := ⟨rfl, rfl⟩
  argument := ⟨rfl, rfl⟩
  literal := ⟨rfl, rfl⟩
  annotated := ⟨rfl, rfl⟩
  lambda := rfl

/-- What is written in braces is a lambda's body. -/
theorem writesAll_inBraces {parts : List ParseTree} {os : List Sketch}
    (h : WritesAll (parts ++ [token "\x7d"]) os) : WritesAll (inBraces parts).children os :=
  .token rfl h

/-- Two tests with a comment between them, in one phrase. -/
def twoTests : ParseTree :=
  phrase "statements" " " [(blockPhrases "it" "b" []).call, word "line_comment" "// and",
    (blockPhrases "it" "c" []).call]

/-- A comment, a group with two tests, and a test beside the group. -/
def testsInGroup : List ParseTree :=
  [word "multiline_comment" "/* all */", (blockPhrases "describe" "a" [twoTests]).call,
    (blockPhrases "it" "d" []).call]

/-- The blocks of `testsInGroup`. -/
def sketches : List Sketch :=
  [.block "describe" "a" [.block "it" "b" [], .block "it" "c" []], .block "it" "d" []]

theorem writesAll_testsInGroup : WritesAll testsInGroup sketches := by
  have htest : ∀ description,
      Writes (blockPhrases "it" description []).call (.block "it" description []) :=
    fun description =>
      .block (reads_blockPhrases "it" description []) (writesAll_inBraces (.token rfl .nil))
  have htwo : WritesAll twoTests.children [.block "it" "b" [], .block "it" "c" []] := by
    refine .block rfl (htest "b") (.comment ?_ (.block rfl (htest "c") .nil))
    decide
  have hgroup : WritesAll (inBraces [twoTests]).children [.block "it" "b" [], .block "it" "c" []] :=
    writesAll_inBraces (.statements (t := twoTests) rfl rfl htwo (.token rfl .nil))
  refine .comment ?_ (.block rfl (.block (reads_blockPhrases _ _ _) hgroup)
    (.block rfl (htest "d") .nil))
  decide

end Example

/-- Built or lowered, a group and three tests are 32 nodes below the file. -/
theorem lowered_eq_built_testsInGroup :
    Tree.root < (Tree.inPackage none).size ∧ WritesAll Example.testsInGroup Example.sketches ∧
    ∃ built, Sketch.buildAll (Tree.inPackage none) Tree.root Example.sketches = .ok built ∧
      built.size = 33 ∧
      ((Tree.inPackage none).graftAll Tree.root
        (ParseTree.shapesAmong .anywhere Example.testsInGroup)).withoutSpans =
          built.withoutSpans := by
  have hroot : Tree.root < (Tree.inPackage none).size := by decide
  obtain ⟨built, hbuilt, heq⟩ := lowered_eq_built _ hroot Example.writesAll_testsInGroup
  refine ⟨hroot, Example.writesAll_testsInGroup, built, hbuilt, ?_, heq⟩
  rw [← Except.ok.inj hbuilt]
  decide +kernel

end SpecOutline
