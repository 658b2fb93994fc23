/-
# Scanning a suite gives back its outlines

A scan of the file of a suite lists the blocks of its outlines, each once and in document order,
each with the segments of the blocks around it and the name of the class; blocks that are too
deep are left out (`scanTree_of_isSuite`).

The proof follows the outlines.  `InBody` is what is known of the calls that stand directly in a
body: which class owns them, and that the calls around them give the segments `outer`.  It holds
of the body of the class with no segments (`inBody_spec`), and it passes from a body to the body
of a block call in it, with one segment more (`InBody.inner`).  Where it holds, a block call is
found with the segments of its trail (`InBody.found?_call`); the rest is an induction over
outlines (`Outline.found_stands`).
-/
import SpecOutline.Proofs.Suite.OutlineNames
import SpecOutline.Proofs.Suite.WayUp

namespace SpecOutline.Suite

open SpecOutline.Tree SpecOutline.Suite.Outline

/-! ## 1. The shape of a block call -/

/-- A text in quotes is the text without them. -/
theorem unquoted_quoted (text : String) : unquoted ("\"" ++ text ++ "\"") = text := by
  have hlist : ("\"" ++ text ++ "\"").toList = '"' :: (text.toList ++ ['"']) := by
    rw [String.toList_append, String.toList_append]
    rfl
  rw [unquoted, hlist]
  simp

section Shapes

variable {t : Tree} {parent c : NodeId}

/-- What stands directly in the body of a lambda stands in the lambda. -/
theorem enclosingLambda?_of_lambdaAt {p : LambdaPlaces} {ss : List Shape}
    (h : t.LambdaAt parent p ss) (hc : t.parent? c = some p.body) :
    enclosingLambda? t.view c = some p.lambda := by
  obtain ⟨statements, hb⟩ := h.body
  exact enclosingLambda?_eq_some_iff.mpr ⟨p.body, p.literal,
    ⟨hc, kindIs_of_get? hb _⟩, ⟨parent?_of_get? hb, kindIs_of_get? h.literal _⟩,
    ⟨parent?_of_get? h.literal, kindIs_of_get? h.lambda _⟩⟩

section Call

variable {p : CallPlaces} {function description : String} {ss : List Shape}
  (h : t.BlockCallAt parent p function description ss)
include h

/-- The lambda of a block call is its trailing lambda, so that the call is around whatever
stands in its body. -/
theorem outerCall?_of_blockCallAt (hc : t.parent? c = some p.body) :
    outerCall? t.view c = some p.call := by
  rw [outerCall?, enclosingLambda?_of_lambdaAt h.block hc, Option.bind_some]
  exact trailingOwner?_eq_some_iff.mpr ⟨p.trailing,
    ⟨parent?_of_get? h.block.lambda, kindIs_of_get? h.trailing _⟩,
    ⟨parent?_of_get? h.trailing, kindIs_of_get? h.call _⟩⟩

theorem namedCallee?_of_blockCallAt : namedCallee? t.view p.call = some p.callee := by
  have hchildren : t.view.children p.call = [p.callee, p.argument, p.trailing] :=
    children_of_get? h.call
  have hname : t.view.kindIs isNameRef p.callee = true := kindIs_of_get? h.callee _
  rw [namedCallee?, View.firstChild?, hchildren, List.head?_cons, Option.filter_some, if_pos hname]

theorem arguments_of_blockCallAt : arguments t.view p.call = [p.argument, p.trailing] := by
  have hchildren : t.view.children p.call = [p.callee, p.argument, p.trailing] :=
    children_of_get? h.call
  rw [arguments, View.childrenWhere, hchildren]
  simp only [List.filter_cons, List.filter_nil, kindIs_of_get? h.callee, kindIs_of_get? h.argument,
    kindIs_of_get? h.trailing]
  rfl

/-- The description of a block call is the text between the quotes. -/
theorem description?_of_blockCallAt : description? t.view p.call = some description := by
  have hfirst : t.view.firstChild? p.argument = some p.text := by
    rw [View.firstChild?, show t.view.children p.argument = [p.text] from
      children_of_get? h.argument, List.head?_cons]
  have htext : t.view.kind? p.text = some (.stringTemplate ("\"" ++ description ++ "\"")) :=
    kind?_of_get? h.text
  simp only [description?, arguments_of_blockCallAt h, List.head?_cons, bind, Option.bind_some,
    hfirst, htext, unquoted_quoted]

theorem hasBlockArguments_of_blockCallAt : hasBlockArguments t.view p.call = true := by
  have htrailing : t.view.kind? p.trailing = some .lambdaArgument := kind?_of_get? h.trailing
  simp only [hasBlockArguments, arguments_of_blockCallAt h, htrailing, beq_self_eq_true]

end Call

end Shapes

/-! ## 2. Calls in a body -/

/-- A resolver takes the names of the block functions for the functions of the framework. -/
def KnowsVocabulary (v : View) (r : Resolver) : Prop :=
  ∀ id (f : BlockFunction), v.kind? id = some (.nameRef f.name) →
    r.functionOf? id = some (Index.librarySymbol f.declaration)

/-- What is known of the nodes that stand directly in a body: they stand in a lambda, a class
owns them, and the calls around them have no fault and give the segments `outer`. -/
structure InBody (v : View) (r : Resolver) (spec : ClassSymbol) (outer : List BlockSegment)
    (body : NodeId) : Prop where
  lambda : ∀ c, v.parent? c = some body → (enclosingLambda? v c).isSome = true
  owner : ∀ c, v.parent? c = some body → owner? v r c = some spec
  sound : ∀ c, v.parent? c = some body → ∀ d ∈ (wayUp v c).tail, fault? v r d = none
  segments : ∀ c, v.parent? c = some body →
    (wayUp v c).tail.map (segment? v r) = outer.map some

namespace InBody

variable {t : Tree} {r : Resolver} {spec : ClassSymbol} {outer : List BlockSegment}
  {body : NodeId} {p : CallPlaces} {f : BlockFunction} {description : String} {ss : List Shape}

section Step

variable (hr : KnowsVocabulary t.view r) (hb : InBody t.view r spec outer body)
  (h : t.BlockCallAt body p f.name description ss)

include hr h in
theorem calledFunction?_call :
    calledFunction? t.view r p.call = some (Index.librarySymbol f.declaration) := by
  rw [calledFunction?, namedCallee?_of_blockCallAt h, Option.bind_some]
  exact hr p.callee f (kind?_of_get? h.callee)

include hr hb h in
/-- **A block call in a body is a block.** -/
theorem block?_call : (block? t.view r p.call).isSome = true := by
  have hparent : t.view.parent? p.call = some body := parent?_of_get? h.call
  have hname : (Index.librarySymbol f.declaration).name = f.name := f.name_declaration
  refine Option.isSome_iff_exists.mpr ⟨⟨f.kind, f.name, description⟩, block?_eq_some_iff.mpr
    ⟨hb.lambda p.call hparent, Index.librarySymbol f.declaration, calledFunction?_call hr h,
      hasBlockArguments_of_blockCallAt h, f.extendsBlockReceiver_declaration,
      description?_of_blockCallAt h, ?_, hname⟩⟩
  rw [hname]
  exact f.ofFunction?_name

include hr h in
theorem segment?_call : segment? t.view r p.call = some (f.segment description) := by
  have hname : (Index.librarySymbol f.declaration).name = f.name := f.name_declaration
  simp only [segment?, calledFunction?_call hr h, description?_of_blockCallAt h, bind,
    Option.bind_some, hname, kind_of_ofFunction? f.ofFunction?_name]
  rfl

include hr hb h in
/-- No call on the way up from a block call in a body has a fault. -/
theorem fault?_wayUp_call : ∀ d ∈ wayUp t.view p.call, fault? t.view r d = none := by
  intro d hd
  rcases List.mem_cons.mp hd with rfl | hd
  · exact fault?_of_block? (block?_call hr hb h)
  · exact hb.sound p.call (parent?_of_get? h.call) d hd

include hr hb h in
/-- The way up from a block call in a body gives its segment and the segments around it. -/
theorem segments_wayUp_call :
    (wayUp t.view p.call).map (segment? t.view r) =
      (f.segment description :: outer).map some := by
  have houter := hb.segments p.call (parent?_of_get? h.call)
  rw [wayUp] at houter ⊢
  rw [List.map_cons, List.map_cons, segment?_call hr h, ← houter]
  rfl

include hr hb h in
/-- **From a body to the body of a block call in it**: the segment of the call comes first. -/
theorem inner (ht : t.Linked) :
    InBody t.view r spec (f.segment description :: outer) p.body := by
  have hparent : t.view.parent? p.call = some body := parent?_of_get? h.call
  have hway : ∀ c, t.view.parent? c = some p.body →
      (wayUp t.view c).tail = wayUp t.view p.call := by
    intro c hc
    rw [wayUp_of_outerCall? ht.grounded (outerCall?_of_blockCallAt h hc), List.tail_cons]
  refine ⟨?_, ?_, ?_, ?_⟩
  · intro c hc
    rw [enclosingLambda?_of_lambdaAt h.block hc]
    rfl
  · intro c hc
    rw [owner?_of_outerCall? ht.grounded (outerCall?_of_blockCallAt h hc)]
    exact hb.owner p.call hparent
  · intro c hc
    rw [hway c hc]
    exact fault?_wayUp_call hr hb h
  · intro c hc
    rw [hway c hc]
    exact segments_wayUp_call hr hb h

end Step

end InBody

/-! ## 3. What a scan finds in a body -/

/-- The findings of a row of trails in a class: one for each trail that is not too long. -/
def findings (spec : String) (trails : List (List BlockSegment)) : List Finding :=
  (trails.filter fun blocks => blocks.length ≤ 256).map fun blocks =>
    { path := ⟨blocks, spec⟩, span := {} }

theorem findings_append (spec : String) (trails trails' : List (List BlockSegment)) :
    findings spec (trails ++ trails') = findings spec trails ++ findings spec trails' := by
  rw [findings, List.filter_append, List.map_append, findings, findings]

/-- What a node contributes to a scan. -/
def found? (t : Tree) (r : Resolver) (id : NodeId) : Option Finding :=
  if t.view.kindIs Kind.isCall id then findingOf? t r {} id else none

theorem found?_of_get? {t : Tree} {r : Resolver} {id : NodeId} {node : Node}
    (hn : t.get? id = some node) (hcall : node.kind.isCall = false) : found? t r id = none := by
  rw [found?, kindIs_of_get? hn, hcall]
  rfl

/-- A scan goes through all nodes of the file. -/
theorem scan_eq_filterMap (t : Tree) (r : Resolver) :
    scan t r {} = (t.descendants root).filterMap (found? t r) := by
  rw [scan, calls, findAll, List.filterMap_filter]
  rfl

section Found

variable {t : Tree} {r : Resolver} {spec : ClassSymbol}

/-- **A block call in a body is found with its trail, unless that is too long.** -/
theorem InBody.found?_call {outer : List BlockSegment} {body : NodeId} {p : CallPlaces}
    {f : BlockFunction} {description : String} {ss : List Shape} (ht : t.Linked)
    (hr : KnowsVocabulary t.view r) (hb : InBody t.view r spec outer body)
    (h : t.BlockCallAt body p f.name description ss) :
    (found? t r p.call).toList =
      findings spec.qualifiedName [f.segment description :: outer] := by
  have hblock := block?_call hr hb h
  have hsound := fault?_wayUp_call hr hb h
  have hsegments := segments_wayUp_call hr hb h
  have howner : owner? t.view r p.call = some spec := hb.owner p.call (parent?_of_get? h.call)
  have hlength : (wayUp t.view p.call).length = (f.segment description :: outer).length := by
    rw [← List.length_map, hsegments, List.length_map]
  have hspan : t.span p.call = {} := by rw [Tree.span, h.call]
  have hkind : t.view.kindIs Kind.isCall p.call = true := kindIs_of_get? h.call _
  rw [found?, if_pos hkind, findingOf?_of_owner? (by rw [howner]; rfl) hblock, hspan, findings,
    List.filter_singleton, ← hlength]
  rcases Nat.lt_or_ge 256 (wayUp t.view p.call).length with hlen | hlen
  · -- too deep: the climb gives up, and the trail is filtered out
    have hpath : pathOf t.view r p.call = .error (.nestingTooDeep p.call 256) :=
      (Outcome.tooDeep hblock (fun d hd => hsound d (List.mem_of_mem_take hd)) hlen).pathOf_eq
        ht.grounded
    rw [hpath, decide_eq_false (Nat.not_le.mpr hlen)]
    rfl
  · have hpath : pathOf t.view r p.call =
        .ok ⟨f.segment description :: outer, spec.qualifiedName⟩ :=
      (pathOf_eq_ok_iff ht.grounded).mpr ⟨hblock, hsound, hlen, spec, howner, rfl, hsegments⟩
    rw [hpath, decide_eq_true hlen]
    rfl

mutual

/-- **Where an outline stands in a body, its trails are found in order.** -/
theorem Outline.found_stands (ht : t.Linked) (hr : KnowsVocabulary t.view r) :
    ∀ (o : Outline) {outer : List BlockSegment} {body id : NodeId},
    InBody t.view r spec outer body → t.Stands body id o.sketch.shape →
    (t.descendants id).filterMap (found? t r) = findings spec.qualifiedName (o.trails outer)
  | .block f description inner, outer, body, id, hb, h => by
    rw [sketch, Sketch.shape] at h
    obtain ⟨p, rfl, hp⟩ := h.blockCallAt
    obtain ⟨statements, hbody⟩ := hp.block.body
    have hinner := found_standsAll ht hr inner (hb.inner hr hp ht) hp.block.statements
    -- of the eight nodes of the call only the first is a call
    have hcall : [p.call, p.callee, p.argument, p.text, p.trailing, p.lambda, p.literal,
        p.body].filterMap (found? t r) = (found? t r p.call).toList := by
      simp only [List.filterMap_cons, List.filterMap_nil, found?_of_get? hp.callee rfl,
        found?_of_get? hp.argument rfl, found?_of_get? hp.text rfl,
        found?_of_get? hp.trailing rfl, found?_of_get? hp.block.lambda rfl,
        found?_of_get? hp.block.literal rfl, found?_of_get? hbody rfl]
      cases found? t r p.call <;> rfl
    rw [hp.descendants_eq ht, List.filterMap_append, hcall, InBody.found?_call ht hr hb hp,
      hinner, trails, ← findings_append]
    rfl

theorem Outline.found_standsAll (ht : t.Linked) (hr : KnowsVocabulary t.view r) :
    ∀ (os : List Outline) {outer : List BlockSegment} {body : NodeId} {ids : List NodeId},
    InBody t.view r spec outer body → t.StandsAll body (Sketch.shapes (sketches os)) ids →
    (ids.flatMap t.descendants).filterMap (found? t r) =
      findings spec.qualifiedName (trailsAmong outer os)
  | [], outer, body, ids, hb, h => by
    rw [sketches, Sketch.shapes, standsAll_nil_iff] at h
    rw [h, trailsAmong]
    rfl
  | o :: os, outer, body, ids, hb, h => by
    rw [sketches, Sketch.shapes] at h
    obtain ⟨id, rest, rfl, ho, hos⟩ := standsAll_cons_iff.mp h
    rw [List.flatMap_cons, List.filterMap_append, found_stands ht hr o hb ho,
      found_standsAll ht hr os hb hos, trailsAmong, findings_append]

end

end Found

/-! ## 4. The whole suite -/

section Suite

variable {t : Tree} {first second : NodeId} {p : ClassPlaces} {package className : String}
  {forest : List Outline}

/-- A class is around whatever stands in the body of its lambda. -/
theorem enclosingClass?_of_specClassAt (ht : t.Linked) {parent : NodeId} {head : ClassHead}
    {ss : List Shape} (h : t.SpecClassAt parent p head ss) {c : NodeId}
    (hc : t.parent? c = some p.body) : t.view.enclosingClass? c = some p.declaration := by
  have hv := ht.grounded
  obtain ⟨statements, hbody⟩ := h.block.body
  have hclass : t.view.kindIs Kind.isClass p.declaration = true :=
    kindIs_of_get? h.declaration _
  have hparent : t.view.parent? p.specifier = some p.declaration :=
    parent?_of_get? h.specifier
  rw [View.enclosingClass?_skip hv hc (kindIs_of_get? hbody _),
    View.enclosingClass?_skip hv (parent?_of_get? hbody) (kindIs_of_get? h.block.literal _),
    View.enclosingClass?_skip hv (parent?_of_get? h.block.literal)
      (kindIs_of_get? h.block.lambda _),
    View.enclosingClass?_skip hv (parent?_of_get? h.block.lambda)
      (kindIs_of_get? h.argument _),
    View.enclosingClass?_skip hv (parent?_of_get? h.argument)
      (kindIs_of_get? h.invocation _),
    View.enclosingClass?_skip hv (parent?_of_get? h.invocation)
      (kindIs_of_get? h.specifier _),
    View.enclosingClass?_of_parent? hv hparent, hclass]
  rfl

/-- **In the body of the class no call is around a block**, and the class owns it. -/
theorem inBody_spec (ht : t.Linked) (h : SuiteAt t first second p package className forest)
    (hname : suiteName package className ≠ marker) :
    InBody t.view (Index.build t .framework).resolver
      (SuiteAt.specSymbol package className p.declaration) [] p.body := by
  -- the lambda of the class is an argument in parentheses
  have houter : ∀ c, t.view.parent? c = some p.body → outerCall? t.view c = none := by
    intro c hc
    have hparent : t.view.parent? p.lambda = some p.argument :=
      parent?_of_get? h.spec.block.lambda
    have hkind : t.view.kindIs (· == .lambdaArgument) p.argument = false :=
      kindIs_of_get? h.spec.argument _
    rw [outerCall?, enclosingLambda?_of_lambdaAt h.spec.block hc, Option.bind_some,
      trailingOwner?, View.parentIf?, hparent, Option.filter_some, hkind]
    rfl
  refine ⟨?_, ?_, ?_, ?_⟩
  · intro c hc
    rw [enclosingLambda?_of_lambdaAt h.spec.block hc]
    rfl
  · intro c hc
    rw [owner?, enclosingClass?_of_specClassAt ht h.spec hc, Option.bind_some,
      h.classOf?_declaration ht, Option.filter_some, h.isSpec_specSymbol ht hname]
    rfl
  · intro c hc d hd
    rw [wayUp_of_outerCall?_none (houter c hc)] at hd
    cases hd
  · intro c hc
    rw [wayUp_of_outerCall?_none (houter c hc)]
    rfl

/-- **A scan of the file of a suite lists the blocks of its outlines**, in document order and
with their trails, down to the depth that a path may have. -/
theorem scanTree_of_isSuite (ht : t.Linked) (h : IsSuite t package className forest)
    (hname : suiteName package className ≠ marker) :
    scanTree t .framework {} =
      findings (suiteName package className) (trailsAmong [] forest) := by
  obtain ⟨first, second, p, hp⟩ := h.suiteAt
  obtain ⟨statements, hbody⟩ := hp.spec.block.body
  obtain ⟨file, hfile, hkind⟩ := Option.map_eq_some_iff.mp hp.file
  have hr : KnowsVocabulary t.view (Index.build t .framework).resolver :=
    fun id f hk => hp.functionOf?_name ht f hk
  have hfound := found_standsAll ht hr forest (inBody_spec ht hp hname) hp.spec.block.statements
  have hroot : found? t (Index.build t .framework).resolver root = none :=
    found?_of_get? hfile (by rw [hkind]; rfl)
  rw [scanTree, if_neg (by decide), List.nil_append, scan_eq_filterMap, hp.descendants_root ht,
    List.filterMap_append, hfound]
  simp only [List.filterMap_cons, List.filterMap_nil, hroot, found?_of_get? hp.get_first rfl,
    found?_of_get? hp.get_second rfl, found?_of_get? hp.spec.declaration rfl,
    found?_of_get? hp.spec.specifier rfl, found?_of_get? hp.spec.invocation rfl,
    found?_of_get? hp.spec.argument rfl, found?_of_get? hp.spec.block.lambda rfl,
    found?_of_get? hp.spec.block.literal rfl, found?_of_get? hbody rfl, List.nil_append]
  rfl

end Suite

/-- **Every suite is recovered.**  For any package, class name and row of outlines whose class
does not have the name of the marker class, the builder makes a file whose scan gives the
outlines back; and so does any other order of building that ends in a file of that suite. -/
theorem scanTree_buildSuite (package className : String) (forest : List Outline)
    (hname : suiteName package className ≠ "org.jetbrains.spek.api.Spek") :
    (∃ t, buildSuite package className forest = .ok t ∧ scanTree t .framework {} =
      findings (suiteName package className) (trailsAmong [] forest)) ∧
    ∀ t : Tree, t.Built → IsSuite t package className forest → scanTree t .framework {} =
      findings (suiteName package className) (trailsAmong [] forest) := by
  refine ⟨?_, ?_⟩
  · have hbuild := buildSuite_eq package className forest
    obtain ⟨hlinked, hsuite⟩ := isSuite_of_buildSuite hbuild
    exact ⟨_, hbuild, scanTree_of_isSuite hlinked hsuite hname⟩
  · intro t ht hsuite
    exact scanTree_of_isSuite ht.linked hsuite hname

/-- A group with a test in it, beside a test whose description has a quote and a slash. -/
theorem scanTree_buildSuite_three :
    suiteName "com.example" "FooSpec" ≠ "org.jetbrains.spek.api.Spek" ∧
    ∃ t, buildSuite "com.example" "FooSpec"
        [.block .describe "" [.block .it "b" []], .block .it "c\"/" []] = .ok t ∧
      scanTree t .framework {} = [
        { path := ⟨[⟨.group, "describe "⟩], "com.example.FooSpec"⟩, span := {} },
        { path := ⟨[⟨.test, "it b"⟩, ⟨.group, "describe "⟩], "com.example.FooSpec"⟩, span := {} },
        { path := ⟨[⟨.test, "it c\"/"⟩], "com.example.FooSpec"⟩, span := {} }] := by
  have hname : suiteName "com.example" "FooSpec" ≠ "org.jetbrains.spek.api.Spek" := by
    decide +kernel
  obtain ⟨t, hbuild, hscan⟩ := (scanTree_buildSuite "com.example" "FooSpec"
    [.block .describe "" [.block .it "b" []], .block .it "c\"/" []] hname).1
  refine ⟨hname, t, hbuild, hscan.trans ?_⟩
  decide +kernel

end SpecOutline.Suite
