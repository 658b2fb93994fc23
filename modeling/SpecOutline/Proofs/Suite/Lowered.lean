/-
# Blocks of parsed files

A call that passes for a block need not have a path: the climb checks every call around it once
more, and those may be any code.  In the tree of a parsed file a block that a spec class owns has
a path exactly if nothing is in the way (`Unobstructed`, `exists_pathOf_iff`): every call on the
way up stands in the body of a lambda, calls a known function by a bare name and describes itself
by a literal, and there are at most 256 of them.  The path is then reported, and otherwise the
climb ends in an error.  A test in the lambda of a loop is a block without a path.
-/
import SpecOutline.Library.Framework
import SpecOutline.ParseTree.Lower
import SpecOutline.Proofs.Suite.WayUp
import SpecOutline.Proofs.Symbol.Supertypes

namespace SpecOutline

/-! ## 1. Trees of parsed files -/

/-- **The tree of a parse tree has its links in order**, whatever the grammar says. -/
theorem ParseTree.linked_lower (source : ParseTree) : source.lower.Linked := by
  have hfile : (((Tree.empty .kotlin).setSpan Tree.root source.span).setPackage
      source.package?).Linked :=
    ((Tree.linked_empty .kotlin).setSpan _ _).setPackage _
  exact (hfile.graftAll hfile.size_pos _).of_eq_nodes rfl

namespace Suite

variable {r : Resolver} {call : NodeId}

/-! ## 2. What keeps a block from being reported -/

/-- Nothing on the way up keeps a block from having a path. -/
def Unobstructed (v : View) (r : Resolver) (call : NodeId) : Prop :=
  (wayUp v call).length ≤ 256 ∧
    ∀ c ∈ wayUp v call, (enclosingLambda? v c).isSome = true ∧
      (calledFunction? v r c).isSome = true ∧ (description? v c).isSome = true

/-- **A block with an owner has a path exactly if nothing is in the way.** -/
theorem exists_pathOf_iff {v : View} (hv : v.Grounded) (howner : (owner? v r call).isSome = true)
    (hblock : (block? v r call).isSome = true) :
    (∃ p, pathOf v r call = .ok p) ↔ Unobstructed v r call := by
  constructor
  · rintro ⟨p, hp⟩
    obtain ⟨-, hsound, hlen, -⟩ := (pathOf_eq_ok_iff hv).mp hp
    exact ⟨hlen, fun c hc => fault?_eq_none_iff.mp (hsound c hc)⟩
  · rintro ⟨hlen, hall⟩
    have hsound : ∀ c ∈ wayUp v call, fault? v r c = none :=
      fun c hc => fault?_eq_none_iff.mpr (hall c hc)
    obtain ⟨spec, hspec⟩ := Option.isSome_iff_exists.mp howner
    obtain ⟨blocks, -, hm⟩ := ascend_of_length_le hv call hlen hsound
    exact ⟨⟨blocks, spec.qualifiedName⟩,
      (pathOf_eq_ok_iff hv).mpr ⟨hblock, hsound, hlen, spec, hspec, rfl, hm⟩⟩

/-- **Which blocks of a parsed file are reported.**  Take any parse tree, any library and any
call of the tree made from it that passes for a block and that a spec class owns.  The call has
a path, and a scan reports it, exactly if nothing on the way up is in the way; and otherwise its
path is an error, and the scan makes nothing of the call. -/
theorem reported_lower_iff (source : ParseTree) (library : Library) {call : NodeId}
    (hcall : source.lower.kind? call = some .call)
    (howner : (owner? source.lower.view (Index.build source.lower library).resolver call).isSome
      = true)
    (hblock : (block? source.lower.view (Index.build source.lower library).resolver call).isSome
      = true) :
    ((∃ p, pathOf source.lower.view (Index.build source.lower library).resolver call = .ok p ∧
        { path := p, span := source.lower.span call } ∈
          scan source.lower (Index.build source.lower library).resolver {}) ↔
      Unobstructed source.lower.view (Index.build source.lower library).resolver call) ∧
    (¬ Unobstructed source.lower.view (Index.build source.lower library).resolver call →
      (∃ e, pathOf source.lower.view (Index.build source.lower library).resolver call =
        .error e) ∧
      findingOf? source.lower (Index.build source.lower library).resolver {} call = none) := by
  have ht := source.linked_lower
  have hiff := exists_pathOf_iff ht.grounded howner hblock
  refine ⟨⟨?_, ?_⟩, ?_⟩
  · rintro ⟨p, hp, -⟩
    exact hiff.mp ⟨p, hp⟩
  · intro hfree
    obtain ⟨p, hp⟩ := hiff.mpr hfree
    exact ⟨p, hp, reported_of_pathOf ht hcall hp⟩
  · intro hobstructed
    rw [findingOf?_of_owner? howner hblock]
    cases hp : pathOf source.lower.view (Index.build source.lower library).resolver call with
    | ok p => exact absurd (hiff.mp ⟨p, hp⟩) hobstructed
    | error e => exact ⟨⟨e, rfl⟩, rfl⟩

/-! ## 3. A test in a group and a test in a loop -/

namespace Example

/-- A bare token. -/
def token (text : String) : ParseTree := .node { kind := text, isNamed := false, text } []

/-- A phrase without parts. -/
def word (kind text : String) : ParseTree := .node { kind, text } []

/-- A phrase with its parts and what stands between them. -/
def phrase (kind gap : String) (parts : List ParseTree) : ParseTree :=
  .node { kind, text := gap.intercalate (parts.map ParseTree.text) } parts

/-- A name with dots. -/
def qualified (names : List String) : ParseTree :=
  phrase "qualified_identifier" "" ((names.map (word "identifier")).intersperse (token "."))

/-- Arguments in parentheses. -/
def inParentheses (argument : ParseTree) : ParseTree :=
  phrase "value_arguments" "" [token "(", phrase "value_argument" "" [argument], token ")"]

/-- A lambda. -/
def inBraces (parts : List ParseTree) : ParseTree :=
  phrase "lambda_literal" " " ([token "\x7b"] ++ parts ++ [token "\x7d"])

/-- A literal in quotes. -/
def quoted (text : String) : ParseTree :=
  phrase "string_literal" "" [token "\"", word "string_content" text, token "\""]

/-- The call `function(literal) { parts }`. -/
def blockCall (function : String) (literal : ParseTree) (parts : List ParseTree) : ParseTree :=
  phrase "call_expression" " " [
    phrase "call_expression" "" [word "identifier" function, inParentheses literal],
    phrase "annotated_lambda" "" [inBraces parts]]

/-- The call `it("description") { }`. -/
def testCall (description : String) : ParseTree := blockCall "it" (quoted description) []

/-- The call `listOf(1).forEach { n -> body }`. -/
def loop (body : ParseTree) : ParseTree :=
  phrase "call_expression" " " [
    phrase "navigation_expression" "" [
      phrase "call_expression" "" [word "identifier" "listOf",
        inParentheses (word "number_literal" "1")],
      token ".", word "identifier" "forEach"],
    phrase "annotated_lambda" "" [inBraces [
      phrase "lambda_parameters" "" [
        phrase "variable_declaration" "" [word "identifier" "n"]],
      token "->", body]]]

/-- The declaration `class name : Spek({ statements })`. -/
def specClass (name : String) (statements : List ParseTree) : ParseTree :=
  phrase "class_declaration" " " [token "class",
    .node { kind := "identifier", field? := some "name", text := name } [], token ":",
    phrase "delegation_specifiers" "" [phrase "delegation_specifier" "" [
      phrase "constructor_invocation" "" [
        phrase "user_type" "" [word "identifier" "Spek"],
        inParentheses (inBraces statements)]]]]

/-- A file with a class `FooSpec`. -/
def specFile (statements : List ParseTree) : ParseTree :=
  phrase "source_file" " " [
    phrase "package_header" " " [token "package", qualified ["com", "example"]],
    phrase "import" " " [token "import",
      qualified ["org", "jetbrains", "spek", "api", "Spek"]],
    .node { kind := "import", text := "import org.jetbrains.spek.api.dsl.*" }
      [token "import", qualified ["org", "jetbrains", "spek", "api", "dsl"], token ".",
        token "*"],
    specClass "FooSpec" statements]

/-- A file with one test of its own and one test in a loop. -/
def loopFile : ParseTree := specFile [testCall "once", loop (testCall "each")]

/-- A file with a test in a group. -/
def groupFile : ParseTree := specFile [blockCall "describe" (quoted "a") [testCall "b"]]

/-- Both files, and where a test stands in a lambda of its class. -/
def innerTests : List (ParseTree × NodeId) := [(loopFile, 34), (groupFile, 20)]

/-- In either file, the test is a call and a block, and its class directly extends the marker. -/
theorem ownBlock_of_mem_innerTests : ∀ test ∈ innerTests,
    test.1.lower.kind? test.2 = some .call ∧
    (block? test.1.lower.view (Index.build test.1.lower .framework).resolver test.2).isSome =
      true ∧
    test.1.lower.view.enclosingClass? test.2 = some 3 ∧
    knowsFooSpec (Index.build test.1.lower .framework) = true := by
  decide +kernel

/-- In either file, the test is a block that the class owns. -/
theorem owned_innerTest {file : ParseTree} {call : NodeId} (h : (file, call) ∈ innerTests) :
    file.lower.kind? call = some .call ∧
    (block? file.lower.view (Index.build file.lower .framework).resolver call).isSome = true ∧
    (owner? file.lower.view (Index.build file.lower .framework).resolver call).isSome =
      true := by
  obtain ⟨hcall, hblock, hclass, hknows⟩ := ownBlock_of_mem_innerTests (file, call) h
  exact ⟨hcall, hblock, Option.isSome_of_eq_some (owner?_fooSpec hclass hknows)⟩

theorem mem_innerTests_loopFile : (loopFile, 34) ∈ innerTests := List.mem_cons_self

theorem mem_innerTests_groupFile : (groupFile, 20) ∈ innerTests :=
  List.mem_cons_of_mem _ List.mem_cons_self

end Example

/-- **A test in a loop is lost**: the call at place 34 passes for a block and a spec class owns
it, but it has no path, because the callee of the loop around it is no bare name. -/
theorem lost_test_in_loop :
    Example.loopFile.lower.kind? 34 = some .call ∧
    (owner? Example.loopFile.lower.view
      (Index.build Example.loopFile.lower .framework).resolver 34).isSome = true ∧
    (block? Example.loopFile.lower.view
      (Index.build Example.loopFile.lower .framework).resolver 34).isSome = true ∧
    pathOf Example.loopFile.lower.view
      (Index.build Example.loopFile.lower .framework).resolver 34 =
        .error (.calleeNotNameReference 20) := by
  obtain ⟨hcall, hblock, howner⟩ := Example.owned_innerTest Example.mem_innerTests_loopFile
  have hway : wayUp Example.loopFile.lower.view 34 = [34, 20] := by decide +kernel
  refine ⟨hcall, howner, hblock, ?_⟩
  refine (Outcome.fault hblock (by decide : 1 < 256) (by rw [hway]; rfl) ?_ ?_).pathOf_eq
    Example.loopFile.linked_lower.grounded
  · decide +kernel
  · intro d hd
    rw [hway] at hd
    rw [List.mem_singleton.mp hd]
    exact fault?_of_block? hblock

/-- The test in a group is reported: nothing is in the way of the test and the group. -/
theorem reported_test_in_group :
    Example.groupFile.lower.kind? 20 = some .call ∧
    wayUp Example.groupFile.lower.view 20 = [20, 12] ∧
    Unobstructed Example.groupFile.lower.view
      (Index.build Example.groupFile.lower .framework).resolver 20 ∧
    ∃ p, pathOf Example.groupFile.lower.view
        (Index.build Example.groupFile.lower .framework).resolver 20 = .ok p ∧
      { path := p, span := Example.groupFile.lower.span 20 } ∈
        scan Example.groupFile.lower
          (Index.build Example.groupFile.lower .framework).resolver {} := by
  obtain ⟨hcall, hblock, howner⟩ := Example.owned_innerTest Example.mem_innerTests_groupFile
  have hway : wayUp Example.groupFile.lower.view 20 = [20, 12] := by decide +kernel
  have hfree : Unobstructed Example.groupFile.lower.view
      (Index.build Example.groupFile.lower .framework).resolver 20 := by
    rw [Unobstructed, hway]
    refine ⟨by decide, ?_⟩
    decide +kernel
  exact ⟨hcall, hway, hfree,
    (reported_lower_iff Example.groupFile .framework hcall howner hblock).1.mpr hfree⟩

end Suite

end SpecOutline
