/-
# Listings as lines

A report is shown as a line: the place, the kind and the target, with tabs between them.  Nothing
is escaped, and a target is made of free texts.  So the line is cut into those three fields, and is
one line at all, exactly if no label of the report holds a tab or a line break
(`Report.isRecord_iff`), and a listing has one line for every report exactly if no label holds a
line feed (`length_lines_render_iff`).  A literal may hold either of them, and its text becomes a
label as it stands.
-/
import SpecOutline.Proofs.CommandLine.Runs
import SpecOutline.Proofs.Suite.Targets

namespace SpecOutline

/-! ## 1. Texts without marks -/

namespace Text

/-- The characters that end a field or a line. -/
def marks : List Char := ['\t', '\n', '\r']

/-- A text that ends no field and no line. -/
def Unmarked (text : String) : Prop := ∀ c ∈ marks, c ∉ text.toList

-- over the three marks, and not over all characters
instance (text : String) : Decidable (Unmarked text) :=
  List.decidableBAll (· ∉ text.toList) marks

theorem unmarked_append {text text' : String} (h : Unmarked text) (h' : Unmarked text') :
    Unmarked (text ++ text') := by
  intro c hc
  rw [String.toList_append, List.mem_append, not_or]
  exact ⟨h c hc, h' c hc⟩

/-- A number is written without marks. -/
theorem unmarked_toString (n : Nat) : Unmarked (toString n) := by
  intro c hc hmem
  have hdigits : (toString n).toList = Nat.toDigits 10 n := Nat.toList_repr
  rw [hdigits] at hmem
  have hdigit := Nat.isDigit_of_mem_toDigits (by omega) (by omega) hmem
  simp only [marks, List.mem_cons, List.not_mem_nil, or_false] at hc
  rcases hc with rfl | rfl | rfl <;> cases hdigit

end Text

open Text

namespace Suite

/-! ## 2. The line of a report -/

theorem unmarked_name (k : SegmentKind) : Unmarked k.name := by
  cases k <;> decide

namespace Report

/-- The first field of a line: where the report is. -/
def place (r : Report) : String := r.file ++ ":" ++ toString r.line

/-- The fields of a line. -/
def fields (r : Report) : List String := [r.place, r.kind.name, r.target]

/-- The line of a report is a record: two tabs, no line break, and the fields between the tabs. -/
structure IsRecord (r : Report) : Prop where
  tabs : r.textLine.toList.count '\t' = 2
  unbroken : ∀ c ∈ ['\n', '\r'], c ∉ r.textLine.toList
  cut : r.textLine.toList.splitOn '\t' = r.fields.map String.toList

/-- The target of a report shows its path. -/
def ShowsPath (r : Report) : Prop := r.target = "/".intercalate (r.path.map (·.label))

theorem showsPath_of (file : String) (f : Finding) : (Report.of file f).ShowsPath := rfl

variable {r : Report}

theorem textLine_eq (r : Report) : r.textLine = "\t".intercalate r.fields := by
  simp [textLine, fields, place, String.append_assoc]

theorem unmarked_place (hfile : Unmarked r.file) : Unmarked r.place :=
  unmarked_append (unmarked_append hfile (by decide)) (unmarked_toString r.line)

/-- **A line cut at its tabs**: the place, the kind, and what is left of the target when it is cut
too. -/
theorem splitOn_textLine (hfile : Unmarked r.file) :
    r.textLine.toList.splitOn '\t' =
      [r.place.toList, r.kind.name.toList] ++ r.target.toList.splitOn '\t' := by
  have hplace := List.splitOn_eq_singleton (unmarked_place hfile '\t' (by decide))
  have hkind := List.splitOn_eq_singleton (unmarked_name r.kind '\t' (by decide))
  rw [textLine_eq, String.toList_intercalate]
  refine (splitOn_intercalate_eq_flatMap (by simp [fields])).trans ?_
  simp [fields, hplace, hkind]

/-- A line has two tabs and those of the target. -/
theorem count_tab_textLine (hfile : Unmarked r.file) :
    r.textLine.toList.count '\t' = r.target.toList.count '\t' + 2 := by
  have hlength := congrArg List.length (splitOn_textLine hfile)
  rw [List.length_append, length_splitOn, length_splitOn] at hlength
  simp only [List.length_cons, List.length_nil] at hlength
  omega

/-- A line break of a line is one of the target. -/
theorem mem_textLine_iff (hfile : Unmarked r.file) {c : Char} (hc : c ∈ ['\n', '\r']) :
    c ∈ r.textLine.toList ↔ c ∈ r.target.toList := by
  have hmark : c ∈ marks := List.mem_cons_of_mem _ hc
  have htab : c ∉ "\t".toList := by
    simp only [List.mem_cons, List.not_mem_nil, or_false] at hc
    rcases hc with rfl | rfl <;> decide
  rw [textLine_eq, mem_intercalate_iff htab]
  simp [fields, unmarked_place hfile c hmark, unmarked_name r.kind c hmark]

/-- A mark of the target is one of a label. -/
theorem mem_target_iff (hshows : r.ShowsPath) {c : Char} (hc : c ∈ marks) :
    c ∈ r.target.toList ↔ ∃ s ∈ r.path, c ∈ s.label.toList := by
  have hslash : c ∉ "/".toList := by
    simp only [marks, List.mem_cons, List.not_mem_nil, or_false] at hc
    rcases hc with rfl | rfl | rfl <;> decide
  rw [hshows, mem_intercalate_iff hslash]
  simp

theorem unmarked_target_iff (hshows : r.ShowsPath) :
    Unmarked r.target ↔ ∀ s ∈ r.path, Unmarked s.label := by
  constructor
  · intro h s hs c hc hmem
    exact h c hc ((mem_target_iff hshows hc).mpr ⟨s, hs, hmem⟩)
  · intro h c hc hmem
    obtain ⟨s, hs, hmem⟩ := (mem_target_iff hshows hc).mp hmem
    exact h s hs c hc hmem

/-- **A line is a record exactly if the labels hold no marks.** -/
theorem isRecord_iff (hfile : Unmarked r.file) (hshows : r.ShowsPath) :
    r.IsRecord ↔ ∀ s ∈ r.path, Unmarked s.label := by
  rw [← unmarked_target_iff hshows]
  constructor
  · intro h
    have htab : '\t' ∉ r.target.toList := by
      have htabs := h.tabs
      rw [count_tab_textLine hfile] at htabs
      exact List.count_eq_zero.mp (by omega)
    intro c hc
    rcases List.mem_cons.mp hc with rfl | hc
    · exact htab
    · exact fun hmem => h.unbroken c hc ((mem_textLine_iff hfile hc).mpr hmem)
  · intro h
    have htab : '\t' ∉ r.target.toList := h '\t' (by decide)
    refine ⟨?_, ?_, ?_⟩
    · rw [count_tab_textLine hfile, List.count_eq_zero.mpr htab]
    · intro c hc hmem
      exact h c (List.mem_cons_of_mem _ hc) ((mem_textLine_iff hfile hc).mp hmem)
    · rw [splitOn_textLine hfile, List.splitOn_eq_singleton htab]
      rfl

end Report

/-! ## 3. Reports of a source -/

section Sources

variable {grammar : Grammar} {library : Library} {options : Options} {source : SourceFile}
  {reports : List Report}

theorem linked_of_read {text : String} {language : Language} {tree : Tree}
    (h : grammar.read text language = .ok tree) : tree.Linked := by
  unfold Grammar.read at h
  split at h
  · split at h
    · cases h
      exact (ParseTree.linked_lower _).of_eq_nodes rfl
    · cases h
  · cases h

/-- The reports of a source are the findings in the tree of its text. -/
theorem scanSource_eq_ok (h : scanSource grammar library options source = .ok reports) :
    ∃ tree, grammar.read source.content (.ofPathname source.location) = .ok tree ∧
      reports = (scanTree { tree with path? := some source.path } library options).map
        (.of source.path) := by
  unfold scanSource at h
  split at h
  · rename_i tree htree
    exact ⟨tree, htree, (Except.ok.inj h).symm⟩
  · cases h

theorem showsPath_of_scanSource (h : scanSource grammar library options source = .ok reports)
    {r : Report} (hr : r ∈ reports) : r.ShowsPath := by
  obtain ⟨tree, -, rfl⟩ := scanSource_eq_ok h
  obtain ⟨f, -, rfl⟩ := List.mem_map.mp hr
  exact Report.showsPath_of source.path f

end Sources

end Suite

/-! ## 4. The lines of a listing -/

namespace CommandLine

open SpecOutline.Json SpecOutline.Suite

/-- The lines of an output, each of them closed by a line feed. -/
def lines (output : String) : List (List Char) := (output.toList.splitOn '\n').dropLast

/-- Every report has the lines that its text falls into. -/
theorem lines_render (reports : List Report) :
    lines (Format.render reports .text) =
      reports.flatMap fun r => r.textLine.toList.splitOn '\n' := by
  have hclosed : (Format.render reports .text).toList =
      (reports.map (·.textLine.toList)).flatMap (· ++ ['\n']) := by
    simp [Format.render, String.toList_join, List.flatMap_map]
  rw [lines, hclosed, splitOn_flatMap_closed, List.dropLast_concat, List.flatMap_map]

/-- **A listing has one line for every report exactly if no label holds a line feed.** -/
theorem length_lines_render_iff {reports : List Report}
    (hfile : ∀ r ∈ reports, Unmarked r.file) (hshows : ∀ r ∈ reports, r.ShowsPath) :
    (lines (Format.render reports .text)).length = reports.length ↔
      ∀ r ∈ reports, ∀ s ∈ r.path, '\n' ∉ s.label.toList := by
  have hlength : (lines (Format.render reports .text)).length =
      reports.length + (reports.map (·.textLine.toList)).flatten.count '\n' := by
    rw [lines_render, ← List.flatMap_map, length_flatMap_splitOn, List.length_map]
  have hbreak : ∀ r ∈ reports,
      '\n' ∈ r.textLine.toList ↔ ∃ s ∈ r.path, '\n' ∈ s.label.toList := by
    intro r hr
    rw [Report.mem_textLine_iff (hfile r hr) (by decide),
      Report.mem_target_iff (hshows r hr) (by decide)]
  rw [hlength, Nat.add_eq_left, List.count_eq_zero]
  constructor
  · intro h r hr s hs hmem
    refine h (List.mem_flatten.mpr ⟨_, List.mem_map_of_mem hr, ?_⟩)
    exact (hbreak r hr).mpr ⟨s, hs, hmem⟩
  · intro h hmem
    obtain ⟨line, hline, hmem⟩ := List.mem_flatten.mp hmem
    obtain ⟨r, hr, rfl⟩ := List.mem_map.mp hline
    obtain ⟨s, hs, hmem⟩ := (hbreak r hr).mp hmem
    exact h r hr s hs hmem

/-- The reports of a root with one source below it. -/
theorem Setup.reports_singleton {s : Setup} {root : String} {source : SourceFile}
    {reports : List Report} (hfound : s.volume.sourcesAt s.rules root = .ok [source])
    (hscan : scanSource s.grammar s.library s.options source = .ok reports) :
    s.reports [root] = .ok reports := by
  refine reports_eq_ok_iff.mpr ⟨[[source]], [reports], ?_, ?_, by simp⟩
  · rw [List.mapM_cons, List.mapM_nil, hfound]
    rfl
  · rw [List.flatten_singleton, List.mapM_cons, List.mapM_nil, hscan]
    rfl

theorem Setup.showsPath_of_reports {s : Setup} {roots : List String} {reports : List Report}
    (h : s.reports roots = .ok reports) : ∀ r ∈ reports, r.ShowsPath := by
  intro r hr
  obtain ⟨found, scanned, -, hscanned, rfl⟩ := reports_eq_ok_iff.mp h
  obtain ⟨part, hpart, hr⟩ := List.mem_flatten.mp hr
  obtain ⟨source, -, hscan⟩ := (mem_of_mapM_eq_ok hscanned).mp hpart
  exact showsPath_of_scanSource hscan hr

/-- **Which reports are shown as records, and which listings have a line for each.**  Take any
source whose path holds no marks.  The line of each of its reports, cut at its tabs, is the place,
the kind and the parts of the target; it is a record exactly if no label of the report holds a
mark; and each label is the name of a class of the file, or that of a called function with the
description of the call, marks and all.  A run for lines prints as many lines as it has reports
exactly if no label holds a line feed. -/
theorem textLines_of_scanSource_and_run (grammar : Grammar) :
    (∀ library options source reports, Unmarked source.path →
      scanSource grammar library options source = .ok reports →
      ∃ tree, grammar.read source.content (.ofPathname source.location) = .ok tree ∧
        ∀ r ∈ reports,
          r.textLine.toList.splitOn '\t' =
            [r.place.toList, r.kind.name.toList] ++ r.target.toList.splitOn '\t' ∧
          (r.IsRecord ↔ ∀ s ∈ r.path, Unmarked s.label) ∧
          ∀ s ∈ r.path, LabelIn { tree with path? := some source.path }
            (Index.build { tree with path? := some source.path } library).resolver s.label) ∧
    (∀ (a : Arguments) v setup reports, a.format = .text → a.setup v grammar = .ok setup →
      setup.reports a.paths = .ok reports → (∀ r ∈ reports, Unmarked r.file) →
      ∃ output, a.run v grammar = .ok output ∧
        lines output = reports.flatMap (fun r => r.textLine.toList.splitOn '\n') ∧
        ((lines output).length = reports.length ↔
          ∀ r ∈ reports, ∀ s ∈ r.path, '\n' ∉ s.label.toList)) := by
  refine ⟨?_, ?_⟩
  · intro library options source reports hpath hscan
    obtain ⟨tree, htree, rfl⟩ := scanSource_eq_ok hscan
    have hlinked : { tree with path? := some source.path }.Linked :=
      (linked_of_read htree).of_eq_nodes rfl
    refine ⟨tree, htree, fun r hr => ?_⟩
    obtain ⟨f, hf, rfl⟩ := List.mem_map.mp hr
    refine ⟨Report.splitOn_textLine hpath,
      Report.isRecord_iff hpath (Report.showsPath_of source.path f), ?_⟩
    intro s hs
    exact labelIn_of_mem_scanTree hlinked hf s.label (List.mem_map_of_mem hs)
  · intro a v setup reports hformat hsetup hreports hfile
    have hrun : a.run v grammar = .ok (Format.render reports .text) := by
      rw [← hformat]
      exact run_eq_ok_iff.mpr ⟨setup, reports, hsetup, hreports, rfl⟩
    exact ⟨_, hrun, lines_render reports,
      length_lines_render_iff hfile (Setup.showsPath_of_reports hreports)⟩

namespace Example

open Suite.Example (phrase token word blockCall specFile loopFile knowsFooSpec)

/-- The literal `"a<tab>b ${<line feed>1}"`. -/
def markedLiteral : ParseTree :=
  phrase "string_literal" "" [token "\"", word "string_content" "a\tb ",
    .node { kind := "interpolation", text := "$\x7b\n1\x7d" }
      [token "$\x7b", word "number_literal" "1", token "\x7d"],
    token "\""]

/-- A file with one test, which that literal describes. -/
def markedFile : ParseTree := specFile [blockCall "it" markedLiteral []]

/-- A file with a text. -/
def source (content : String) : SourceFile := ⟨"FooSpec.kt", "FooSpec.kt", content⟩

/-- The tree that is scanned if its text has a parse tree. -/
def treeOf (file : ParseTree) : Tree :=
  { file.lower with language := .kotlin, path? := some "FooSpec.kt" }

/-- The report of its first test. -/
def reportOf (file : ParseTree) (description : String) : Report :=
  .of "FooSpec.kt" {
    path := ⟨[⟨.test, blockLabel "it" description⟩], "com.example.FooSpec"⟩
    span := (treeOf file).span 12 }

theorem read_source (file : ParseTree) (content : String) :
    Grammar.read (fun _ => some file) (source content).content
      (.ofPathname (source content).location) = .ok { file.lower with language := .kotlin } := by
  have hlanguage : Language.ofPathname "FooSpec.kt" = .kotlin := by decide +kernel
  rw [source, hlanguage]
  rfl

theorem eq_treeOf {file : ParseTree} {content : String} {tree : Tree}
    (h : Grammar.read (fun _ => some file) (source content).content
      (.ofPathname (source content).location) = .ok tree) :
    { tree with path? := some (source content).path } = treeOf file := by
  rw [read_source] at h
  cases h
  rfl

theorem scanSource_treeOf (file : ParseTree) (content : String) :
    scanSource (fun _ => some file) .framework {} (source content) =
      .ok ((scanTree (treeOf file) .framework {}).map (.of "FooSpec.kt")) := by
  rw [scanSource, read_source]
  rfl

theorem unmarked_file_treeOf (file : ParseTree) :
    ∀ r ∈ (scanTree (treeOf file) .framework {}).map (Report.of "FooSpec.kt"),
      Unmarked r.file := by
  intro r hr
  obtain ⟨f, -, rfl⟩ := List.mem_map.mp hr
  exact (by decide : Unmarked "FooSpec.kt")

/-- Two files, and what describes the first test of each. -/
def firstTests : List (ParseTree × String) :=
  [(loopFile, "once"), (markedFile, "a\tb $\x7b\n1\x7d")]

/-- In either file, the first test is a call in the class, which directly extends the marker. -/
theorem ownTest_of_mem_firstTests : ∀ test ∈ firstTests,
    (treeOf test.1).kind? 12 = some .call ∧
    (treeOf test.1).view.enclosingClass? 12 = some 3 ∧
    (wayUp (treeOf test.1).view 12).map
      (block? (treeOf test.1).view (Index.build (treeOf test.1) .framework).resolver) =
        [⟨.test, "it", test.2⟩].map some ∧
    knowsFooSpec (Index.build (treeOf test.1) .framework) = true := by
  decide +kernel

/-- In either file, the first test is reported. -/
theorem mem_scanTree_treeOf : ∀ test ∈ firstTests,
    reportOf test.1 test.2 ∈ (scanTree (treeOf test.1) .framework {}).map (.of "FooSpec.kt") := by
  intro test htest
  have hlinked : (treeOf test.1).Linked := (ParseTree.linked_lower _).of_eq_nodes rfl
  obtain ⟨hkind, hclass, hway, hknows⟩ := ownTest_of_mem_firstTests test htest
  have howner := Suite.Example.owner?_fooSpec hclass hknows
  have hpath := pathOf_of_blocks hlinked.grounded hway (by simp) howner
  exact List.mem_map_of_mem (mem_scanTree_of_pathOf hlinked hkind hpath)

/-- No text that the labels of the first file are made of holds a mark. -/
theorem unmarked_loopFile {label : String}
    (h : LabelIn (treeOf loopFile) (Index.build (treeOf loopFile) .framework).resolver label) :
    Unmarked label := by
  have hfile : ∀ id < (treeOf loopFile).size,
      (∀ c ∈ (Index.build (treeOf loopFile) .framework).resolver.classOf? id,
        Unmarked c.qualifiedName) ∧
      (∀ f ∈ calledFunction? (treeOf loopFile).view
        (Index.build (treeOf loopFile) .framework).resolver id, Unmarked f.name) ∧
      ∀ d ∈ description? (treeOf loopFile).view id, Unmarked d := by
    decide +kernel
  cases h with
  | className hid hc => exact (hfile _ hid).1 _ hc
  | call hid hf hd =>
    exact unmarked_append (unmarked_append ((hfile _ hid).2.1 _ hf) (by decide))
      ((hfile _ hid).2.2 _ hd)

end Example

/-- **A line with three tabs and a line break**: the report of a test that a literal with both
describes is no record, and the listing has more lines than reports. -/
theorem textLine_markedFile :
    Unmarked (Example.source Example.markedFile.text).path ∧
    ∃ reports, scanSource (fun _ => some Example.markedFile) .framework {}
        (Example.source Example.markedFile.text) = .ok reports ∧
      (∃ r ∈ reports, r.textLine.toList.count '\t' = 3 ∧ '\n' ∈ r.textLine.toList) ∧
      (lines (Format.render reports .text)).length ≠ reports.length := by
  have hscan := Example.scanSource_treeOf Example.markedFile Example.markedFile.text
  have hmem := Example.mem_scanTree_treeOf (Example.markedFile, "a\tb $\x7b\n1\x7d")
    (List.mem_cons_of_mem _ (List.mem_singleton_self _))
  refine ⟨by decide, _, hscan, ⟨_, hmem, by decide +kernel, by decide +kernel⟩, ?_⟩
  intro hlength
  have hfree := (length_lines_render_iff (Example.unmarked_file_treeOf _)
    fun r hr => showsPath_of_scanSource hscan hr).mp hlength _ hmem
  exact absurd hfree (by decide +kernel)

/-- The reports of a file without marks are records, and the run that lists them prints a line for
each. -/
theorem textLines_loopFile : ∃ reports output,
    scanSource Example.grammar .framework {} (Example.source "//") = .ok reports ∧
    reports ≠ [] ∧ (∀ r ∈ reports, r.IsRecord) ∧
    (Example.listing .text ["FooSpec.kt"]).run Example.sources Example.grammar = .ok output ∧
    (lines output).length = reports.length := by
  obtain ⟨hsource, hrun⟩ := textLines_of_scanSource_and_run Example.grammar
  obtain ⟨reports, hscan, hmem, hfiles⟩ : ∃ reports,
      scanSource Example.grammar .framework {} (Example.source "//") = .ok reports ∧
      Example.reportOf Suite.Example.loopFile "once" ∈ reports ∧ ∀ r ∈ reports, Unmarked r.file :=
    ⟨_, Example.scanSource_treeOf Suite.Example.loopFile "//",
      Example.mem_scanTree_treeOf (Suite.Example.loopFile, "once") List.mem_cons_self,
      Example.unmarked_file_treeOf _⟩
  obtain ⟨tree, htree, hreports⟩ := hsource _ _ _ _ (by decide) hscan
  rw [Example.eq_treeOf htree] at hreports
  have hfree : ∀ r ∈ reports, ∀ s ∈ r.path, Unmarked s.label := by
    intro r hr s hs
    exact Example.unmarked_loopFile ((hreports r hr).2.2 s hs)
  have hfound : Example.setup.reports ["FooSpec.kt"] = .ok reports :=
    Setup.reports_singleton (by decide +kernel) hscan
  obtain ⟨output, houtput, -, hlines⟩ := hrun (Example.listing .text ["FooSpec.kt"])
    Example.sources Example.setup reports rfl rfl hfound hfiles
  refine ⟨reports, output, hscan, List.ne_nil_of_mem hmem, ?_, houtput, hlines.mpr ?_⟩
  · intro r hr
    exact (hreports r hr).2.1.mpr (hfree r hr)
  · intro r hr s hs
    exact hfree r hr s hs '\n' (by decide)

end CommandLine

end SpecOutline
