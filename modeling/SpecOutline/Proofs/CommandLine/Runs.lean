/-
# Runs over several roots

A run collects the sources of all its roots before it scans any of them, and shows nothing before
it has scanned them all.  So a run succeeds exactly if nothing fails below any of its roots
(`Setup.reports_fails_iff`), and the reports of a longer list of roots are those of its parts, one
after the other (`Setup.reports_append_eq_ok_iff`).  As lines, the outputs of the parts follow one
another; as JSON, the arrays do.
-/
import SpecOutline.CommandLine.Listing
import SpecOutline.Proofs.Json.Stored
import SpecOutline.Proofs.Suite.Lowered

namespace SpecOutline.CommandLine

open SpecOutline.Json SpecOutline.Suite

/-! ## 1. Steps that may fail -/

section Steps

variable {α β ε : Type} {f : α → Except ε β}

theorem mapM_append_eq_ok_iff {as bs : List α} {cs : List β} :
    (as ++ bs).mapM f = .ok cs ↔
      ∃ xs ys, as.mapM f = .ok xs ∧ bs.mapM f = .ok ys ∧ cs = xs ++ ys := by
  rw [List.mapM_append]
  constructor
  · intro h
    obtain ⟨xs, hxs, h⟩ := bind_eq_ok h
    obtain ⟨ys, hys, h⟩ := bind_eq_ok h
    exact ⟨xs, ys, hxs, hys, (Except.ok.inj h).symm⟩
  · rintro ⟨xs, ys, hxs, hys, rfl⟩
    rw [hxs, hys]
    rfl

/-- Steps taken one after the other fail exactly if one of them does. -/
theorem mapM_fails_iff {as : List α} :
    (∃ e, as.mapM f = .error e) ↔ ∃ a ∈ as, ∃ e, f a = .error e := by
  induction as with
  | nil => simp [pure, Except.pure]
  | cons a as ih =>
    rw [List.mapM_cons]
    cases ha : f a with
    | error e => simp [bind, Except.bind, ha]
    | ok b =>
      have hrest : (∃ e, as.mapM f = .error e) ↔ ∃ c ∈ a :: as, ∃ e, f c = .error e := by
        simp [ih, ha]
      rw [← hrest]
      cases as.mapM f <;> simp [bind, Except.bind, pure, Except.pure]

end Steps

/-! ## 2. Reports of roots -/

namespace Setup

variable {s : Setup}

/-- Something fails below a root: its sources cannot be collected, or one of them cannot be
scanned. -/
def FailsAt (s : Setup) (root : String) : Prop :=
  (∃ e, s.volume.sourcesAt s.rules root = .error e) ∨
    ∃ sources, s.volume.sourcesAt s.rules root = .ok sources ∧
      ∃ source ∈ sources, ∃ e, scanSource s.grammar s.library s.options source = .error e

/-- **The reports of some roots**: all sources are collected, and then all are scanned. -/
theorem reports_eq_ok_iff {roots : List String} {reports : List Report} :
    s.reports roots = .ok reports ↔ ∃ found scanned,
      roots.mapM (s.volume.sourcesAt s.rules) = .ok found ∧
      found.flatten.mapM (scanSource s.grammar s.library s.options) = .ok scanned ∧
      reports = scanned.flatten := by
  constructor
  · intro h
    obtain ⟨sources, hsources, h⟩ := bind_eq_ok h
    obtain ⟨found, hfound, hflat⟩ := bind_eq_ok hsources
    cases hflat
    obtain ⟨scanned, hscanned, h⟩ := bind_eq_ok h
    exact ⟨found, scanned, hfound, hscanned, (Except.ok.inj h).symm⟩
  · rintro ⟨found, scanned, hfound, hscanned, rfl⟩
    simp only [reports, Volume.collect, scanAll, hfound, hscanned, bind, Except.bind, pure,
      Except.pure]

/-- **The reports of more roots are those of its parts**, one after the other. -/
theorem reports_append_eq_ok_iff {r₁ r₂ : List String} {reports : List Report} :
    s.reports (r₁ ++ r₂) = .ok reports ↔ ∃ rs₁ rs₂,
      s.reports r₁ = .ok rs₁ ∧ s.reports r₂ = .ok rs₂ ∧ reports = rs₁ ++ rs₂ := by
  constructor
  · intro h
    obtain ⟨found, scanned, hfound, hscanned, rfl⟩ := reports_eq_ok_iff.mp h
    obtain ⟨found₁, found₂, hfound₁, hfound₂, rfl⟩ := mapM_append_eq_ok_iff.mp hfound
    rw [List.flatten_append] at hscanned
    obtain ⟨scanned₁, scanned₂, hscanned₁, hscanned₂, rfl⟩ := mapM_append_eq_ok_iff.mp hscanned
    exact ⟨scanned₁.flatten, scanned₂.flatten,
      reports_eq_ok_iff.mpr ⟨found₁, scanned₁, hfound₁, hscanned₁, rfl⟩,
      reports_eq_ok_iff.mpr ⟨found₂, scanned₂, hfound₂, hscanned₂, rfl⟩, List.flatten_append⟩
  · rintro ⟨rs₁, rs₂, h₁, h₂, rfl⟩
    obtain ⟨found₁, scanned₁, hfound₁, hscanned₁, rfl⟩ := reports_eq_ok_iff.mp h₁
    obtain ⟨found₂, scanned₂, hfound₂, hscanned₂, rfl⟩ := reports_eq_ok_iff.mp h₂
    refine reports_eq_ok_iff.mpr ⟨found₁ ++ found₂, scanned₁ ++ scanned₂,
      mapM_append_eq_ok_iff.mpr ⟨_, _, hfound₁, hfound₂, rfl⟩, ?_, List.flatten_append.symm⟩
    rw [List.flatten_append]
    exact mapM_append_eq_ok_iff.mpr ⟨_, _, hscanned₁, hscanned₂, rfl⟩

/-- **The reports of some roots fail exactly if something fails below one of them**, whatever was
found before. -/
theorem reports_fails_iff {roots : List String} :
    (∃ e, s.reports roots = .error e) ↔ ∃ root ∈ roots, s.FailsAt root := by
  cases hfound : roots.mapM (s.volume.sourcesAt s.rules) with
  | error e =>
    obtain ⟨root, hroot, hfails⟩ := mapM_fails_iff.mp ⟨e, hfound⟩
    have hreports : s.reports roots = .error e := by
      simp only [reports, Volume.collect, hfound, bind, Except.bind]
    exact ⟨fun _ => ⟨root, hroot, .inl hfails⟩, fun _ => ⟨e, hreports⟩⟩
  | ok found =>
    have hscan : (∃ e, s.reports roots = .error e) ↔ ∃ e, found.flatten.mapM
        (scanSource s.grammar s.library s.options) = .error e := by
      simp only [reports, Volume.collect, scanAll, hfound, bind, Except.bind, pure, Except.pure]
      cases found.flatten.mapM (scanSource s.grammar s.library s.options) <;> simp
    rw [hscan, mapM_fails_iff]
    constructor
    · rintro ⟨source, hsource, hfails⟩
      obtain ⟨sources, hsources, hmem⟩ := List.mem_flatten.mp hsource
      obtain ⟨root, hroot, hok⟩ := (mem_of_mapM_eq_ok hfound).mp hsources
      exact ⟨root, hroot, .inr ⟨sources, hok, source, hmem, hfails⟩⟩
    · rintro ⟨root, hroot, ⟨e, he⟩ | ⟨sources, hok, source, hmem, hfails⟩⟩
      · -- collecting went well, so this root did not fail
        obtain ⟨e', he'⟩ := mapM_fails_iff.mpr ⟨root, hroot, e, he⟩
        rw [hfound] at he'
        cases he'
      · have hsources := (mem_of_mapM_eq_ok hfound).mpr ⟨root, hroot, hok⟩
        exact ⟨source, List.mem_flatten.mpr ⟨sources, hsources, hmem⟩, hfails⟩

end Setup

/-! ## 3. Outputs -/

/-- As lines, the reports of two lists follow one another. -/
theorem render_text_append (rs₁ rs₂ : List Report) :
    Format.render (rs₁ ++ rs₂) .text = Format.render rs₁ .text ++ Format.render rs₂ .text := by
  simp [Format.render, String.join_append]

/-- An output is an array of JSON values: laid out on lines, and read as such. -/
def IsArray (output : String) (items : List Value) : Prop :=
  output = (Value.array items).pretty ++ "\n" ∧ parse output = .ok (.array items)

theorem isPlain_report (r : Report) : r.toJson.IsPlain := by
  have hpath : (Value.array (r.path.map Segment.toJson)).IsPlain :=
    isPlain_array_map fun s _ => by simp [Segment.toJson, Value.IsPlain, EntriesPlain]
  simpa [Report.toJson, Value.nat, Value.IsPlain, EntriesPlain] using hpath

/-- As JSON, the reports are an array. -/
theorem isArray_render_json (rs : List Report) :
    IsArray (Format.render rs .json) (rs.map Report.toJson) :=
  ⟨rfl, (parse_pretty (isPlain_array_map fun r _ => isPlain_report r)).2⟩

/-! ## 4. Runs -/

variable {a : Arguments} {v : Volume} {g : Grammar}

/-- What a run prints are the reports of its roots. -/
theorem run_eq_ok_iff {output : String} :
    a.run v g = .ok output ↔ ∃ setup reports, a.setup v g = .ok setup ∧
      setup.reports a.paths = .ok reports ∧ output = a.format.render reports := by
  constructor
  · intro h
    obtain ⟨setup, hsetup, h⟩ := bind_eq_ok h
    obtain ⟨reports, hreports, h⟩ := bind_eq_ok h
    exact ⟨setup, reports, hsetup, hreports, (Except.ok.inj h).symm⟩
  · rintro ⟨setup, reports, hsetup, hreports, rfl⟩
    simp only [Arguments.run, hsetup, hreports, bind, Except.bind, pure, Except.pure]

/-- A run fails exactly if its reports do. -/
theorem run_fails_iff {setup : Setup} (hsetup : a.setup v g = .ok setup) :
    (∃ e, a.run v g = .error e) ↔ ∃ e, setup.reports a.paths = .error e := by
  simp only [Arguments.run, hsetup, bind, Except.bind, pure, Except.pure]
  cases setup.reports a.paths <;> simp

/-- **Runs are all or nothing, and compose.**  If a run on some roots and a run on others succeed,
so does the run on both lists together: as lines, it prints the one output and then the other; as
JSON, it prints the two arrays as one.  If something fails below a root, and only then, the run
fails, whatever was found before, and a program whose run fails prints nothing but a message. -/
theorem run_append_and_allOrNothing (a : Arguments) (v : Volume) (g : Grammar) :
    (∀ r₁ r₂ o₁ o₂, { a with paths := r₁ }.run v g = .ok o₁ →
      { a with paths := r₂ }.run v g = .ok o₂ →
      (a.format = .text → { a with paths := r₁ ++ r₂ }.run v g = .ok (o₁ ++ o₂)) ∧
      (a.format = .json → ∃ o vs₁ vs₂, { a with paths := r₁ ++ r₂ }.run v g = .ok o ∧
        IsArray o₁ vs₁ ∧ IsArray o₂ vs₂ ∧ IsArray o (vs₁ ++ vs₂))) ∧
    (∀ setup, a.setup v g = .ok setup →
      ((∃ e, a.run v g = .error e) ↔ ∃ root ∈ a.paths, setup.FailsAt root)) ∧
    (∀ args e, read args = .ok a → a.run v g = .error e →
      execute args v g = { code := 1, output := "", error? := some ("Error: " ++ e.chain) }) := by
  refine ⟨?_, ?_, ?_⟩
  · intro r₁ r₂ o₁ o₂ h₁ h₂
    obtain ⟨setup, rs₁, hsetup, hrs₁, rfl⟩ := run_eq_ok_iff.mp h₁
    obtain ⟨setup₂, rs₂, hsetup₂, hrs₂, rfl⟩ := run_eq_ok_iff.mp h₂
    -- the setup does not depend on the roots
    obtain rfl : setup = setup₂ := Except.ok.inj (hsetup.symm.trans hsetup₂)
    have hrun : { a with paths := r₁ ++ r₂ }.run v g = .ok (a.format.render (rs₁ ++ rs₂)) :=
      run_eq_ok_iff.mpr ⟨setup, rs₁ ++ rs₂, hsetup,
        Setup.reports_append_eq_ok_iff.mpr ⟨rs₁, rs₂, hrs₁, hrs₂, rfl⟩, rfl⟩
    refine ⟨fun hformat => ?_, fun hformat => ?_⟩
    · rw [hrun, hformat, render_text_append]
    · rw [hformat] at hrun ⊢
      refine ⟨_, _, _, hrun, isArray_render_json rs₁, isArray_render_json rs₂, ?_⟩
      rw [← List.map_append]
      exact isArray_render_json (rs₁ ++ rs₂)
  · intro setup hsetup
    rw [run_fails_iff hsetup, Setup.reports_fails_iff]
  · intro args e hread hrun
    simp only [execute, hread, hrun]

namespace Example

/-- A file of tests, a directory with another one, and a file in no known language. -/
def sources : Volume :=
  (Entry.directory [("FooSpec.kt", .file [47, 47]), ("notes.txt", .file []),
    ("more", .directory [("BarSpec.kts", .file [10])])]).volume

/-- A grammar that finds the same tests in every text. -/
def grammar : Grammar := fun _ => some Suite.Example.loopFile

/-- Arguments for a listing of some roots. -/
def listing (format : Format) (roots : List String) : Arguments := { paths := roots, format }

/-- Runs on the file, on the directory, in either form succeed. -/
theorem exists_run_eq_ok : ∀ format ∈ [Format.text, .json], ∀ root ∈ ["FooSpec.kt", "more"],
    ∃ o, (listing format [root]).run sources grammar = .ok o := by
  have hok : ∀ format ∈ [Format.text, .json], ∀ root ∈ ["FooSpec.kt", "more"],
      ((listing format [root]).run sources grammar).isOk = true := by decide +kernel
  intro format hformat root hroot
  have h := hok format hformat root hroot
  cases hrun : (listing format [root]).run sources grammar with
  | ok o => exact ⟨o, rfl⟩
  | error e =>
    rw [hrun] at h
    cases h

/-- What these runs look things up in. -/
def setup : Setup where
  volume := sources
  grammar := grammar
  rules := Settings.walkRules {}
  library := .framework
  options := {}

/-- The file in no known language is read, but it cannot be scanned. -/
theorem failsAt_notes : setup.FailsAt "notes.txt" :=
  .inr ⟨[⟨"notes.txt", "notes.txt", ""⟩], by decide +kernel, _, List.mem_singleton_self _,
    .inContext "notes.txt" (.source (.unsupportedLanguage .unknown)), by decide +kernel⟩

end Example

/-- The outputs for the file and for the directory follow one another, in either form; with the file
that cannot be scanned nothing is printed. -/
theorem run_append_fileAndDirectory :
    (∃ o₁ o₂, (Example.listing .text ["FooSpec.kt"]).run Example.sources Example.grammar = .ok o₁ ∧
      (Example.listing .text ["more"]).run Example.sources Example.grammar = .ok o₂ ∧
      (Example.listing .text ["FooSpec.kt", "more"]).run Example.sources Example.grammar =
        .ok (o₁ ++ o₂)) ∧
    (∃ o vs₁ vs₂, (Example.listing .json ["FooSpec.kt", "more"]).run Example.sources
        Example.grammar = .ok o ∧ IsArray o (vs₁ ++ vs₂)) ∧
    ∃ message, execute ["FooSpec.kt", "notes.txt"] Example.sources Example.grammar =
      { code := 1, output := "", error? := some message } := by
  have hruns := fun format roots =>
    run_append_and_allOrNothing (Example.listing format roots) Example.sources Example.grammar
  obtain ⟨o₁, h₁⟩ := Example.exists_run_eq_ok .text (by simp) "FooSpec.kt" (by simp)
  obtain ⟨o₂, h₂⟩ := Example.exists_run_eq_ok .text (by simp) "more" (by simp)
  obtain ⟨p₁, hp₁⟩ := Example.exists_run_eq_ok .json (by simp) "FooSpec.kt" (by simp)
  obtain ⟨p₂, hp₂⟩ := Example.exists_run_eq_ok .json (by simp) "more" (by simp)
  obtain ⟨o, vs₁, vs₂, ho, -, -, harray⟩ :=
    ((hruns .json []).1 ["FooSpec.kt"] ["more"] p₁ p₂ hp₁ hp₂).2 rfl
  refine ⟨⟨o₁, o₂, h₁, h₂, ?_⟩, ⟨o, vs₁, vs₂, ho, harray⟩, ?_⟩
  · exact ((hruns .text []).1 ["FooSpec.kt"] ["more"] o₁ o₂ h₁ h₂).1 rfl
  · obtain ⟨-, hfails, hexecute⟩ := hruns .text ["FooSpec.kt", "notes.txt"]
    obtain ⟨e, he⟩ := (hfails Example.setup rfl).mpr
      ⟨"notes.txt", by simp [Example.listing], Example.failsAt_notes⟩
    exact ⟨_, hexecute ["FooSpec.kt", "notes.txt"] e rfl he⟩

end SpecOutline.CommandLine
