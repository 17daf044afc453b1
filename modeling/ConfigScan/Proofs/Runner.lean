/-
Module: ConfigScan.Proofs.Runner
Purpose: A run over a list of files takes them one by one: its findings are those about the files
  that the family accepts, in path order, each file once.
Main exports: Runner.plainFindings, Runner.FileByFile, Runner.fileByFile
-/
import ConfigScan.Proofs.LoadedFiles
import ConfigScan.Runner

namespace ConfigScan

/-- The finding without what it says about the pipeline of the run. -/
def Finding.withoutPipeline (finding : Finding) : Finding := { finding with pipeline := none }

/-- The result comes from a check that has an id. -/
def RawResult.isNamed (result : RawResult) : Bool := result.check.any (·.id != "")

namespace FindingContext

variable {σ : Type} (context : FindingContext σ) (path : Path) (key : String) (result : RawResult)
  (lines : List RawLine)

/-- A result of a check with an id gives a finding, and no other one does. -/
theorem isSome_build? : (context.build? path key result lines).isSome = result.isNamed := by
  rw [build?, RawResult.isNamed]
  cases result.check with
  | none => rfl
  | some check =>
      by_cases named : check.id = "" <;> simp [named]

/-- The pipeline of the run shows in the pipeline of a finding only. -/
theorem build?_withoutPipeline (pipeline : Option Pipeline) :
    ({ context with pipeline }.build? path key result lines).map Finding.withoutPipeline =
      (context.build? path key result lines).map Finding.withoutPipeline := by
  rw [build?, build?]
  cases result.check with
  | none => rfl
  | some check =>
      by_cases named : check.id = ""
      · simp [named]
      · simp [named, Finding.withoutPipeline, location]

end FindingContext

namespace Runner

variable {σ : Type} (runner : Runner σ) (fs : FileSystem) (external : List Path)
  (filter : ScanFilter) (checks : σ)

/-- What a run without a root finds, but for what its findings say about the pipeline. -/
def plainFindings (files : List Path) : Except ScanError (List Finding) :=
  (runner.run fs none external files filter).map fun report =>
    report.findings.map Finding.withoutPipeline

/-- What the registry reports about a file. -/
def rawResults (path : Path) : List RawResult :=
  match runner.family.parseFile path with
  | none => []
  | some file =>
      (runner.family.registry.scan checks path file.document (runner.collect file.lines)
        filter).map Prod.snd

/-- What is the same for all findings of a run without a root. -/
def rootless (pipeline : Option Pipeline) : FindingContext σ :=
  { family := runner.family
    currentDir := fs.currentDir
    root := none
    display := runner.display
    pipeline }

/-- The run lacks the external checks that its family needs. -/
def isIdle : Bool := external.isEmpty && runner.family.requiresExternalChecks

/-- The findings about one file, but for what they say about the pipeline. -/
def findingsAbout (path : Path) : List Finding :=
  if runner.isIdle external then []
  else
    match runner.family.parseFile path with
    | none => []
    | some file =>
        (runner.findingsOf checks (runner.rootless fs none) filter path file).map
          Finding.withoutPipeline

variable {external checks}

/-- With its external checks taken in, a run gives a report on all files that it reads. -/
theorem run_of_loaded (loaded : runner.family.registry.loadAll external = .ok checks)
    (files : List Path) :
    runner.run fs none external files filter =
      .ok
        { checkType := runner.family.checkType
          findings :=
            if runner.isIdle external then []
            else
              (LoadedFiles.load runner.family files).files.flatMap fun (path, file) =>
                runner.findingsOf checks
                  (runner.rootless fs (LoadedFiles.load runner.family files).pipeline)
                  filter path file } := by
  rw [run, isIdle]
  by_cases idle : (external.isEmpty && runner.family.requiresExternalChecks) = true
  · simp [idle]
  · cases files with
    | nil => simp [idle, LoadedFiles.load, LoadedFiles.putAll]
    | cons path rest =>
        simp only [Option.isNone_none, List.isEmpty_cons, Bool.and_false, Bool.false_eq_true,
          if_false, if_neg idle, loaded, load]
        rfl

theorem findingsOf_withoutPipeline (pipeline : Option Pipeline) (path : Path) (file : ParsedFile) :
    (runner.findingsOf checks (runner.rootless fs pipeline) filter path file).map
        Finding.withoutPipeline =
      (runner.findingsOf checks (runner.rootless fs none) filter path file).map
        Finding.withoutPipeline := by
  rw [findingsOf, findingsOf, List.map_filterMap, List.map_filterMap]
  apply List.filterMap_congr
  rintro ⟨key, result⟩ _
  exact (runner.rootless fs none).build?_withoutPipeline path key result file.lines pipeline

/-- A run finds what there is about each file that the family accepts, in path order. -/
theorem plainFindings_of_accepts (reads : runner.family.ReadsByPath)
    (loaded : runner.family.registry.loadAll external = .ok checks) {files paths : List Path}
    (accepts : runner.family.Accepts files paths) :
    runner.plainFindings fs external filter files =
      .ok (paths.flatMap (runner.findingsAbout fs external filter checks)) := by
  rw [plainFindings, runner.run_of_loaded fs filter loaded, LoadedFiles.files_load reads accepts,
    Except.map]
  by_cases idle : runner.isIdle external = true
  · simp [findingsAbout, idle]
  · rw [if_neg idle, List.map_flatMap, List.filterMap_eq_flatMap_toList, List.flatMap_assoc]
    congr 2
    funext path
    rw [findingsAbout, if_neg idle]
    cases runner.family.parseFile path with
    | none => rfl
    | some file =>
        simp only [Option.map_some, Option.toList_some, List.flatMap_singleton]
        exact runner.findingsOf_withoutPipeline fs filter _ path file

/-- About a file there are as many findings as results with a named check. -/
theorem length_findingsAbout (busy : runner.isIdle external = false) (path : Path) :
    (runner.findingsAbout fs external filter checks path).length =
      (runner.rawResults filter checks path).countP RawResult.isNamed := by
  rw [findingsAbout, rawResults, if_neg (by simp [busy])]
  cases runner.family.parseFile path with
  | none => rfl
  | some file =>
      simp only [List.length_map, findingsOf, List.length_filterMap_eq_countP, List.countP_map]
      apply List.countP_congr
      rintro ⟨key, result⟩ _
      simp [FindingContext.isSome_build?]

variable (external checks)

/-- Runs without a root take their files one by one, where `about` tells what there is to find in
    each of them. -/
structure FileByFile (about : Path → List Finding) : Prop where
  /-- A run over one file finds what there is about it. -/
  single : ∀ path, runner.plainFindings fs external filter [path] = .ok (about path)
  /-- Every list of files has paths that the family accepts, and a run over the list finds what
      there is about each of them, in path order. -/
  whole : ∀ files, ∃ paths, runner.family.Accepts files paths ∧
    runner.plainFindings fs external filter files = .ok (paths.flatMap about)
  /-- A run over two lists merges the files of both by path. A file of both counts once, as the
      first list spells it. -/
  merged : ∀ files later paths laterPaths, runner.family.Accepts files paths →
    runner.family.Accepts later laterPaths →
      runner.plainFindings fs external filter files = .ok (paths.flatMap about) ∧
        runner.plainFindings fs external filter later = .ok (laterPaths.flatMap about) ∧
        runner.plainFindings fs external filter (files ++ later) =
          .ok ((Path.merge paths laterPaths).flatMap about)
  /-- A file that the family rejects changes nothing in the report. -/
  rejected : ∀ front back path, runner.family.parseFile path = none →
    runner.run fs none external (front ++ path :: back) filter =
      runner.run fs none external (front ++ back) filter
  /-- A path that comes again changes nothing in the report. -/
  repeated : ∀ front back path, (∃ other ∈ front, other.same path = true) →
    runner.run fs none external (front ++ path :: back) filter =
      runner.run fs none external (front ++ back) filter
  /-- The order of the files does not count when equal paths are spelled alike. -/
  permuted : ∀ files others, files.Perm others →
    (∀ path ∈ files, ∀ other ∈ files, path.same other = true → path = other) →
      runner.plainFindings fs external filter files =
        runner.plainFindings fs external filter others
  /-- Every result with a named check on an accepted file gives one finding. -/
  counted : (external = [] → runner.family.requiresExternalChecks = false) →
    ∀ files paths, runner.family.Accepts files paths →
      ∃ report, runner.run fs none external files filter = .ok report ∧
        report.findings.length =
          (paths.flatMap (runner.rawResults filter checks)).countP RawResult.isNamed

/-- A run without a root is the merge of its files. -/
theorem fileByFile (reads : runner.family.ReadsByPath)
    (loaded : runner.family.registry.loadAll external = .ok checks) :
    ∃ about, runner.FileByFile fs external filter checks about := by
  have found : ∀ {files paths}, runner.family.Accepts files paths →
      runner.plainFindings fs external filter files =
        .ok (paths.flatMap (runner.findingsAbout fs external filter checks)) :=
    fun accepts => runner.plainFindings_of_accepts fs filter reads loaded accepts
  refine ⟨runner.findingsAbout fs external filter checks, ?_⟩
  constructor
  case single =>
    intro path
    rw [found (Family.Accepts.singleton runner.family path)]
    cases read : runner.family.parseFile path with
    | none => simp [findingsAbout, read]
    | some file => simp
  case whole =>
    intro files
    obtain ⟨paths, accepts⟩ := Family.Accepts.exists_of_files reads files
    exact ⟨paths, accepts, found accepts⟩
  case merged =>
    intro files later paths laterPaths accepts laterAccepts
    exact ⟨found accepts, found laterAccepts, found (accepts.append reads laterAccepts)⟩
  case rejected =>
    intro front back path rejected
    rw [runner.run_of_loaded fs filter loaded, runner.run_of_loaded fs filter loaded,
      LoadedFiles.load_of_rejected rejected]
  case repeated =>
    intro front back path repeated
    rw [runner.run_of_loaded fs filter loaded, runner.run_of_loaded fs filter loaded,
      LoadedFiles.load_of_repeated reads repeated]
  case permuted =>
    intro files others permuted alike
    obtain ⟨paths, accepts⟩ := Family.Accepts.exists_of_files reads files
    rw [found accepts, found (accepts.perm permuted alike)]
  case counted =>
    intro needsNone files paths accepts
    have busy : runner.isIdle external = false := by
      rw [isIdle]
      cases external with
      | nil => exact needsNone rfl
      | cons directory rest => rfl
    refine ⟨_, runner.run_of_loaded fs filter loaded files, ?_⟩
    have plain := found accepts
    rw [plainFindings, runner.run_of_loaded fs filter loaded, Except.map] at plain
    have lengths := congrArg List.length (Except.ok.inj plain)
    rw [List.length_map, List.length_flatMap] at lengths
    rw [lengths, List.countP_flatMap]
    congr 2
    funext path
    exact runner.length_findingsAbout fs filter busy path

/-- A family of all files with one extension, and a registry that reports a named check and one
    without an id about each of them. Of four files in a run one comes twice and one is no document,
    so there are two findings. -/
theorem fileByFile_yml :
    let runner : Runner Unit :=
      { family :=
          { checkType := .githubActions
            registry :=
              { initial := ()
                load := fun state _ => .ok state
                scan := fun _ path document _ _ =>
                  [(path.text,
                      { check := some { id := "X", name := "x" }
                        configuration := some document
                        outcome := .failed }),
                    (path.text, { check := some { id := "", name := "y" }, outcome := .passed })] }
            parseFile := fun path =>
              if path.hasExtension ["yml"] then
                some { document := .map [(.str "a", .int 1)], lines := RawLine.ofText "a: 1\n" }
              else none } }
    runner.family.ReadsByPath ∧ runner.family.registry.loadAll [⟨"checks"⟩] = .ok () ∧
      ∃ about,
        runner.FileByFile { root := .folder [], currentDir := ⟨"/"⟩ } [⟨"checks"⟩] {} () about ∧
        runner.plainFindings { root := .folder [], currentDir := ⟨"/"⟩ } [⟨"checks"⟩] {}
            [⟨"d/b.yml"⟩, ⟨"c.txt"⟩, ⟨"a.yml"⟩, ⟨"d//b.yml"⟩] =
          .ok (about ⟨"a.yml"⟩ ++ about ⟨"d/b.yml"⟩) ∧
        (about ⟨"a.yml"⟩).map (fun finding => (finding.checkId, finding.filePath)) =
          [("X", "/a.yml")] ∧
        (about ⟨"d/b.yml"⟩).map (fun finding => (finding.checkId, finding.filePath)) =
          [("X", "/d/b.yml")] ∧
        about ⟨"c.txt"⟩ = [] := by
  intro runner
  have reads : runner.family.ReadsByPath := by
    intro path other same
    have components := Path.same_iff_components.mp same
    have extension : path.hasExtension ["yml"] = other.hasExtension ["yml"] := by
      rw [Path.hasExtension, Path.hasExtension, Path.extension?, Path.extension?, Path.name?,
        Path.name?, components]
    simp only [runner, extension]
  have loaded : runner.family.registry.loadAll [⟨"checks"⟩] = .ok () := rfl
  obtain ⟨about, byFile⟩ :=
    runner.fileByFile { root := .folder [], currentDir := ⟨"/"⟩ } [⟨"checks"⟩] {} () reads loaded
  have a := Except.ok.inj (byFile.single ⟨"a.yml"⟩)
  have b := Except.ok.inj (byFile.single ⟨"d/b.yml"⟩)
  have c := Except.ok.inj (byFile.single ⟨"c.txt"⟩)
  refine ⟨reads, loaded, about, byFile, ?_⟩
  rw [← a, ← b, ← c]
  exact ⟨by decide +kernel, by decide +kernel, by decide +kernel, by decide +kernel⟩

end Runner

end ConfigScan
