/-
Module: ConfigScan.Proofs.Runner.OnePipeline
Purpose: All findings of a run over pipelines are about one pipeline: that of the first document
  found below the root, or else of the first one among the files given.
Main exports: Family.FirstAccepted, Runner.DefinesPipeline, Runner.findings_of_one_pipeline
-/
import ConfigScan.Family.GithubActions
import ConfigScan.Proofs.Runner.Scanned

namespace ConfigScan

variable {σ : Type}

namespace Family

variable {family : Family σ} {paths : List Path} {path : Path} {file : ParsedFile}

/-- The first file of the paths that the family accepts. -/
def FirstAccepted (family : Family σ) (paths : List Path) (file : ParsedFile) : Prop :=
  ∃ front path back, paths = front ++ path :: back ∧
    (∀ other ∈ front, family.parseFile other = none) ∧ family.parseFile path = some file

/-- Where any file is accepted one is so first. -/
theorem exists_firstAccepted (member : path ∈ paths)
    (accepted : (family.parseFile path).isSome = true) :
    ∃ file, family.FirstAccepted paths file := by
  induction paths with
  | nil => cases member
  | cons head rest inductionHypothesis =>
      cases read : family.parseFile head with
      | some file => exact ⟨file, [], head, rest, rfl, by simp, read⟩
      | none =>
          have later : path ∈ rest := by
            rcases List.mem_cons.mp member with isHead | later
            · rw [isHead, read] at accepted
              cases accepted
            · exact later
          obtain ⟨file, front, first, back, split, rejected, isFirst⟩ := inductionHypothesis later
          refine ⟨file, head :: front, first, back, by rw [split]; rfl, ?_, isFirst⟩
          intro other inFront
          rcases List.mem_cons.mp inFront with isHead | further
          · rw [isHead, read]
          · exact rejected other further

end Family

namespace LoadedFiles

variable {family : Family σ} {paths : List Path} {file : ParsedFile}

/-- Files that the family rejects change nothing in front of others. -/
theorem load_append_of_rejected (rejected : ∀ path ∈ paths, family.parseFile path = none)
    (back : List Path) : load family (paths ++ back) = load family back := by
  induction paths with
  | nil => rfl
  | cons path rest inductionHypothesis =>
      obtain ⟨isRejected, restRejected⟩ := List.forall_mem_cons.mp rejected
      have leftOut : load family ([] ++ path :: (rest ++ back)) =
          load family ([] ++ (rest ++ back)) := load_of_rejected isRejected
      exact leftOut.trans (inductionHypothesis restRejected)

/-- A load of pipelines takes over the one of the first file accepted. -/
theorem pipeline_load_of_first (isPipeline : family.checkType.isPipeline = true)
    (first : family.FirstAccepted paths file) :
    (load family paths).pipeline = some (Pipeline.ofDocument file.document) := by
  obtain ⟨front, path, back, rfl, rejected, accepted⟩ := first
  rw [load_append_of_rejected rejected, load, if_pos isPipeline]
  simp [accepted]

theorem pipeline_load_of_rejected (rejected : ∀ path ∈ paths, family.parseFile path = none) :
    (load family paths).pipeline = none := by
  rw [← List.append_nil paths, load_append_of_rejected rejected, load]
  simp

end LoadedFiles

/-- A finding of a pipeline family is about the pipeline of its run, and no other one is about a
    pipeline. -/
theorem FindingContext.pipeline_of_build? {context : FindingContext σ} {path : Path} {key : String}
    {result : RawResult} {lines : List RawLine} {finding : Finding}
    (built : context.build? path key result lines = some finding) :
    finding.pipeline =
      if context.family.checkType.isPipeline then some (context.pipeline.getD {}) else none := by
  rw [build?] at built
  split at built
  · cases built
  · next check _ =>
    split at built
    · cases built
    · rw [← Option.some.inj built]

namespace Runner

variable {runner : Runner σ} {fs : FileSystem} {root : Option Path} {external files : List Path}
  {filter : ScanFilter} {report : Report}

/-- The file that says what the pipeline of a run is: the first one accepted below the root, and
    where none is, the first one accepted of those given. -/
def DefinesPipeline (runner : Runner σ) (fs : FileSystem) (root : Option Path) (files : List Path)
    (filter : ScanFilter) (file : ParsedFile) : Prop :=
  runner.family.FirstAccepted (runner.walked fs root filter) file ∨
    (∀ path ∈ runner.walked fs root filter, runner.family.parseFile path = none) ∧
      runner.family.FirstAccepted files file

/-- The pipeline that a load takes over is that of the defining file. -/
theorem pipeline_of_load {loaded : LoadedFiles} {file : ParsedFile}
    (isPipeline : runner.family.checkType.isPipeline = true)
    (read : runner.load fs root files filter = .ok loaded)
    (defines : runner.DefinesPipeline fs root files filter file) :
    loaded.pipeline = some (Pipeline.ofDocument file.document) := by
  rw [load_eq_ok read, LoadedFiles.merge]
  rcases defines with found | ⟨noneFound, given⟩
  · rw [LoadedFiles.pipeline_load_of_first isPipeline found]
    rfl
  · rw [LoadedFiles.pipeline_load_of_rejected noneFound,
      LoadedFiles.pipeline_load_of_first isPipeline given]
    rfl

/-- Among paths with an accepted one there is a file that defines the pipeline. -/
theorem exists_definesPipeline {path : Path}
    (member : path ∈ files ++ runner.walked fs root filter)
    (accepted : (runner.family.parseFile path).isSome = true) :
    ∃ file, runner.DefinesPipeline fs root files filter file := by
  by_cases anyFound : ∃ other ∈ runner.walked fs root filter,
      (runner.family.parseFile other).isSome = true
  · obtain ⟨other, otherMember, otherAccepted⟩ := anyFound
    obtain ⟨file, first⟩ := Family.exists_firstAccepted otherMember otherAccepted
    exact ⟨file, Or.inl first⟩
  · have noneFound : ∀ other ∈ runner.walked fs root filter,
        runner.family.parseFile other = none := by
      intro other otherMember
      by_contra isRead
      exact anyFound ⟨other, otherMember, Option.isSome_iff_ne_none.mpr isRead⟩
    have given : path ∈ files := by
      refine (List.mem_append.mp member).resolve_right fun found => ?_
      rw [noneFound path found] at accepted
      cases accepted
    obtain ⟨file, first⟩ := Family.exists_firstAccepted given accepted
    exact ⟨file, Or.inr ⟨noneFound, first⟩⟩

/-- Every finding is one about a file scanned. -/
theorem exists_scanned_of_finding {checks : σ} {finding : Finding}
    (member : finding ∈ runner.allFindings fs root external files filter checks) :
    (∃ entry, entry ∈ (runner.scanned fs root external files filter).files) ∧
      finding.pipeline =
        if runner.family.checkType.isPipeline then
          some ((runner.scanned fs root external files filter).pipeline.getD {})
        else none := by
  obtain ⟨⟨path, file⟩, isScanned, about⟩ := List.mem_flatMap.mp member
  obtain ⟨⟨key, result⟩, _, built⟩ := List.mem_filterMap.mp about
  exact ⟨⟨_, isScanned⟩, FindingContext.pipeline_of_build? built⟩

/-- All findings of a run over pipelines are about the pipeline of one file: the first one accepted,
    in path order, of those found below the root, and where there is none, the first one accepted of
    those given, in the order in which they are given. The findings of other runs are about none. -/
theorem findings_of_one_pipeline
    (succeeds : runner.run fs root external files filter = .ok report) :
    (runner.family.checkType.isPipeline = false →
        ∀ finding ∈ report.findings, finding.pipeline = none) ∧
      (runner.family.checkType.isPipeline = true →
        (report.findings ≠ [] → ∃ file, runner.DefinesPipeline fs root files filter file) ∧
          ∀ file, runner.DefinesPipeline fs root files filter file →
            ∀ finding ∈ report.findings,
              finding.pipeline = some (Pipeline.ofDocument file.document)) ∧
      (fs.root.isProper = true → Path.InOrder (runner.walked fs root filter)) := by
  obtain ⟨checks, looked, findings⟩ := findings_of_run succeeds
  rw [findings]
  refine ⟨?_, ?_, inOrder_walked⟩
  · intro noPipeline finding member
    obtain ⟨_, about⟩ := exists_scanned_of_finding member
    rw [about, noPipeline, if_neg Bool.false_ne_true]
  · intro isPipeline
    have looks : ∀ finding ∈ runner.allFindings fs root external files filter checks,
        runner.looksAtNothing root external files = false := by
      intro finding member
      obtain ⟨⟨entry, isScanned⟩, _⟩ := exists_scanned_of_finding member
      by_contra nothing
      rw [scanned, if_pos (Bool.not_eq_false _ ▸ nothing)] at isScanned
      cases isScanned
    constructor
    · intro some
      obtain ⟨finding, member⟩ := List.exists_mem_of_ne_nil _ some
      obtain ⟨⟨entry, isScanned⟩, _⟩ := exists_scanned_of_finding member
      obtain ⟨isCandidate, accepted⟩ :=
        List.mem_filter.mp ((covers_scanned succeeds).given entry isScanned)
      rw [candidates, looks finding member, if_neg Bool.false_ne_true] at isCandidate
      exact exists_definesPipeline isCandidate accepted
    · intro file defines finding member
      obtain ⟨_, about⟩ := exists_scanned_of_finding member
      obtain ⟨_, read⟩ := looked (looks finding member)
      rw [about, if_pos isPipeline, pipeline_of_load isPipeline read defines, Option.getD_some]

/-- A workflow below the root, and two files given, of which the first one has no jobs: the findings
    about the second one, too, are about the pipeline found below the root. -/
theorem findings_of_one_pipeline_below_root :
    let workflows (files : List (String × String)) : Entry :=
      .folder [(".github", .folder [("workflows", .folder
        (files.map fun (name, content) => (↑name, .text content)))])]
    let fs : FileSystem :=
      { root := .folder
          [("r", workflows [("z.yml", "name: z\njobs:\n")]),
            ("s", workflows [("no.yml", "name: no\n"), ("a.yml", "name: a\njobs:\n")])]
        currentDir := ⟨"/"⟩ }
    let runner : Runner Unit :=
      { family := .githubActions
          { initial := ()
            load := fun state _ => .ok state
            scan := fun _ _ _ _ _ =>
              [("whole", { check := some { id := "X", name := "x" }, outcome := .failed })] } fs }
    let files : List Path := [⟨"s/.github/workflows/no.yml"⟩, ⟨"s/.github/workflows/a.yml"⟩]
    ∃ report, runner.run fs (some ⟨"r"⟩) [] files {} = .ok report ∧ report.findings.length = 2 ∧
      ∀ finding ∈ report.findings, finding.pipeline.bind Pipeline.name = some "z" := by
  intro workflows fs runner files
  have counted : (runner.run fs (some ⟨"r"⟩) [] files {}).toOption.map
      (fun report => report.findings.length) = some 2 := by decide +kernel
  obtain ⟨report, isReport, isTwo⟩ := Option.map_eq_some_iff.mp counted
  have succeeds : runner.run fs (some ⟨"r"⟩) [] files {} = .ok report :=
    eq_ok_of_toOption isReport
  have named : (runner.family.parseFile ⟨"r/.github/workflows/z.yml"⟩).map
      (fun file => (Pipeline.ofDocument file.document).name) = some (some "z") := by
    decide +kernel
  obtain ⟨file, read, isName⟩ := Option.map_eq_some_iff.mp named
  have walks : runner.walked fs (some ⟨"r"⟩) {} = [⟨"r/.github/workflows/z.yml"⟩] := by
    decide +kernel
  have defines : runner.DefinesPipeline fs (some ⟨"r"⟩) files {} file :=
    Or.inl ⟨[], _, [], walks, by simp, read⟩
  obtain ⟨_, ofPipeline, _⟩ := findings_of_one_pipeline succeeds
  obtain ⟨_, same⟩ := ofPipeline rfl
  refine ⟨report, succeeds, isTwo, fun finding member => ?_⟩
  rw [same file defines finding member]
  exact isName

end Runner

end ConfigScan
