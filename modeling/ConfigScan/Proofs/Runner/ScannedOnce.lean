/-
Module: ConfigScan.Proofs.Runner.ScannedOnce
Purpose: When a run scans a file twice. It does so exactly when an accepted file is given in two
  spellings that are different as paths, though they have one absolute path.
Main exports: LoadedFiles.Apart, Runner.scansOnce_iff
-/
import ConfigScan.Family.GithubActions
import ConfigScan.Proofs.Path.Absolute
import ConfigScan.Proofs.Runner.Scanned

namespace ConfigScan

/-- No two of the files have one absolute path. -/
def LoadedFiles.Apart (currentDir : Path) (files : List (Path × ParsedFile)) : Prop :=
  files.Pairwise fun entry later =>
    (Path.absolute currentDir entry.1).same (Path.absolute currentDir later.1) = false

/-- Files that are the given paths, each path once, are apart exactly when no path respells another
    one. -/
theorem LoadedFiles.Covers.apart_iff {currentDir : Path} {paths : List Path}
    {all : List (Path × ParsedFile)} (rooted : currentDir.isAbsolute = true)
    (covers : Covers paths all) :
    Apart currentDir all ↔
      ∀ path ∈ paths, ∀ other ∈ paths, ¬ Path.Respells currentDir path other := by
  constructor
  · intro apart path member other otherMember respells
    obtain ⟨entry, isEntry, same⟩ := covers.met path member
    obtain ⟨later, isLater, laterSame⟩ := covers.met other otherMember
    obtain ⟨sameAbsolute, different⟩ := respells.same_absolute rooted
    have keysDiffer : entry ≠ later := by
      rintro rfl
      have samePath : path.same other = true :=
        Path.same_iff.mpr ((Path.same_iff.mp same).symm.trans (Path.same_iff.mp laterSame))
      rw [different] at samePath
      cases samePath
    have together : (Path.absolute currentDir entry.1).same (Path.absolute currentDir later.1) =
        true := by
      have keyOfPath := Path.same_iff.mp (Path.same_absolute_of_same rooted same)
      have keyOfOther := Path.same_iff.mp (Path.same_absolute_of_same rooted laterSame)
      exact Path.same_iff.mpr
        ((keyOfPath.trans (Path.same_iff.mp sameAbsolute)).trans keyOfOther.symm)
    have symmetric : Std.Symm fun entry later : Path × ParsedFile =>
        (Path.absolute currentDir entry.1).same (Path.absolute currentDir later.1) = false :=
      ⟨fun _ _ different => by rw [Path.same_comm, different]⟩
    rw [apart.forall isEntry isLater keysDiffer] at together
    cases together
  · intro unique
    refine covers.sorted.imp_of_mem ?_
    intro entry later isEntry isLater before
    have member := covers.given entry isEntry
    have laterMember := covers.given later isLater
    rw [Bool.eq_false_iff, Ne, Path.same_absolute_iff rooted]
    rintro (same | respells | respells)
    · exact Path.not_lt_of_same same before
    · exact unique _ member _ laterMember respells
    · exact unique _ laterMember _ member respells

namespace Runner

variable {σ : Type} {runner : Runner σ} {fs : FileSystem} {root : Option Path}
  {external files : List Path} {filter : ScanFilter} {report : Report}

/-- The findings of a run are those about the files that it scans, and these are all that the family
    accepts of the files given and of those found below the root. None of them is scanned twice
    exactly when no accepted one is given with and without a leading dot, or as a relative and as an
    absolute path. -/
theorem scansOnce_iff (rooted : fs.currentDir.isAbsolute = true)
    (succeeds : runner.run fs root external files filter = .ok report) :
    (∃ checks, report.findings = runner.allFindings fs root external files filter checks) ∧
      (∀ path ∈ runner.candidates fs root external files filter,
        (runner.family.parseFile path).isSome = true →
          ∃ entry ∈ (runner.scanned fs root external files filter).files,
            entry.1.same path = true) ∧
      (LoadedFiles.Apart fs.currentDir (runner.scanned fs root external files filter).files ↔
        ∀ path ∈ runner.candidates fs root external files filter,
          ∀ other ∈ runner.candidates fs root external files filter,
            (runner.family.parseFile path).isSome = true →
              (runner.family.parseFile other).isSome = true →
                ¬ Path.Respells fs.currentDir path other) := by
  have covers := covers_scanned succeeds
  obtain ⟨checks, _, findings⟩ := findings_of_run succeeds
  refine ⟨⟨checks, findings⟩, ?_, ?_⟩
  · intro path member accepted
    exact covers.met path (List.mem_filter.mpr ⟨member, accepted⟩)
  · rw [covers.apart_iff rooted]
    simp only [List.mem_filter]
    constructor
    · intro unique path member other otherMember accepted otherAccepted
      exact unique path ⟨member, accepted⟩ other ⟨otherMember, otherAccepted⟩
    · rintro unique path ⟨member, accepted⟩ other ⟨otherMember, otherAccepted⟩
      exact unique path member other otherMember accepted otherAccepted

/-- A workflow that is found below the root and given with a leading dot, too. -/
theorem scansOnce_iff_dotted_file :
    let fs : FileSystem :=
      { root := .folder [("w", .folder [("r", .folder [(".github", .folder [("workflows", .folder
          [("ci.yml", .text "jobs:\n")])])])])]
        currentDir := ⟨"/w"⟩ }
    let runner : Runner Unit :=
      { family := .githubActions
          { initial := (), load := fun state _ => .ok state, scan := fun _ _ _ _ _ => [] } fs }
    let files : List Path := [⟨"./r/.github/workflows/ci.yml"⟩]
    fs.currentDir.isAbsolute = true ∧
      ∃ report, runner.run fs (some ⟨"r"⟩) [] files {} = .ok report ∧
        ¬ LoadedFiles.Apart fs.currentDir (runner.scanned fs (some ⟨"r"⟩) [] files {}).files := by
  intro fs runner files
  have rooted : fs.currentDir.isAbsolute = true := by decide
  obtain ⟨report, succeeds⟩ : ∃ report, runner.run fs (some ⟨"r"⟩) [] files {} = .ok report := by
    cases outcome : runner.run fs (some ⟨"r"⟩) [] files {} with
    | ok report => exact ⟨report, rfl⟩
    | error cause =>
        have isOk : (runner.run fs (some ⟨"r"⟩) [] files {}).isOk = true := by decide +kernel
        rw [outcome] at isOk
        cases isOk
  obtain ⟨_, _, apart_iff⟩ := scansOnce_iff rooted succeeds
  have isDotted : (⟨"./r/.github/workflows/ci.yml"⟩ : Path).components =
      .current :: (⟨"r/.github/workflows/ci.yml"⟩ : Path).components := by decide +kernel
  refine ⟨rooted, report, succeeds, fun apart => apart_iff.mp apart
    ⟨"./r/.github/workflows/ci.yml"⟩ ?_ ⟨"r/.github/workflows/ci.yml"⟩ ?_ ?_ ?_
    (.dotted (by decide) isDotted)⟩
  all_goals decide +kernel

/-- A workflow in the current directory that is given and found below the root `.`, too: what there
    is to find in it is found twice. -/
theorem found_twice_of_dotted_root :
    let fs : FileSystem :=
      { root := .folder [("w", .folder [(".github", .folder [("workflows", .folder
          [("ci.yml", .text "jobs:\n")])])])]
        currentDir := ⟨"/w"⟩ }
    let runner : Runner Unit :=
      { family := .githubActions
          { initial := ()
            load := fun state _ => .ok state
            scan := fun _ _ _ _ _ =>
              [("whole", { check := some { id := "X", name := "x" }, outcome := .failed })] } fs }
    (runner.run fs (some ⟨"."⟩) [] [⟨".github/workflows/ci.yml"⟩] {}).toOption.map
        (fun report => report.findings.map Finding.absolutePath) =
      some [⟨"/w/.github/workflows/ci.yml"⟩, ⟨"/w/.github/workflows/ci.yml"⟩] := by
  decide +kernel

end Runner

end ConfigScan
