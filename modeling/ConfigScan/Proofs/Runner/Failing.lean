/-
Module: ConfigScan.Proofs.Runner.Failing
Purpose: What can fail a run: a directory of external checks that the registry refuses, a root that
  is no directory, and one that cannot be listed. Nothing about a single file can.
Main exports: Registry.TakesIn, Registry.Refuses, Registry.loadAll_eq_error_iff,
  Runner.load_eq_error_iff, Runner.Fails, Runner.run_fails_iff
-/
import ConfigScan.Family.GithubActions
import ConfigScan.Proofs.Runner.Scanned

namespace ConfigScan

namespace Registry

variable {σ : Type} (registry : Registry σ)

/-- The registry takes in directories one after another, from one state to another. -/
inductive TakesIn : σ → List Path → σ → Prop where
  | nil (checks : σ) : TakesIn checks [] checks
  | cons {checks next last : σ} {directory : Path} {rest : List Path}
      (taken : registry.load checks directory = .ok next) (later : TakesIn next rest last) :
      TakesIn checks (directory :: rest) last

/-- In some state the registry refuses one of the directories, once it has taken in all those in
    front of it. -/
def RefusesFrom (checks : σ) (directories : List Path) (cause : ScanError) : Prop :=
  ∃ front directory back next, directories = front ++ directory :: back ∧
    registry.TakesIn checks front next ∧ registry.load next directory = .error cause

/-- The first of the directories that the registry refuses is refused with this error. -/
def Refuses (directories : List Path) (cause : ScanError) : Prop :=
  registry.RefusesFrom registry.initial directories cause

variable {registry} {checks last : σ} {directory : Path} {directories : List Path}
  {cause : ScanError}

theorem not_refusesFrom_nil : ¬ registry.RefusesFrom checks [] cause := by
  rintro ⟨front, directory, back, next, split, _, _⟩
  cases front <;> cases split

/-- A directory that is refused is the first one that is. -/
theorem refusesFrom_cons_of_refused {error : ScanError}
    (refused : registry.load checks directory = .error error) :
    registry.RefusesFrom checks (directory :: directories) cause ↔ error = cause := by
  constructor
  · rintro ⟨front, other, back, next, split, taken, otherRefused⟩
    cases taken with
    | nil =>
        cases split
        rw [refused] at otherRefused
        exact Except.error.inj otherRefused
    | cons accepted _ =>
        cases split
        rw [refused] at accepted
        cases accepted
  · rintro rfl
    exact ⟨[], directory, directories, checks, rfl, .nil checks, refused⟩

/-- Behind a directory that is taken in the first refusal is that of the others. -/
theorem refusesFrom_cons_of_taken {next : σ} (taken : registry.load checks directory = .ok next) :
    registry.RefusesFrom checks (directory :: directories) cause ↔
      registry.RefusesFrom next directories cause := by
  constructor
  · rintro ⟨front, other, back, state, split, inFront, refused⟩
    cases inFront with
    | nil =>
        cases split
        rw [taken] at refused
        cases refused
    | cons accepted later =>
        cases split
        rw [taken] at accepted
        cases accepted
        exact ⟨_, other, back, state, rfl, later, refused⟩
  · rintro ⟨front, other, back, state, split, inFront, refused⟩
    exact ⟨directory :: front, other, back, state, by rw [split]; rfl, .cons taken inFront, refused⟩

theorem foldlM_load_eq_ok_iff :
    directories.foldlM registry.load checks = .ok last ↔
      registry.TakesIn checks directories last := by
  induction directories generalizing checks with
  | nil =>
      constructor
      · intro same
        cases same
        exact .nil _
      · rintro ⟨⟩
        rfl
  | cons directory rest inductionHypothesis =>
      rw [List.foldlM_cons]
      constructor
      · intro loaded
        cases head : registry.load checks directory with
        | error cause =>
            rw [head] at loaded
            cases loaded
        | ok next =>
            rw [head] at loaded
            exact .cons head (inductionHypothesis.mp loaded)
      · rintro (_ | ⟨taken, later⟩)
        rw [taken]
        exact inductionHypothesis.mpr later

theorem foldlM_load_eq_error_iff :
    directories.foldlM registry.load checks = .error cause ↔
      registry.RefusesFrom checks directories cause := by
  induction directories generalizing checks with
  | nil =>
      constructor
      · intro isError
        cases isError
      · intro refuses
        exact absurd refuses not_refusesFrom_nil
  | cons directory rest inductionHypothesis =>
      rw [List.foldlM_cons]
      cases head : registry.load checks directory with
      | error error =>
          rw [refusesFrom_cons_of_refused head]
          exact ⟨Except.error.inj, congrArg Except.error⟩
      | ok next =>
          rw [refusesFrom_cons_of_taken head]
          exact inductionHypothesis

theorem loadAll_eq_ok_iff :
    registry.loadAll directories = .ok checks ↔
      registry.TakesIn registry.initial directories checks :=
  foldlM_load_eq_ok_iff

theorem loadAll_eq_error_iff :
    registry.loadAll directories = .error cause ↔ registry.Refuses directories cause :=
  foldlM_load_eq_error_iff

end Registry

namespace Runner

variable {σ : Type} (runner : Runner σ) (fs : FileSystem) (root : Option Path)
  (external files : List Path) (filter : ScanFilter)

/-- What fails a run that has something to scan and lacks no external checks: the first directory
    of external checks that is refused, or, when all are taken in, a root that is no directory or
    one that cannot be listed. -/
inductive Fails : ScanError → Prop where
  | refused {cause : ScanError} (toScan : root ≠ none ∨ files ≠ [])
      (lacksNothing : external = [] → runner.family.requiresExternalChecks = false)
      (refuses : runner.family.registry.Refuses external cause) : Fails cause
  | rootNotFound {directory : Path} {checks : σ} (isRoot : root = some directory)
      (lacksNothing : external = [] → runner.family.requiresExternalChecks = false)
      (taken : runner.family.registry.TakesIn runner.family.registry.initial external checks)
      (noDirectory : fs.isDirectory directory = false) : Fails (.rootNotFound directory)
  | unlisted {directory : Path} {checks : σ} {denied : FileError} (isRoot : root = some directory)
      (lacksNothing : external = [] → runner.family.requiresExternalChecks = false)
      (taken : runner.family.registry.TakesIn runner.family.registry.initial external checks)
      (isDirectory : fs.isDirectory directory = true)
      (unlisted : fs.openDirectory directory = .error denied) : Fails (.walk directory denied)

variable {runner fs root external files filter} {cause : ScanError}

/-- A load fails for its root alone, and not for any file. -/
theorem load_eq_error_iff :
    runner.load fs root files filter = .error cause ↔
      ∃ directory, root = some directory ∧
        ((fs.isDirectory directory = false ∧ cause = .rootNotFound directory) ∨
          fs.isDirectory directory = true ∧
            ∃ denied, fs.openDirectory directory = .error denied ∧
              cause = .walk directory denied) := by
  cases root with
  | none =>
      constructor
      · intro fails
        cases fails
      · rintro ⟨directory, isRoot, _⟩
        cases isRoot
  | some directory =>
      have sameError : runner.load fs (some directory) files filter = .error cause ↔
          (runner.pathFilter filter).walk fs directory = .error cause := by
        rw [load]
        cases (runner.pathFilter filter).walk fs directory with
        | ok found => simp [bind, Except.bind, pure, Except.pure]
        | error error => simp [bind, Except.bind]
      rw [sameError, PathFilter.walk_eq_error_iff]
      simp

/-- A run looks at files when there is something to scan and it lacks no external checks. -/
theorem looksAtNothing_eq_false_iff :
    runner.looksAtNothing root external files = false ↔
      (root ≠ none ∨ files ≠ []) ∧
        (external = [] → runner.family.requiresExternalChecks = false) := by
  rw [looksAtNothing, isIdle, Bool.or_eq_false_iff, Bool.and_eq_false_iff, Bool.and_eq_false_iff]
  cases root <;> cases files <;> cases external <;> simp

/-- A run that looks at files fails where its external checks or its root do. -/
theorem run_eq_error_iff_of_looks (looks : runner.looksAtNothing root external files = false) :
    runner.run fs root external files filter = .error cause ↔
      runner.Fails fs root external files cause := by
  obtain ⟨toScan, lacksNothing⟩ := looksAtNothing_eq_false_iff.mp looks
  rw [run_of_looks looks]
  cases taken : runner.family.registry.loadAll external with
  | error error =>
      have refuses := Registry.loadAll_eq_error_iff.mp taken
      constructor
      · intro fails
        cases fails
        exact .refused toScan lacksNothing refuses
      · rintro (⟨_, _, refused⟩ | ⟨_, _, allTaken, _⟩ | ⟨_, _, allTaken, _, _⟩)
        · rw [Registry.loadAll_eq_error_iff.mpr refused] at taken
          cases taken
          rfl
        · rw [Registry.loadAll_eq_ok_iff.mpr allTaken] at taken
          cases taken
        · rw [Registry.loadAll_eq_ok_iff.mpr allTaken] at taken
          cases taken
  | ok checks =>
      have allTaken := Registry.loadAll_eq_ok_iff.mp taken
      have sameError : (runner.load fs root files filter).map (fun _ =>
          ({ checkType := runner.family.checkType
             findings := runner.allFindings fs root external files filter checks } : Report)) =
            .error cause ↔ runner.load fs root files filter = .error cause := by
        cases runner.load fs root files filter <;> simp [Except.map]
      refine sameError.trans (load_eq_error_iff.trans ?_)
      constructor
      · rintro ⟨directory, isRoot, ⟨noDirectory, rfl⟩ | ⟨isDirectory, denied, unlisted, rfl⟩⟩
        · exact .rootNotFound isRoot lacksNothing allTaken noDirectory
        · exact .unlisted isRoot lacksNothing allTaken isDirectory unlisted
      · rintro (⟨_, _, refused⟩ | ⟨isRoot, _, _, noDirectory⟩ |
          ⟨isRoot, _, _, isDirectory, unlisted⟩)
        · rw [Registry.loadAll_eq_error_iff.mpr refused] at taken
          cases taken
        · exact ⟨_, isRoot, .inl ⟨noDirectory, rfl⟩⟩
        · exact ⟨_, isRoot, .inr ⟨isDirectory, _, unlisted, rfl⟩⟩

/-- What fails a run is something that it looks at. -/
theorem Fails.looks (fails : runner.Fails fs root external files cause) :
    runner.looksAtNothing root external files = false := by
  apply looksAtNothing_eq_false_iff.mpr
  have someRoot {directory : Path} (isRoot : root = some directory) : root ≠ none := by
    rw [isRoot]
    exact Option.some_ne_none _
  cases fails with
  | refused toScan lacksNothing _ => exact ⟨toScan, lacksNothing⟩
  | rootNotFound isRoot lacksNothing _ _ => exact ⟨.inl (someRoot isRoot), lacksNothing⟩
  | unlisted isRoot lacksNothing _ _ _ => exact ⟨.inl (someRoot isRoot), lacksNothing⟩

theorem run_eq_error_iff :
    runner.run fs root external files filter = .error cause ↔
      runner.Fails fs root external files cause := by
  cases looks : runner.looksAtNothing root external files with
  | false => exact run_eq_error_iff_of_looks looks
  | true =>
      rw [run_of_nothing looks]
      constructor
      · intro isError
        cases isError
      · intro fails
        rw [fails.looks] at looks
        cases looks

/-- A run that does not fail gives a report on the files that it scans. -/
theorem run_eq_ok_of_not_fails (noCause : ∀ cause, ¬ runner.Fails fs root external files cause) :
    ∃ checks, runner.run fs root external files filter =
      .ok
        { checkType := runner.family.checkType
          findings := runner.allFindings fs root external files filter checks } := by
  cases looks : runner.looksAtNothing root external files with
  | true =>
      refine ⟨runner.family.registry.initial, ?_⟩
      rw [run_of_nothing looks, allFindings, scanned, if_pos looks]
      rfl
  | false =>
      have noError : ∀ cause, runner.run fs root external files filter ≠ .error cause :=
        fun cause fails => noCause cause (run_eq_error_iff.mp fails)
      rw [run_of_looks looks] at noError ⊢
      cases taken : runner.family.registry.loadAll external with
      | error cause =>
          rw [taken] at noError
          exact absurd rfl (noError cause)
      | ok checks =>
          rw [taken] at noError
          cases read : runner.load fs root files filter with
          | error cause =>
              rw [read] at noError
              exact absurd rfl (noError cause)
          | ok loaded => exact ⟨checks, rfl⟩

/-- A file that the family rejects, be it missing, unreadable or no document, changes nothing in a
    run that has something else to scan. -/
theorem run_of_rejected {front back : List Path} {path : Path}
    (rejected : runner.family.parseFile path = none) (toScan : root ≠ none ∨ front ++ back ≠ []) :
    runner.run fs root external (front ++ path :: back) filter =
      runner.run fs root external (front ++ back) filter := by
  have sameNothing : (root.isNone && (front ++ path :: back).isEmpty) =
      (root.isNone && (front ++ back).isEmpty) := by
    cases root with
    | some directory => rfl
    | none =>
        have notEmpty : front ++ back ≠ [] := by simpa using toScan
        rw [List.isEmpty_eq_false_iff.mpr notEmpty]
        simp
  rw [run, run, sameNothing]
  simp only [load, LoadedFiles.load_of_rejected rejected]

/-- Only the boundary can fail a run. It fails exactly for the causes above and gives a report on
    the files that it scans in every other case. The report is empty when there is nothing to scan
    or external checks are lacking, whatever the root and the external checks are, and a file that
    the family rejects changes nothing when there is something else to scan. -/
theorem run_fails_iff (runner : Runner σ) (fs : FileSystem) (root : Option Path)
    (external files : List Path) (filter : ScanFilter) :
    (∀ cause, runner.run fs root external files filter = .error cause ↔
        runner.Fails fs root external files cause) ∧
      ((∃ cause, runner.Fails fs root external files cause) ∨
        ∃ checks, runner.run fs root external files filter =
          .ok
            { checkType := runner.family.checkType
              findings := runner.allFindings fs root external files filter checks }) ∧
      ((root = none ∧ files = []) ∨
          (external = [] ∧ runner.family.requiresExternalChecks = true) →
        runner.run fs root external files filter = .ok { checkType := runner.family.checkType }) ∧
      ∀ front back path, files = front ++ path :: back → runner.family.parseFile path = none →
        (root ≠ none ∨ front ++ back ≠ []) →
          runner.run fs root external files filter =
            runner.run fs root external (front ++ back) filter := by
  refine ⟨fun cause => run_eq_error_iff, ?_, ?_, ?_⟩
  · by_cases someCause : ∃ cause, runner.Fails fs root external files cause
    · exact Or.inl someCause
    · exact Or.inr (run_eq_ok_of_not_fails (not_exists.mp someCause))
  · intro nothing
    apply run_of_nothing
    rw [looksAtNothing, isIdle]
    rcases nothing with ⟨rfl, rfl⟩ | ⟨rfl, required⟩
    · rfl
    · rw [required]
      simp
  · rintro front back path rfl rejected toScan
    exact run_of_rejected rejected toScan

/-- A root that is a directory but cannot be listed fails a run of a family that needs no external
    checks, and so does another spelling of the current directory that is too long to be looked
    up. -/
theorem run_fails_below_unlisted_root :
    let closed := PathFilter.workingIn { list := false } []
    let working := PathFilter.workingIn {} []
    let registry : Registry Unit :=
      { initial := (), load := fun state _ => .ok state, scan := fun _ _ _ _ _ => [] }
    let runner (fs : FileSystem) : Runner Unit := { family := .githubActions registry fs }
    let long := Path.dotSlashes 4095
    (closed.isDirectory ⟨"."⟩ = true ∧
        (runner closed).run closed (some ⟨"."⟩) [] [] {} =
          .error (.walk ⟨"."⟩ .permissionDenied)) ∧
      working.isDirectory ⟨"."⟩ = true ∧ long.same ⟨"."⟩ = true ∧
      (runner working).run working (some long) [] [] {} = .error (.rootNotFound long) := by
  intro closed working registry runner long
  have closedFound : closed.lookup ⟨"."⟩ = .ok (.dir { list := false } []) :=
    PathFilter.lookup_dotSlashes rfl _ 0 (by decide)
  have workingFound : working.lookup ⟨"."⟩ = .ok (.folder []) :=
    PathFilter.lookup_dotSlashes rfl _ 0 (by decide)
  have looks (fs : FileSystem) (root : Path) :
      (runner fs).looksAtNothing (some root) [] [] = false := rfl
  refine ⟨⟨FileSystem.isDirectory_of_lookup closedFound, ?_⟩,
    FileSystem.isDirectory_of_lookup workingFound, ?_, ?_⟩
  · exact run_eq_error_iff.mpr (.unlisted rfl (fun _ => rfl) (.nil ())
      (FileSystem.isDirectory_of_lookup closedFound)
      (FileSystem.openDirectory_of_lookup closedFound))
  · rw [Path.same, Path.components_dotSlashes]
    rfl
  · refine run_eq_error_iff.mpr (.rootNotFound rfl (fun _ => rfl) (.nil ()) ?_)
    rw [Bool.eq_false_iff, Ne, FileSystem.isDirectory_eq_true_iff]
    rintro ⟨access, children, found⟩
    obtain ⟨_, short⟩ := FileSystem.length_le_of_lookup found
    rw [Path.length_dotSlashes] at short
    exact absurd short (by decide)

end Runner

end ConfigScan
