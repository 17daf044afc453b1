/-
Module: ConfigScan.Proofs.Runner.Workflows
Purpose: Which workflows a run below a directory scans: the YAML files with jobs that lie directly
  in a directory of workflows, but for those that a name or a directory on the way to them leaves
  out.
Main exports: Workflow, Runner.scans_workflows
-/
import ConfigScan.Family.GithubActions
import ConfigScan.Proofs.Runner.Scanned

namespace ConfigScan

open PathFilter (relativePath)

/-- The extension of a YAML file, in whatever case. -/
theorem Path.isYaml_iff {path : Path} :
    path.isYaml = true ↔
      ∃ extension : String, path.extension? = some (Text.Utf8.bytes extension) ∧
        extension.toLower ∈ ["yml", "yaml"] := by
  have isLower : "yml".toLower = "yml" ∧ "yaml".toLower = "yaml" := by decide +kernel
  have isText : ∀ text, path.extension?.bind Text.Utf8.decode? = some text ↔
      path.extension? = some (Text.Utf8.bytes (String.ofList text)) := by
    intro text
    simp only [Option.bind_eq_some_iff, Text.Utf8.decode?_eq_some_iff, Text.Utf8.bytes,
      String.toList_ofList]
    constructor
    · rintro ⟨_, isExtension, rfl⟩
      exact isExtension
    · intro isExtension
      exact ⟨_, isExtension, rfl⟩
  have isKnown : ∀ extension : String,
      (["yml", "yaml"].any fun known => known.toLower == extension.toLower) = true ↔
        extension.toLower ∈ ["yml", "yaml"] := by
    intro extension
    simp only [List.any_cons, List.any_nil, Bool.or_false, isLower.1, isLower.2, Bool.or_eq_true,
      beq_iff_eq, List.mem_cons, List.not_mem_nil, or_false, @eq_comm _ extension.toLower]
  rw [isYaml, hasExtension]
  constructor
  · intro known
    cases isExtension : path.extension?.bind Text.Utf8.decode? with
    | none =>
        rw [isExtension] at known
        cases known
    | some text =>
        rw [isExtension] at known
        exact ⟨String.ofList text, (isText text).mp isExtension, (isKnown _).mp known⟩
  · rintro ⟨extension, isExtension, known⟩
    rw [← String.ofList_toList (s := extension), ← isText] at isExtension
    rw [isExtension]
    refine (isKnown _).mpr ?_
    rwa [String.ofList_toList]

/-- The place of a workflow: its extension, and the last two directories on the way to it. -/
theorem Path.isWorkflow_iff {path : Path} :
    path.isWorkflow = true ↔
      (∃ extension : String, path.extension? = some (Text.Utf8.bytes extension) ∧
          extension.toLower ∈ ["yml", "yaml"]) ∧
        ∃ directory, path.parent? = some directory ∧
          [.name ".github", .name "workflows"] <:+ directory.components := by
  have isPlace : workflowDirectory.components = [.name ".github", .name "workflows"] := by
    decide +kernel
  rw [isWorkflow, Bool.and_eq_true, isYaml_iff, Option.any_eq_true]
  simp only [endsWith, isPlace, List.isSuffixOf_iff_suffix]

/-- The document is a mapping with the key `jobs`. -/
theorem ParsedFile.hasJobs_iff {file : ParsedFile} :
    file.hasJobs = true ↔
      ∃ entries jobs, file.document = .map entries ∧ (.str "jobs", jobs) ∈ entries := by
  rw [hasJobs]
  cases document : file.document with
  | map entries =>
      simp [Node.get?, Node.mapping?, Mapping.getStr?, Mapping.get?]
  | _ => simp [Node.get?, Node.mapping?]

variable {σ : Type} {registry : Registry σ} {fs : FileSystem}

theorem Family.parseFile_githubActions {path : Path} {file : ParsedFile} :
    (Family.githubActions registry fs).parseFile path = some file ↔
      path.isWorkflow = true ∧ fs.readYaml? path = some file ∧ file.hasJobs = true := by
  rw [githubActions]
  dsimp only
  split
  · next isWorkflow => simp [isWorkflow, Option.filter_eq_some_iff]
  · next elsewhere => simp [elsewhere]

/-- No exclusion pattern rules the path of an entry out: as a glob that the path fits, where the set
    of the globs can be built, or as a part of its text. -/
def PathFilter.Allows (buildable : List Glob.Pattern → Bool) (excluded : List String)
    (path : Path) : Prop :=
  (buildable (excluded.filterMap Glob.read?) = true →
      ∀ pattern ∈ excluded, ∀ glob, Glob.read? pattern = some glob → ¬ glob.fits path = true) ∧
    ∀ pattern ∈ excluded, ¬ pattern.toList <:+: path.text.toList

/-- The file that names lead to below a directory is a workflow that a run with these exclusion
    patterns looks at. -/
structure Workflow (fs : FileSystem) (buildable : List Glob.Pattern → Bool)
    (excluded : List String) (root : Path) (names : List Name) (path : Path) (file : ParsedFile) :
    Prop where
  someNames : names ≠ []
  isFile : ∃ readable content, fs.below? root names = some (.file readable content)
  isPath : path = root.join (relativePath names)
  isYaml : ∃ extension : String, path.extension? = some (Text.Utf8.bytes extension) ∧
    extension.toLower ∈ ["yml", "yaml"]
  directory : ∃ directory, path.parent? = some directory ∧
    [.name ".github", .name "workflows"] <:+ directory.components
  document : fs.readYaml? path = some file
  jobs : ∃ entries jobs, file.document = .map entries ∧ (.str "jobs", jobs) ∈ entries
  entered : ∀ name ∈ names,
    Text.Utf8.text name ∉ ["node_modules", ".terraform", ".serverless"]
  shown : ∀ name ∈ names,
    (Text.Utf8.text name).toList.head? = some '.' → Text.Utf8.text name = ".github"
  /-- Every entry on the way to the file is a directory, and no link, that can be opened. -/
  opened : ∀ front name back, names = front ++ name :: back →
    ∃ directory, fs.below? root front = some directory ∧ directory.IsOpen back
  allowed : ∀ front name back, names = front ++ name :: back →
    ∃ parent, (root.join (relativePath (front ++ [name]))).parent? = some parent ∧
      PathFilter.Allows buildable excluded (parent.join ⟨Text.Utf8.text name⟩)

variable {root path : Path} {file : ParsedFile} {names : List Name} {filter : ScanFilter}
  {buildable : List Glob.Pattern → Bool} {excluded : List String}

/-- The filter of a run of workflows. -/
abbrev PathFilter.forWorkflows (buildable : List Glob.Pattern → Bool) (excluded : List String) :
    PathFilter :=
  { excluded, included := [".github"], buildable }

/-- The filter of a run of workflows keeps a name exactly when it is not one of those that are never
    entered, is not hidden unless it is that of the directory of workflows, and no pattern rules it
    out. -/
theorem PathFilter.ignores_workflows {directory : Path} {name : String} :
    (forWorkflows buildable excluded).ignores directory name = false ↔
      (name.toList.head? = some '.' → name = ".github") ∧
        name ∉ ["node_modules", ".terraform", ".serverless"] ∧
        Allows buildable excluded (directory.join ⟨name⟩) := by
  have allows_iff : ¬ (forWorkflows buildable excluded).excludes (directory.join ⟨name⟩) = true ↔
      Allows buildable excluded (directory.join ⟨name⟩) := by
    rw [excludes_iff, not_or, Allows]
    refine and_congr ?_ (by simp)
    simp only [mem_globs]
    constructor
    · intro noGlob built pattern member glob isGlob fits
      exact noGlob ⟨glob, ⟨built, pattern, member, isGlob⟩, fits⟩
    · rintro noGlob ⟨glob, ⟨built, pattern, member, isGlob⟩, fits⟩
      exact noGlob built pattern member glob isGlob fits
  rw [ignores_eq_false_iff, allows_iff]
  simp only [List.mem_singleton, ignoredNames]

/-- A file that can be read has a path of no more than the greatest length, and so has every
    directory on the way to it. -/
theorem length_of_readYaml? (areNames : ∀ name ∈ names, Path.isEntryName name = true)
    (someNames : names ≠ []) (read : fs.readYaml? (root.join (relativePath names)) = some file)
    {front back : List Name} (split : names = front ++ back) :
    (root.descend front).bytes.length ≤ FileSystem.maxPathBytes := by
  have found : ∃ entry, fs.lookup (root.join (relativePath names)) = .ok entry := by
    rw [FileSystem.readYaml?, FileSystem.readText] at read
    cases outcome : fs.lookup (root.join (relativePath names)) with
    | ok entry => exact ⟨entry, rfl⟩
    | error cause =>
        rw [outcome] at read
        cases read
  obtain ⟨entry, found⟩ := found
  obtain ⟨_, short⟩ := FileSystem.length_le_of_lookup found
  rw [← Path.descend_eq_join root someNames areNames] at short
  have inBack : ∀ name ∈ back, Path.isEntryName name = true := by
    intro name member
    exact areNames name (split ▸ List.mem_append_right _ member)
  have further : root.descend names = (root.descend front).descend back := by
    rw [split, Path.descend, List.foldl_append]
    rfl
  rw [further] at short
  exact le_trans (Path.length_descend_le _ back inBack) short

/-- The way to an entry among names is spelled by the names up to it. -/
theorem descend_start (areNames : ∀ name ∈ names, Path.isEntryName name = true)
    {front back : List Name} {name : Name} (split : names = front ++ name :: back) :
    root.descend (front ++ [name]) = root.join (relativePath (front ++ [name])) := by
  refine Path.descend_eq_join root (by simp) fun other inStart => areNames other ?_
  have whole : names = front ++ [name] ++ back := by simpa using split
  rw [whole]
  exact List.mem_append_left _ inStart

/-- The workflows below a root are the files that the family accepts of those that the walk
    reaches. -/
theorem workflow_iff (registry : Registry σ) (proper : fs.root.isProper = true)
    {access : Access} {children : List (Name × Entry)}
    (found : fs.lookup root = .ok (.dir access children)) :
    Workflow fs buildable excluded root names path file ↔
      path = root.join (relativePath names) ∧
        (PathFilter.forWorkflows buildable excluded).Reaches fs root names ∧
        (Family.githubActions registry fs).parseFile path = some file := by
  have below := FileSystem.below?_of_lookup found
  rw [PathFilter.reaches_iff_passes proper found, Family.parseFile_githubActions,
    Path.isWorkflow_iff, ParsedFile.hasJobs_iff]
  constructor
  · intro workflow
    obtain ⟨readable, content, isFile⟩ := workflow.isFile
    have areNames := PathFilter.isEntryName_of_below? proper isFile
    refine ⟨workflow.isPath, ⟨⟨readable, content, isFile⟩, ?_⟩,
      ⟨workflow.isYaml, workflow.directory⟩, workflow.document, workflow.jobs⟩
    intro front name back split
    obtain ⟨parent, isParent, allowed⟩ := workflow.allowed front name back split
    have opened := workflow.opened front name back split
    have member : name ∈ names := by simp [split]
    have read := workflow.document
    rw [workflow.isPath] at read
    rw [below] at opened
    refine ⟨⟨length_of_readYaml? areNames workflow.someNames read split, opened⟩, parent, ?_,
      PathFilter.ignores_workflows.mpr
        ⟨workflow.shown name member, workflow.entered name member, allowed⟩⟩
    rwa [descend_start areNames split]
  · rintro ⟨isPath, ⟨⟨readable, content, isFile⟩, passes⟩, ⟨isYaml, directory⟩, document, jobs⟩
    have areNames := PathFilter.isEntryName_of_below? proper isFile
    have kept : ∀ front name back, names = front ++ name :: back →
        ∃ parent, (root.join (relativePath (front ++ [name]))).parent? = some parent ∧
          (PathFilter.forWorkflows buildable excluded).ignores parent (Text.Utf8.text name) =
            false := by
      intro front name back split
      obtain ⟨_, parent, isParent, kept⟩ := passes front name back split
      exact ⟨parent, by rw [← descend_start areNames split, isParent], kept⟩
    have keptOf : ∀ name ∈ names, ∃ parent,
        (PathFilter.forWorkflows buildable excluded).ignores parent (Text.Utf8.text name) =
          false := by
      intro name member
      obtain ⟨front, back, split⟩ := List.append_of_mem member
      obtain ⟨parent, _, kept⟩ := kept front name back split
      exact ⟨parent, kept⟩
    constructor
    case someNames =>
      rintro rfl
      rw [below] at isFile
      cases isFile
    case isFile => exact ⟨readable, content, isFile⟩
    case isPath => exact isPath
    case isYaml => exact isYaml
    case directory => exact directory
    case document => exact document
    case jobs => exact jobs
    case entered =>
      intro name member
      obtain ⟨_, kept⟩ := keptOf name member
      exact (PathFilter.ignores_workflows.mp kept).2.1
    case shown =>
      intro name member
      obtain ⟨_, kept⟩ := keptOf name member
      exact (PathFilter.ignores_workflows.mp kept).1
    case opened =>
      intro front name back split
      rw [below]
      exact (passes front name back split).1.2
    case allowed =>
      intro front name back split
      obtain ⟨parent, isParent, kept⟩ := kept front name back split
      exact ⟨parent, isParent, (PathFilter.ignores_workflows.mp kept).2.2⟩

namespace Runner

variable {runner : Runner σ} {external : List Path}

/-- A run of workflows below a root succeeds when its external checks can be taken in and the root
    is a directory that can be listed. -/
theorem run_workflows_iff (looks : runner.looksAtNothing (some root) external [] = false) :
    (∃ report, runner.run fs (some root) external [] filter = .ok report) ↔
      (∃ checks, runner.family.registry.loadAll external = .ok checks) ∧
        ∃ directory, fs.openDirectory root = .ok directory := by
  rw [run_of_looks looks, ← PathFilter.exists_walk_iff (runner.pathFilter filter), load]
  cases runner.family.registry.loadAll external with
  | error cause => simp [Except.bind]
  | ok checks =>
      cases (runner.pathFilter filter).walk fs root with
      | error cause => simp [bind, Except.bind, Except.map]
      | ok found => simp [bind, Except.bind, pure, Except.pure, Except.map]

/-- A run below a directory, without further files, scans exactly the workflows there, in path
    order, and reports what the checks find in them. -/
theorem scans_workflows (proper : fs.root.isProper = true) (registry : Registry σ)
    (collect : List RawLine → Suppressions) (display : PathDisplay)
    (buildable : List Glob.Pattern → Bool) (root : Path) (external : List Path)
    (filter : ScanFilter) :
    let runner : Runner σ :=
      { family := .githubActions registry fs, collect, display, buildable }
    let scanned := (runner.scanned fs (some root) external [] filter).files
    ((∃ report, runner.run fs (some root) external [] filter = .ok report) ↔
        (∃ checks, registry.loadAll external = .ok checks) ∧
          ∃ directory, fs.openDirectory root = .ok directory) ∧
      ∀ report, runner.run fs (some root) external [] filter = .ok report →
        (∃ checks, registry.loadAll external = .ok checks ∧
          report.findings = runner.allFindings fs (some root) external [] filter checks) ∧
        Path.InOrder (scanned.map Prod.fst) ∧
        ∀ path file, (path, file) ∈ scanned ↔
          ∃ names, Workflow fs buildable filter.excludedPaths root names path file := by
  intro runner scanned
  have looks : runner.looksAtNothing (some root) external [] = false := by
    simp [looksAtNothing, isIdle, runner, Family.githubActions]
  refine ⟨run_workflows_iff looks, fun report succeeds => ?_⟩
  obtain ⟨checks, looked, findings⟩ := findings_of_run succeeds
  obtain ⟨taken, read⟩ := looked looks
  obtain ⟨_, directory, opened⟩ := (run_workflows_iff looks).mp ⟨report, succeeds⟩
  obtain ⟨access, children, found⟩ := FileSystem.lookup_of_openDirectory opened
  refine ⟨⟨checks, taken, findings⟩, ?_, ?_⟩
  · exact List.pairwise_map.mpr (covers_scanned succeeds).sorted
  · intro path file
    have isScanned : scanned = (runner.walked fs (some root) filter).filterMap fun path =>
        (runner.family.parseFile path).map (path, ·) := files_of_load proper read
    simp only [isScanned, List.mem_filterMap, Option.map_eq_some_iff, Prod.mk.injEq,
      mem_walked proper read, workflow_iff registry proper found]
    constructor
    · rintro ⟨_, ⟨names, rfl, reaches⟩, _, accepted, rfl, rfl⟩
      exact ⟨names, rfl, reaches, accepted⟩
    · rintro ⟨names, isPath, reaches, accepted⟩
      exact ⟨path, ⟨names, isPath, reaches⟩, file, accepted, rfl, rfl⟩

/-- A registry that reports one check about every document. -/
def reporting : Registry Unit :=
  { initial := ()
    load := fun state _ => .ok state
    scan := fun _ _ _ _ _ =>
      [("whole", { check := some { id := "X", name := "x" }, outcome := .failed })] }

/-- A workflow, and others in a directory that is never entered, in a hidden one, in one that a
    pattern rules out, in one that cannot be listed, and behind a link. -/
theorem scans_workflows_pruned :
    let workflows : Entry := .folder [("ci.yml", .text "jobs:\n")]
    let copy : Entry := .folder [(".github", .folder [("workflows", workflows)])]
    let fs : FileSystem :=
      { root := .folder [("r", .folder
          [(".github", .folder [("workflows", workflows)]), ("node_modules", copy), (".git", copy),
            ("out", copy), ("shut", .dir { list := false } [(".github", copy)]),
            ("link", .link ⟨".github"⟩)])]
        currentDir := ⟨"/"⟩ }
    let runner : Runner Unit := { family := .githubActions reporting fs }
    fs.root.isProper = true ∧
      (∃ report, runner.run fs (some ⟨"r"⟩) [] [] { excludedPaths := ["r/out"] } = .ok report ∧
        report.findings.map (fun finding => (finding.checkId, finding.filePath)) =
          [("X", "/.github/workflows/ci.yml")]) ∧
      ∀ path, (∃ names file, Workflow fs (fun _ => true) ["r/out"] ⟨"r"⟩ names path file) ↔
        path = ⟨"r/.github/workflows/ci.yml"⟩ := by
  intro workflows copy fs runner
  have proper : fs.root.isProper = true := by decide +kernel
  have shown : (runner.run fs (some ⟨"r"⟩) [] [] { excludedPaths := ["r/out"] }).toOption.map
      (fun report => report.findings.map fun finding => (finding.checkId, finding.filePath)) =
        some [("X", "/.github/workflows/ci.yml")] := by decide +kernel
  obtain ⟨report, isReport, findings⟩ := Option.map_eq_some_iff.mp shown
  have succeeds : runner.run fs (some ⟨"r"⟩) [] [] { excludedPaths := ["r/out"] } =
      .ok report := eq_ok_of_toOption isReport
  obtain ⟨_, scanned_iff⟩ := scans_workflows proper reporting Suppressions.collect
    .scanRoot (fun _ => true) ⟨"r"⟩ [] { excludedPaths := ["r/out"] }
  obtain ⟨_, _, members⟩ := scanned_iff report succeeds
  have keys : (runner.scanned fs (some ⟨"r"⟩) [] [] { excludedPaths := ["r/out"] }).files.map
      Prod.fst = [⟨"r/.github/workflows/ci.yml"⟩] := by decide +kernel
  refine ⟨proper, ⟨report, succeeds, findings⟩, fun path => ?_⟩
  rw [← List.mem_singleton, ← keys, List.mem_map]
  constructor
  · rintro ⟨names, file, workflow⟩
    exact ⟨(path, file), (members path file).mpr ⟨names, workflow⟩, rfl⟩
  · rintro ⟨⟨path, file⟩, member, rfl⟩
    obtain ⟨names, workflow⟩ := (members path file).mp member
    exact ⟨names, file, workflow⟩

/-- A workflow that can be read by its path, where no name on the way is ignored, is passed over
    when its directory cannot be listed or is a link. One that fits an exclusion glob is reported
    all the same when the set of the globs cannot be built. -/
theorem passes_over_workflows :
    let workflows : Entry := .folder [("ci.yml", .text "jobs:\n")]
    let below (directory : Entry) : FileSystem :=
      { root := .folder
          [("r", .folder [(".github", .folder [("workflows", directory)])]), ("flows", workflows)]
        currentDir := ⟨"/"⟩ }
    let path : Path := ⟨"r/.github/workflows/ci.yml"⟩
    let shown (fs : FileSystem) (buildable : List Glob.Pattern → Bool) (excluded : List String) :
        Option (List String) :=
      (run { family := .githubActions reporting fs, buildable } fs (some ⟨"r"⟩) [] []
          { excludedPaths := excluded }).toOption.map
        fun report => report.findings.map Finding.filePath
    let closed : FileSystem := below (.dir { list := false } [("ci.yml", .text "jobs:\n")])
    let linked : FileSystem := below (.link ⟨"../../flows"⟩)
    (∀ directory, ∀ name ∈ [".github", "workflows", "ci.yml"],
        (PathFilter.forWorkflows (fun _ => true) []).ignores directory name = false) ∧
      (((Family.githubActions reporting closed).parseFile path).isSome = true ∧
        shown closed (fun _ => true) [] = some []) ∧
      (((Family.githubActions reporting linked).parseFile path).isSome = true ∧
        shown linked (fun _ => true) [] = some []) ∧
      ((Glob.read? "**/ci.yml").any (fun glob => glob.fits path) = true ∧
        shown (below workflows) (fun _ => true) ["**/ci.yml"] = some [] ∧
        shown (below workflows) (fun _ => false) ["**/ci.yml"] =
          some ["/.github/workflows/ci.yml"]) := by
  intro workflows below path shown closed linked
  refine ⟨fun directory name member => ?_, ⟨by decide +kernel, by decide +kernel⟩,
    ⟨by decide +kernel, by decide +kernel⟩, by decide +kernel, by decide +kernel,
    by decide +kernel⟩
  simp only [List.mem_cons, List.not_mem_nil, or_false] at member
  rcases member with rfl | rfl | rfl <;> rfl

end Runner

end ConfigScan
