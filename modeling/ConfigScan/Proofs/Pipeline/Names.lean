/-
Module: ConfigScan.Proofs.Pipeline.Names
Purpose: The names of a pipeline, of its jobs and of its triggers, which no line marker of the
  document changes.
Main exports: Pipeline.addName, Pipeline.names_jobsOf, Pipeline.names_withoutLines
-/
import ConfigScan.Pipeline
import ConfigScan.Proofs.Document.WithoutLines

namespace ConfigScan.Pipeline

/-- One more name, unless it is among the names already. -/
def addName (names : List String) (name : String) : List String :=
  if names.contains name then names else names ++ [name]

/-- The names that keys give to jobs: each that is no marker gives one, as it is shown. -/
def namesOf (keys : List Key) : List String := (keys.filter (!·.isMarker)).map Key.text

namespace JobScan

/-- The names of the jobs met so far. -/
def names (scan : JobScan) : List String := scan.jobs.map Job.name

/-- A change of the current job that leaves its name leaves all names. -/
theorem names_update {scan : JobScan} {change : Job → Job}
    (kept : ∀ job : Job, scan.current = some job.name → (change job).name = job.name) :
    (scan.update change).names = scan.names := by
  rw [update]
  cases current : scan.current with
  | none => rfl
  | some name =>
      simp only [names, List.map_map]
      apply List.map_congr_left
      intro job _
      by_cases own : job.name = name
      · simp [own, kept job (by rw [current, own])]
      · simp [own]

/-- A job that starts is named behind the others, unless its name was met before. -/
theorem names_start (scan : JobScan) (name : String) :
    (scan.start name).names = addName scan.names name := by
  have met : scan.names.contains name = scan.jobs.any (·.name == name) := by
    rw [Bool.eq_iff_iff]
    simp [names]
  rw [start, addName, met]
  split
  · apply names_update
    intro job current
    exact Option.some.inj current
  · simp [names]

/-- An entry of the mapping of jobs adds the name of its key. A marker adds none. -/
theorem names_step (scan : JobScan) (entry : Key × Node) :
    (scan.step entry).names = (namesOf [entry.1]).foldl addName scan.names := by
  obtain ⟨key, node⟩ := entry
  cases key with
  | str text => exact names_start scan text
  | bool value => exact names_start scan (Key.bool value).text
  | int value => exact names_start scan (Key.int value).text
  | startLine => exact names_update fun _ _ => rfl
  | endLine => exact names_update fun _ _ => rfl

/-- The names of the jobs behind a run of entries. -/
theorem names_foldl (entries : Mapping) (scan : JobScan) :
    (entries.foldl step scan).names = (namesOf entries.keys).foldl addName scan.names := by
  induction entries generalizing scan with
  | nil => rfl
  | cons entry rest inductionHypothesis =>
      have split : namesOf (Mapping.keys (entry :: rest)) =
          namesOf [entry.1] ++ namesOf (Mapping.keys rest) := by
        simp only [namesOf, Mapping.keys, ← List.map_append, ← List.filter_append]
        rfl
      rw [List.foldl_cons, inductionHypothesis, names_step, split, List.foldl_append]

end JobScan

/-- The jobs of a document are named after the keys under `jobs`, each name once and in the order
    of first mention. -/
theorem names_jobsOf (document : Node) :
    (jobsOf document).map Job.name =
      ((document.get? "jobs").bind Node.mapping?).elim []
        fun entries => (namesOf entries.keys).foldl addName [] := by
  rw [jobsOf]
  cases (document.get? "jobs").bind Node.mapping? with
  | none => rfl
  | some entries => exact JobScan.names_foldl entries {}

open Node in
/-- The markers of a mapping give no names. -/
theorem namesOf_withoutLines (entries : Mapping) :
    namesOf (Mapping.keys (entriesWithoutLines entries)) = namesOf entries.keys := by
  rw [Mapping.keys_entriesWithoutLines, namesOf, List.filter_filter]
  simp only [Bool.and_self]
  rfl

/-- The name of a pipeline, the names of its jobs and its triggers are those of its document
    without line markers. -/
theorem names_withoutLines (document : Node) :
    (ofDocument document.withoutLines).name = (ofDocument document).name ∧
      (ofDocument document.withoutLines).jobs.map Job.name =
        (ofDocument document).jobs.map Job.name ∧
      (ofDocument document.withoutLines).triggers = (ofDocument document).triggers := by
  refine ⟨?_, ?_, ?_⟩
  · simp only [ofDocument]
    rw [Node.get?_withoutLines]
    cases document.get? "name" with
    | none => rfl
    | some node => exact Node.str?_withoutLines node
  · simp only [ofDocument]
    rw [names_jobsOf, names_jobsOf, Node.get?_withoutLines]
    cases document.get? "jobs" with
    | none => rfl
    | some node =>
        simp only [Option.map_some, Option.bind_some, Node.mapping?_withoutLines]
        cases node.mapping? with
        | none => rfl
        | some entries => simp [namesOf_withoutLines]
  · simp only [ofDocument, triggersOf]
    rw [Node.mapping?_withoutLines]
    cases document.mapping? with
    | none => rfl
    | some entries =>
        simp only [Option.map_some, Option.bind_some]
        rw [Mapping.get?_withoutLines entries rfl]
        cases entries.get? (.bool true) with
        | none => rfl
        | some node =>
            simp only [Option.map_some, Option.bind_some, Node.mapping?_withoutLines]
            cases node.mapping? with
            | none => rfl
            | some triggers =>
                exact congrArg (List.foldr insertSorted []) (namesOf_withoutLines triggers)

end ConfigScan.Pipeline
