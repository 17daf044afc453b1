/-
Module: ConfigScan.Pipeline
Purpose: What a pipeline definition says about itself: its name, its jobs with their lines, and the
  events that trigger it.
Main exports: Job, Pipeline, Pipeline.jobsOf, Pipeline.triggersOf, Pipeline.ofDocument
-/
import ConfigScan.Document.Basic

namespace ConfigScan

/-- A job of a pipeline and the lines attributed to it. -/
structure Job where
  name : String
  startLine : Option Nat := none
  endLine : Option Nat := none
deriving DecidableEq, Repr, Inhabited

/-- The name, jobs and triggers of a pipeline; the triggers are sorted and distinct. -/
structure Pipeline where
  name : Option String := none
  jobs : List Job := []
  triggers : List String := []
deriving DecidableEq, Repr, Inhabited

namespace Pipeline

/-- The jobs met so far and the name of the one met last. -/
structure JobScan where
  jobs : List Job := []
  current : Option String := none
deriving DecidableEq, Repr, Inhabited

namespace JobScan

/-- Change the current job, if there is one. -/
def update (scan : JobScan) (change : Job → Job) : JobScan :=
  match scan.current with
  | none => scan
  | some name =>
      { scan with jobs := scan.jobs.map fun job => if job.name = name then change job else job }

/-- Start a job. A name met before keeps its place and loses its lines. -/
def start (scan : JobScan) (name : String) : JobScan :=
  if scan.jobs.any (·.name == name) then
    { scan with current := some name }.update fun _ => { name }
  else { jobs := scan.jobs ++ [{ name }], current := some name }

/-- Take in one entry of the mapping of jobs: a marker belongs to the current job. -/
def step (scan : JobScan) : Key × Node → JobScan
  | (.startLine, value) => scan.update fun job => { job with startLine := value.line? }
  | (.endLine, value) => scan.update fun job => { job with endLine := value.line? }
  | (key, _) => scan.start key.text

end JobScan

/-- The jobs under the key `jobs`, in the order of their first mention. -/
def jobsOf (document : Node) : List Job :=
  match (document.get? "jobs").bind Node.mapping? with
  | none => []
  | some entries => (entries.foldl JobScan.step {}).jobs

/-- Insert a text into a sorted list of distinct texts. -/
def insertSorted (text : String) : List String → List String
  | [] => [text]
  | head :: tail =>
      if text < head then text :: head :: tail
      else if text = head then head :: tail
      else head :: insertSorted text tail

/-- The keys of the mapping under the boolean key `true`, which is how `on` reads; sorted. -/
def triggersOf (document : Node) : List String :=
  match (document.mapping?.bind (·.get? (.bool true))).bind Node.mapping? with
  | none => []
  | some entries =>
      ((entries.keys.filter (!·.isMarker)).map Key.text).foldr insertSorted []

/-- All that a pipeline's document says about it. -/
def ofDocument (document : Node) : Pipeline :=
  { name := (document.get? "name").bind Node.str?
    jobs := jobsOf document
    triggers := triggersOf document }

end Pipeline

end ConfigScan
