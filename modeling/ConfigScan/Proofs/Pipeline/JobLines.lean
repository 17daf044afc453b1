/-
Module: ConfigScan.Proofs.Pipeline.JobLines
Purpose: Which lines the jobs of a pipeline get. A marker belongs to the job in front of it, and the
  markers of a mapping that was read from a text stand behind all its keys, so the last job gets the
  lines of the whole mapping and no other job gets any.
Main exports: Pipeline.linesOf?, Pipeline.linesOf?_jobsOf, Pipeline.JobLinesApart,
  ParsedFile.jobLinesApart_iff
-/
import ConfigScan.Proofs.Yaml.MarkingImage
import ConfigScan.Proofs.Yaml.Nesting

namespace ConfigScan

namespace Pipeline

/-- Both lines of the job of this name. -/
def linesOf? (jobs : List Job) (name : String) : Option (Nat × Nat) := do
  let job ← jobs.find? (·.name == name)
  return (← job.startLine, ← job.endLine)

namespace JobScan

theorem current_update (scan : JobScan) (change : Job → Job) :
    (scan.update change).current = scan.current := by
  rw [update]
  cases current : scan.current with
  | none => exact current
  | some name => rfl

theorem current_start (scan : JobScan) (name : String) :
    (scan.start name).current = some name := by
  rw [start]
  split
  · exact current_update _ _
  · rfl

/-- A change of the current job that leaves its name is seen under that name and nowhere else. -/
theorem find?_update (scan : JobScan) (change : Job → Job)
    (kept : ∀ job, (change job).name = job.name) (name : String) :
    (scan.update change).jobs.find? (·.name == name) =
      (scan.jobs.find? (·.name == name)).map fun job =>
        if scan.current = some name then change job else job := by
  rw [update]
  cases current : scan.current with
  | none => simp
  | some own =>
      have sameNames : (fun job : Job => job.name == name) ∘
          (fun job => if job.name = own then change job else job) =
            fun job => job.name == name := by
        funext job
        by_cases changed : job.name = own
        · simp [changed, kept job]
        · simp [changed]
      simp only [List.find?_map, sameNames]
      cases found : scan.jobs.find? (·.name == name) with
      | none => rfl
      | some job =>
          have named : job.name = name := by simpa using List.find?_some found
          simp [named, eq_comm]

/-- No job has lines yet, and the current job is one of the jobs. -/
structure Bare (scan : JobScan) : Prop where
  bare : ∀ job ∈ scan.jobs, job = { name := job.name }
  current_mem : ∀ name, scan.current = some name → name ∈ scan.names

theorem Bare.start {scan : JobScan} (bare : scan.Bare) (name : String) :
    (scan.start name).Bare where
  bare := by
    intro job member
    rw [JobScan.start] at member
    split at member
    · simp only [update, List.mem_map] at member
      obtain ⟨other, isOther, same⟩ := member
      split at same
      · rw [← same]
      · rw [← same]
        exact bare.bare other isOther
    · rcases List.mem_append.mp member with earlier | started
      · exact bare.bare job earlier
      · rw [List.mem_singleton.mp started]
  current_mem := by
    intro other current
    rw [current_start] at current
    cases current
    rw [names_start, addName]
    by_cases met : scan.names.contains name = true
    · rw [if_pos met]
      exact List.contains_iff_mem.mp met
    · rw [if_neg met]
      exact List.mem_append_right _ List.mem_cons_self

/-- A key that is no marker starts a job. -/
theorem step_of_ordinary (scan : JobScan) {entry : Key × Node}
    (ordinary : entry.1.isMarker = false) : scan.step entry = scan.start entry.1.text := by
  obtain ⟨key, node⟩ := entry
  cases key with
  | str text => rfl
  | bool value => rfl
  | int value => rfl
  | startLine => cases ordinary
  | endLine => cases ordinary

/-- Behind entries without markers no job has lines, and the last key names the current job. -/
theorem foldl_of_unmarked {entries : Mapping} (unmarked : entries.Unmarked) {scan : JobScan}
    (bare : scan.Bare) :
    (entries.foldl step scan).Bare ∧
      (entries.foldl step scan).current =
        ((namesOf entries.keys).getLast?).or scan.current := by
  induction entries generalizing scan with
  | nil => exact ⟨bare, rfl⟩
  | cons entry rest inductionHypothesis =>
      have ordinary := unmarked entry List.mem_cons_self
      have restUnmarked : Mapping.Unmarked rest :=
        fun other member => unmarked other (List.mem_cons_of_mem _ member)
      have names : namesOf (Mapping.keys (entry :: rest)) =
          [entry.1.text] ++ namesOf (Mapping.keys rest) := by
        simp [namesOf, Mapping.keys, ordinary]
      obtain ⟨restBare, current⟩ := inductionHypothesis restUnmarked (bare.start entry.1.text)
      rw [List.foldl_cons, step_of_ordinary scan ordinary]
      refine ⟨restBare, ?_⟩
      rw [current, current_start, names, List.getLast?_append]
      cases (namesOf (Mapping.keys rest)).getLast? <;> rfl

/-- A job that has no lines has no lines to look up. -/
theorem Bare.linesOf?_eq_none {scan : JobScan} (bare : scan.Bare) (name : String) :
    linesOf? scan.jobs name = none := by
  rw [linesOf?]
  cases found : scan.jobs.find? (·.name == name) with
  | none => rfl
  | some job =>
      rw [bare.bare job (List.mem_of_find?_eq_some found)]
      rfl

/-- A start and an end marker give the current job its lines, when both are line numbers. -/
theorem Bare.linesOf?_markers {scan : JobScan} (bare : scan.Bare) (start stop : Node)
    (name : String) :
    linesOf? ((scan.step (.startLine, start)).step (.endLine, stop)).jobs name =
      if scan.current = some name then
        (do return (← start.line?, ← stop.line?))
      else none := by
  have found? : ((scan.step (.startLine, start)).step (.endLine, stop)).jobs.find?
      (·.name == name) = (scan.jobs.find? (·.name == name)).map fun job =>
        if scan.current = some name then
          { job with startLine := start.line?, endLine := stop.line? }
        else job := by
    have atStart := scan.find?_update (fun job => { job with startLine := start.line? })
      (fun _ => rfl) name
    have atStop := (scan.step (.startLine, start)).find?_update
      (fun job => { job with endLine := stop.line? }) (fun _ => rfl) name
    have current : (scan.step (.startLine, start)).current = scan.current :=
      scan.current_update _
    refine atStop.trans ?_
    rw [current, step, atStart, Option.map_map]
    congr 1
    funext job
    by_cases isCurrent : scan.current = some name <;> simp [isCurrent]
  by_cases isCurrent : scan.current = some name
  · obtain ⟨job, member, named⟩ := List.mem_map.mp (bare.current_mem name isCurrent)
    obtain ⟨own, found⟩ : ∃ own, scan.jobs.find? (·.name == name) = some own :=
      Option.isSome_iff_exists.mp (List.find?_isSome.mpr ⟨job, member, by simp [named]⟩)
    rw [if_pos isCurrent, linesOf?, found?, found]
    simp only [if_pos isCurrent]
    rfl
  · rw [if_neg isCurrent, ← bare.linesOf?_eq_none name, linesOf?, linesOf?, found?]
    simp only [if_neg isCurrent, Option.map_id']

end JobScan

/-- In a mapping of jobs with its markers behind all other entries, the job of the last key gets the
    lines of the whole mapping, and no other job gets any. -/
theorem linesOf?_jobsOf {document : Node} {jobs : Mapping}
    (mapping : document.get? "jobs" = some (.map jobs)) (last : jobs.LinesLast) (name : String) :
    linesOf? (jobsOf document) name =
      if (namesOf jobs.keys).getLast? = some name then jobs.lineRange? else none := by
  have jobsEq : jobsOf document = (jobs.foldl JobScan.step {}).jobs := by
    rw [jobsOf, mapping]
    rfl
  have empty : JobScan.Bare {} := by
    constructor
    · intro job member
      cases member
    · intro other current
      cases current
  rw [jobsEq]
  rcases last with unmarked | ⟨own, start, stop, unmarked, rfl⟩
  · obtain ⟨bare, _⟩ := JobScan.foldl_of_unmarked unmarked empty
    rw [bare.linesOf?_eq_none, Mapping.lineRange?_of_unmarked unmarked, ite_self]
  · obtain ⟨bare, current⟩ := JobScan.foldl_of_unmarked unmarked empty
    have ownNames : namesOf (Mapping.keys (own ++ [(.startLine, start), (.endLine, stop)])) =
        namesOf own.keys := by
      simp [namesOf, Mapping.keys, Key.isMarker]
    have range : Mapping.lineRange? (own ++ [(.startLine, start), (.endLine, stop)]) =
        (do return (← start.line?, ← stop.line?)) := by
      rw [Mapping.lineRange?, Mapping.startLine?, Mapping.endLine?,
        Mapping.get?_append_of_unmarked unmarked rfl, Mapping.get?_append_of_unmarked unmarked rfl]
      rfl
    rw [List.foldl_append, List.foldl_cons, List.foldl_cons, List.foldl_nil,
      bare.linesOf?_markers, current, Option.or_none, ownNames, range]

/-- A job of this name stands in a mapping of jobs, and the other mapping is the value of another
    one. -/
def IsOtherJob (jobs : Mapping) (name : String) (other : Mapping) : Prop :=
  ∃ (place otherPlace : Nat) (key otherKey : Key) (value : Node), place ≠ otherPlace ∧
    jobs[place]? = some (key, value) ∧ key.isMarker = false ∧ key.text = name ∧
    jobs[otherPlace]? = some (otherKey, .map other)

/-- No line is in both ranges. -/
def Apart (range other : Nat × Nat) : Prop :=
  ∀ line, range.1 ≤ line → line ≤ range.2 → ¬ (other.1 ≤ line ∧ line ≤ other.2)

/-- The lines of a job are its own: those that a job gets are apart from those that the mapping of
    any other job carries. -/
def JobLinesApart (document : Node) : Prop :=
  ∀ jobs name other, document.get? "jobs" = some (.map jobs) → IsOtherJob jobs name other →
    ∀ range otherRange, linesOf? (jobsOf document) name = some range →
      Mapping.lineRange? other = some otherRange → Apart range otherRange

/-- Of two ranges that start in this order, the first one ends in front of the other one. -/
theorem apart_iff {first last start stop : Nat} (starts : first < start)
    (order : start ≤ stop) : Apart (first, last) (start, stop) ↔ last < start := by
  constructor
  · intro apart
    by_contra reaches
    exact apart start (Nat.le_of_lt starts) (Nat.le_of_not_lt reaches) ⟨Nat.le_refl _, order⟩
  · intro ends line _ inFirst inOther
    exact Nat.lt_irrefl _ (Nat.lt_of_le_of_lt inFirst (Nat.lt_of_lt_of_le ends inOther.1))

end Pipeline

/-- A value under a string key occurs in the node. -/
theorem Node.within_of_get? {node value : Node} {key : String}
    (found : node.get? key = some value) : Node.Within value node := by
  obtain ⟨entries, isMapping, looked⟩ := Option.bind_eq_some_iff.mp found
  obtain ⟨⟨other, held⟩, first, rfl⟩ := Option.map_eq_some_iff.mp looked
  rw [Node.mapping?_eq_some.mp isMapping]
  exact .entry (List.mem_of_find?_eq_some first) .here

namespace ParsedFile

open Pipeline

variable {text : String} {file : ParsedFile} {jobs : Mapping}

/-- In the document of a text the job of the last key gets the lines of the mapping of jobs, and no
    other job gets any. -/
theorem linesOf?_jobsOf (parsed : ParsedFile.ofYaml? text = some file)
    (mapping : file.document.get? "jobs" = some (.map jobs)) (name : String) :
    linesOf? (jobsOf file.document) name =
      if (namesOf jobs.keys).getLast? = some name then jobs.lineRange? else none := by
  obtain ⟨value, _, documentEq, _⟩ := ParsedFile.ofYaml?_eq_some parsed
  have within := Node.within_of_get? mapping
  rw [documentEq] at within
  obtain ⟨_, _, image⟩ := Yaml.Value.image_of_within_mark _ 0 0 true value within
  exact Pipeline.linesOf?_jobsOf mapping image.last name

/-- The lines of the mapping of jobs are apart from those of the mapping of a job exactly when a
    line with content between their first lines is indented less than the first job. -/
theorem apart_iff_of_isOtherJob (parsed : ParsedFile.ofYaml? text = some file)
    (small : file.lines.length < 2 ^ 63)
    (mapping : file.document.get? "jobs" = some (.map jobs)) {name : String} {other : Mapping}
    (isOther : IsOtherJob jobs name other) {first last start stop : Nat}
    (range : jobs.lineRange? = some (first, last))
    (otherRange : other.lineRange? = some (start, stop)) :
    Apart (first, last) (start, stop) ↔
      ¬ Yaml.IndentedFrom (Text.lines text.toList) first start := by
  obtain ⟨_, place, _, otherKey, _, _, _, _, _, found⟩ := isOther
  obtain ⟨starts, order, apart⟩ := ParsedFile.nested_lines_apart_iff parsed small
    (Node.within_of_get? mapping) (List.mem_of_getElem? found) .here range otherRange
  exact (apart_iff starts order).trans apart

/-- The lines of jobs are apart exactly when the mapping of jobs carries no lines, or behind its
    first line and up to that of every mapping of another job than the last one, a line with content
    is indented less than the first job. -/
theorem jobLinesApart_iff (parsed : ParsedFile.ofYaml? text = some file)
    (small : file.lines.length < 2 ^ 63) :
    JobLinesApart file.document ↔
      ∀ jobs name other, file.document.get? "jobs" = some (.map jobs) →
        IsOtherJob jobs name other → (namesOf (Mapping.keys jobs)).getLast? = some name →
          ∀ first last start stop, Mapping.lineRange? jobs = some (first, last) →
            Mapping.lineRange? other = some (start, stop) →
              ¬ Yaml.IndentedFrom (Text.lines text.toList) first start := by
  constructor
  · intro apart jobs name other mapping isOther isLast first last start stop range otherRange
    apply (apart_iff_of_isOtherJob parsed small mapping isOther range otherRange).mp
    apply apart jobs name other mapping isOther (first, last) (start, stop) ?_ otherRange
    rw [linesOf?_jobsOf parsed mapping, if_pos isLast, range]
  · rintro shallow jobs name other mapping isOther ⟨first, last⟩ ⟨start, stop⟩ lines otherRange
    rw [linesOf?_jobsOf parsed mapping] at lines
    split at lines
    · next isLast =>
      apply (apart_iff_of_isOtherJob parsed small mapping isOther lines otherRange).mpr
      exact shallow jobs name other mapping isOther isLast _ _ _ _ lines otherRange
    · cases lines

/-- The last job may have the lines of all jobs when it holds the only mapping among them. -/
theorem jobLinesApart_iff_two :
    let text := "jobs:\n  lint: 1\n  build:\n    x: 2\n"
    ∃ file, ParsedFile.ofYaml? text = some file ∧ file.lines.length < 2 ^ 63 ∧
      (JobLinesApart file.document ↔
        ∀ jobs name other, file.document.get? "jobs" = some (.map jobs) →
          IsOtherJob jobs name other → (namesOf (Mapping.keys jobs)).getLast? = some name →
            ∀ first last start stop, Mapping.lineRange? jobs = some (first, last) →
              Mapping.lineRange? other = some (start, stop) →
                ¬ Yaml.IndentedFrom (Text.lines text.toList) first start) ∧
      JobLinesApart file.document := by
  intro text
  have isRead : Yaml.Value.ofText? text.toList = some (.map [(.str "jobs",
      .map [(.str "lint", .int 1), (.str "build", .map [(.str "x", .int 2)])])]) := by cbv
  obtain ⟨file, parsed⟩ : ∃ file, ParsedFile.ofYaml? text = some file :=
    Option.isSome_iff_exists.mp (by decide +kernel)
  obtain ⟨value, read, documentEq, linesEq⟩ := ParsedFile.ofYaml?_eq_some parsed
  have small : file.lines.length < 2 ^ 63 := by
    rw [linesEq]
    decide +kernel
  have marked : (Yaml.Value.map [(.str "jobs",
        .map [(.str "lint", .int 1), (.str "build", .map [(.str "x", .int 2)])])]).node
          (Text.lines "jobs:\n  lint: 1\n  build:\n    x: 2\n".toList) =
      .map (Mapping.withLines [(.str "jobs", .map (Mapping.withLines [(.str "lint", .int 1),
        (.str "build", .map (Mapping.withLines [(.str "x", .int 2)] 4 4))] 2 4))] 1 4) := rfl
  have apart_iff := ParsedFile.jobLinesApart_iff parsed small
  refine ⟨file, parsed, small, apart_iff, apart_iff.mpr ?_⟩
  obtain rfl := Option.some.inj (isRead.symm.trans read)
  rw [documentEq, marked]
  intro jobs name other mapping isOther isLast
  obtain ⟨place, otherPlace, key, otherKey, held, apart, found, ordinary, named, foundOther⟩ :=
    isOther
  obtain rfl : _ = jobs := Node.map.inj (Option.some.inj mapping)
  obtain rfl : "build" = name := Option.some.inj isLast
  have places : ∀ {place : Nat} {entry : Key × Node},
      (Mapping.withLines [(.str "lint", .int 1),
        (.str "build", .map (Mapping.withLines [(.str "x", .int 2)] 4 4))] 2 4)[place]? =
        some entry → place = 0 ∨ place = 1 ∨ place = 2 ∨ place = 3 := by
    intro place entry held
    have inside : place < 4 := (List.getElem?_eq_some_iff.mp held).1
    omega
  -- the only mapping is the value of `build`, and only that job is of this name
  rcases places foundOther with rfl | rfl | rfl | rfl
  · cases foundOther
  · rcases places found with rfl | rfl | rfl | rfl
    · cases found
      exact absurd named (by decide)
    · exact absurd rfl apart
    · cases found
      exact absurd ordinary (by decide)
    · cases found
      exact absurd ordinary (by decide)
  · cases foundOther
  · cases foundOther

/-- With two jobs the last one gets the lines of both, among them those of the first one. -/
theorem not_jobLinesApart_of_two_jobs :
    ∃ file, ParsedFile.ofYaml? "jobs:\n  a:\n    x: 1\n  b:\n    y: 2\n" = some file ∧
      ¬ JobLinesApart file.document := by
  have read : Yaml.Value.ofText? "jobs:\n  a:\n    x: 1\n  b:\n    y: 2\n".toList =
      some (.map [(.str "jobs",
        .map [(.str "a", .map [(.str "x", .int 1)]), (.str "b", .map [(.str "y", .int 2)])])]) := by
    cbv
  have marked : (Yaml.Value.map [(.str "jobs",
        .map [(.str "a", .map [(.str "x", .int 1)]), (.str "b", .map [(.str "y", .int 2)])])]).node
          (Text.lines "jobs:\n  a:\n    x: 1\n  b:\n    y: 2\n".toList) =
      .map (Mapping.withLines [(.str "jobs", .map (Mapping.withLines
        [(.str "a", .map (Mapping.withLines [(.str "x", .int 1)] 3 3)),
          (.str "b", .map (Mapping.withLines [(.str "y", .int 2)] 5 5))] 2 5))] 1 5) := rfl
  obtain ⟨file, parsed⟩ : ∃ file,
      ParsedFile.ofYaml? "jobs:\n  a:\n    x: 1\n  b:\n    y: 2\n" = some file :=
    Option.isSome_iff_exists.mp (by decide +kernel)
  obtain ⟨value, own, documentEq, _⟩ := ParsedFile.ofYaml?_eq_some parsed
  rw [read] at own
  cases own
  rw [marked] at documentEq
  refine ⟨file, parsed, ?_⟩
  rw [documentEq]
  intro apart
  exact apart _ "b" (Mapping.withLines [(.str "x", .int 1)] 3 3) rfl
    ⟨1, 0, .str "b", .str "a", _, by decide, rfl, rfl, rfl, rfl⟩ (2, 5) (3, 3)
    (by decide +kernel) (by decide +kernel) 3 (by decide) (by decide) (by decide)

end ParsedFile

end ConfigScan
