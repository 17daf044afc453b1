/-
Module: ConfigScan.Proofs.Pipeline.Attribution
Purpose: What the mapping of jobs of a pipeline means, whatever keys and line markers it holds: there
  is one job for each name, and a job has the lines of the markers between the last key of its name
  and the next key.
Main exports: Pipeline.jobEntries?, Pipeline.markersOf, Pipeline.lastLine?, Pipeline.declaredJobs,
  Pipeline.JobScan.Reads, Pipeline.jobsOf_eq_declaredJobs
-/
import ConfigScan.Proofs.Pipeline.JobLines
import Mathlib.Data.List.DropRight

namespace ConfigScan.Pipeline

/-- The entries of the mapping under the first string key `jobs` of a mapping. -/
def jobEntries? : Node → Option Mapping
  | .map entries =>
      match entries.find? fun entry => entry.1 = .str "jobs" with
      | some (_, .map jobs) => some jobs
      | _ => none
  | _ => none

/-- The entry mentions the job of this name: its key is no marker and is shown as the name. -/
def mentions (name : String) (entry : Key × Node) : Bool :=
  !entry.1.isMarker && entry.1.text == name

/-- The markers of a job: they stand behind the last entry that mentions it, and in front of the
    next key. -/
def markersOf (entries : Mapping) (name : String) : Mapping :=
  (entries.rtakeWhile fun entry => !mentions name entry).takeWhile (·.1.isMarker)

/-- The line in the last marker of a kind. There is none when that marker holds anything else than
    an integer that is not below zero. -/
def lastLine? (markers : Mapping) (kind : Key) : Option Nat :=
  match markers.reverse.find? fun entry => entry.1 = kind with
  | some (_, .int n) => if 0 ≤ n then some n.toNat else none
  | _ => none

/-- The job of a name, with the lines in its markers. -/
def declaredJob (entries : Mapping) (name : String) : Job :=
  { name
    startLine := lastLine? (markersOf entries name) .startLine
    endLine := lastLine? (markersOf entries name) .endLine }

/-- The jobs of a mapping: one for each name, in the order of first mention. -/
def declaredJobs (entries : Mapping) : List Job :=
  (namesOf entries.keys).eraseDups.map (declaredJob entries)

/-- The entries of a mapping that are no markers. -/
def withoutMarkers (entries : Mapping) : Mapping := entries.filter (!·.1.isMarker)

/-! ### The markers of a job -/

section

variable {front markers : Mapping} {key : Key} {value : Node}

theorem takeWhile_append_cons_of_neg {α : Type} {p : α → Bool} (list rest : List α) {a : α}
    (stops : p a = false) : (list ++ a :: rest).takeWhile p = list.takeWhile p := by
  induction list with
  | nil => exact List.takeWhile_cons_of_neg (by simp [stops])
  | cons head others inductionHypothesis =>
      rw [List.cons_append, List.takeWhile_cons, List.takeWhile_cons, inductionHypothesis]

/-- Behind a key and markers the markers are those of the job that the key mentions. The other jobs
    have the markers that they had in front of the key. -/
theorem markersOf_append_key (ordinary : key.isMarker = false)
    (areMarkers : ∀ entry ∈ markers, entry.1.isMarker = true) (name : String) :
    markersOf (front ++ (key, value) :: markers) name =
      if key.text = name then markers else markersOf front name := by
  have passed : ∀ entry ∈ markers.reverse, (!mentions name entry) = true := by
    intro entry member
    simp [mentions, areMarkers entry (List.mem_reverse.mp member)]
  have behind : (front ++ (key, value) :: markers).rtakeWhile (fun entry => !mentions name entry) =
      (front ++ [(key, value)]).rtakeWhile (fun entry => !mentions name entry) ++ markers := by
    rw [← List.singleton_append, ← List.append_assoc, List.rtakeWhile, List.reverse_append,
      List.takeWhile_append_of_pos passed, List.reverse_append, List.reverse_reverse]
    rfl
  rw [markersOf, behind, List.rtakeWhile_concat]
  by_cases mentioned : key.text = name
  · have isMention : mentions name (key, value) = true := by simp [mentions, ordinary, mentioned]
    rw [isMention, if_neg (by decide), if_pos mentioned, List.nil_append,
      List.takeWhile_eq_self_iff.mpr areMarkers]
  · have noMention : mentions name (key, value) = false := by simp [mentions, mentioned]
    rw [noMention, if_pos (by decide), if_neg mentioned, List.append_assoc, List.singleton_append]
    exact takeWhile_append_cons_of_neg _ _ ordinary

theorem line?_of_int (n : Int) : (Node.int n).line? = if 0 ≤ n then some n.toNat else none := by
  cases n <;> rfl

/-- One more marker is the last one of its kind. -/
theorem lastLine?_concat (marker kind : Key) :
    lastLine? (markers ++ [(marker, value)]) kind =
      if marker = kind then value.line? else lastLine? markers kind := by
  by_cases same : marker = kind
  · rw [lastLine?, List.reverse_concat, List.find?_cons_of_pos (by simp [same]), if_pos same]
    cases value with
    | int n => exact (line?_of_int n).symm
    | _ => rfl
  · rw [lastLine?, List.reverse_concat, List.find?_cons_of_neg (by simp [same]), if_neg same]
    rfl

/-- The key that mentions the last name has only markers behind it. -/
theorem exists_last_mention {entries : Mapping} {name : String}
    (last : (namesOf entries.keys).getLast? = some name) :
    ∃ front key value markers, entries = front ++ (key, value) :: markers ∧
      key.isMarker = false ∧ key.text = name ∧ ∀ entry ∈ markers, entry.1.isMarker = true := by
  induction entries using List.reverseRecOn with
  | nil => cases last
  | append_singleton entries entry inductionHypothesis =>
      obtain ⟨key, value⟩ := entry
      cases marker : key.isMarker with
      | false =>
          have isLast : key.text = name := by simpa [namesOf, Mapping.keys, marker] using last
          exact ⟨entries, key, value, [], rfl, marker, isLast, by simp⟩
      | true =>
          have inFront : (namesOf (Mapping.keys entries)).getLast? = some name := by
            simpa [namesOf, Mapping.keys, marker] using last
          obtain ⟨front, ownKey, ownValue, markers, rfl, ordinary, text, areMarkers⟩ :=
            inductionHypothesis inFront
          refine ⟨front, ownKey, ownValue, markers ++ [(key, value)], by simp, ordinary, text, ?_⟩
          intro entry member
          rcases List.mem_append.mp member with earlier | isNew
          · exact areMarkers entry earlier
          · rw [List.mem_singleton.mp isNew]
            exact marker

end

/-! ### The jobs behind a run of entries -/

theorem namesOf_concat (entries : Mapping) (key : Key) (value : Node) :
    namesOf (Mapping.keys (entries ++ [(key, value)])) =
      namesOf entries.keys ++ if key.isMarker then [] else [key.text] := by
  cases marker : key.isMarker <;> simp [namesOf, Mapping.keys, marker]

/-- A job that a new key mentions has no lines, and the others are as they were. -/
theorem declaredJob_concat_key {key : Key} (ordinary : key.isMarker = false) (entries : Mapping)
    (value : Node) (name : String) :
    declaredJob (entries ++ [(key, value)]) name =
      if key.text = name then { name } else declaredJob entries name := by
  rw [declaredJob, markersOf_append_key ordinary (by simp)]
  by_cases mentioned : key.text = name
  · rw [if_pos mentioned, if_pos mentioned]
    rfl
  · rw [if_neg mentioned, if_neg mentioned]
    rfl

/-- A new marker belongs to the job mentioned last. -/
theorem declaredJob_concat_marker {entries : Mapping} {current : String}
    (last : (namesOf entries.keys).getLast? = some current) {marker : Key}
    (isMarker : marker.isMarker = true) (value : Node) (name : String) :
    declaredJob (entries ++ [(marker, value)]) name =
      if current = name then
        { name
          startLine := if marker = .startLine then value.line?
            else (declaredJob entries name).startLine
          endLine := if marker = .endLine then value.line?
            else (declaredJob entries name).endLine }
      else declaredJob entries name := by
  obtain ⟨front, key, keyValue, markers, rfl, ordinary, text, areMarkers⟩ :=
    exists_last_mention last
  have allMarkers : ∀ entry ∈ markers ++ [(marker, value)], entry.1.isMarker = true := by
    intro entry member
    rcases List.mem_append.mp member with earlier | isNew
    · exact areMarkers entry earlier
    · rw [List.mem_singleton.mp isNew]
      exact isMarker
  simp only [declaredJob, List.append_assoc, List.cons_append]
  rw [markersOf_append_key ordinary allMarkers, markersOf_append_key ordinary areMarkers, text]
  by_cases isCurrent : current = name
  · simp only [if_pos isCurrent, lastLine?_concat]
  · simp only [if_neg isCurrent]

/-- The names of the jobs are those of the entries that are no markers. -/
theorem names_declaredJobs (entries : Mapping) :
    (declaredJobs entries).map Job.name =
      ((withoutMarkers entries).map fun entry => entry.1.text).eraseDups := by
  have names : namesOf entries.keys = (withoutMarkers entries).map fun entry => entry.1.text := by
    simp only [namesOf, Mapping.keys, withoutMarkers, List.filter_map, List.map_map]
    rfl
  rw [declaredJobs, List.map_map, ← names]
  exact List.map_id _

namespace JobScan

/-- What a scan of jobs has read from entries: the jobs that they declare, the last of which is the
    current one. -/
structure Reads (scan : JobScan) (entries : Mapping) : Prop where
  jobs : scan.jobs = declaredJobs entries
  current : scan.current = (namesOf entries.keys).getLast?

theorem Reads.nil : Reads {} [] where
  jobs := rfl
  current := rfl

variable {scan : JobScan} {entries : Mapping}

theorem Reads.any_name (reads : scan.Reads entries) (name : String) :
    scan.jobs.any (·.name == name) = (namesOf entries.keys).contains name := by
  rw [reads.jobs, declaredJobs, List.any_map, Bool.eq_iff_iff]
  simp [declaredJob]

theorem Reads.key (reads : scan.Reads entries) {key : Key} (ordinary : key.isMarker = false)
    (value : Node) : (scan.start key.text).Reads (entries ++ [(key, value)]) where
  jobs := by
    have declared : declaredJobs (entries ++ [(key, value)]) =
        ((namesOf entries.keys).eraseDups ++
            ([key.text].removeAll (namesOf entries.keys)).eraseDups).map fun name =>
          if key.text = name then { name } else declaredJob entries name := by
      rw [declaredJobs, namesOf_concat, ordinary, if_neg Bool.false_ne_true, List.eraseDups_append]
      exact List.map_congr_left fun name _ => declaredJob_concat_key ordinary entries value name
    rw [start, reads.any_name, declared]
    by_cases met : (namesOf entries.keys).contains key.text = true
    · have noneNew : [key.text].removeAll (namesOf entries.keys) = [] := by
        simp [List.removeAll, List.contains_iff_mem.mp met]
      rw [if_pos met, update, noneNew]
      simp only [reads.jobs, declaredJobs, List.map_map, List.eraseDups_nil, List.append_nil]
      apply List.map_congr_left
      intro name _
      by_cases same : name = key.text
      · simp [declaredJob, same]
      · simp [declaredJob, same, Ne.symm same]
    · have isNew : [key.text].removeAll (namesOf entries.keys) = [key.text] := by
        have notMember : key.text ∉ namesOf entries.keys :=
          fun member => met (List.contains_iff_mem.mpr member)
        simp [List.removeAll, notMember]
      have others : (namesOf entries.keys).eraseDups.map (declaredJob entries) =
          (namesOf entries.keys).eraseDups.map fun name =>
            if key.text = name then { name } else declaredJob entries name := by
        apply List.map_congr_left
        intro name member
        have other : key.text ≠ name := by
          rintro rfl
          exact met (List.contains_iff_mem.mpr (List.mem_eraseDups.mp member))
        rw [if_neg other]
      rw [if_neg met, isNew, reads.jobs, declaredJobs, List.map_append, ← others]
      simp [List.eraseDups_cons]
  current := by
    rw [current_start, namesOf_concat, ordinary, if_neg Bool.false_ne_true, List.getLast?_concat]

/-- A marker sets the line of its kind for the current job. -/
theorem step_of_marker (scan : JobScan) {marker : Key} (isMarker : marker.isMarker = true)
    (value : Node) :
    scan.step (marker, value) = scan.update fun job =>
      { job with
        startLine := if marker = .startLine then value.line? else job.startLine
        endLine := if marker = .endLine then value.line? else job.endLine } := by
  cases marker with
  | startLine => rfl
  | endLine => rfl
  | str text => cases isMarker
  | bool value => cases isMarker
  | int value => cases isMarker

theorem Reads.marker (reads : scan.Reads entries) {marker : Key} (isMarker : marker.isMarker = true)
    (value : Node) : (scan.step (marker, value)).Reads (entries ++ [(marker, value)]) where
  jobs := by
    rw [step_of_marker scan isMarker, update, reads.current, declaredJobs, namesOf_concat,
      if_pos isMarker, List.append_nil]
    cases last : (namesOf entries.keys).getLast? with
    | none =>
        rw [List.getLast?_eq_none_iff] at last
        rw [reads.jobs, declaredJobs, last]
        rfl
    | some current =>
        simp only [reads.jobs, declaredJobs, List.map_map]
        apply List.map_congr_left
        intro name _
        rw [declaredJob_concat_marker last isMarker]
        by_cases isCurrent : current = name
        · simp [declaredJob, isCurrent]
        · simp [declaredJob, isCurrent, Ne.symm isCurrent]
  current := by
    rw [step_of_marker scan isMarker, current_update, reads.current, namesOf_concat,
      if_pos isMarker, List.append_nil]

/-- One more entry is read. -/
theorem Reads.step (reads : scan.Reads entries) (entry : Key × Node) :
    (scan.step entry).Reads (entries ++ [entry]) := by
  obtain ⟨key, value⟩ := entry
  cases marker : key.isMarker with
  | true => exact reads.marker marker value
  | false =>
      rw [step_of_ordinary scan marker]
      exact reads.key marker value

/-- A scan of a mapping of jobs reads all its entries. -/
theorem reads_foldl (entries : Mapping) : (entries.foldl JobScan.step {}).Reads entries := by
  induction entries using List.reverseRecOn with
  | nil => exact .nil
  | append_singleton entries entry inductionHypothesis =>
      rw [List.foldl_append]
      exact inductionHypothesis.step entry

/-- Markers without a job in front of them are passed over. -/
theorem foldl_of_markers {lead : Mapping} (areMarkers : ∀ entry ∈ lead, entry.1.isMarker = true) :
    lead.foldl JobScan.step {} = {} := by
  induction lead with
  | nil => rfl
  | cons entry rest inductionHypothesis =>
      obtain ⟨isMarker, restMarkers⟩ := List.forall_mem_cons.mp areMarkers
      obtain ⟨key, value⟩ := entry
      rw [List.foldl_cons, step_of_marker {} isMarker]
      exact inductionHypothesis restMarkers

end JobScan

/-- The mapping of jobs is what a look-up of the key finds. -/
theorem jobEntries?_eq (document : Node) :
    jobEntries? document = (document.get? "jobs").bind Node.mapping? := by
  cases document with
  | map entries =>
      have sameEntry : (entries.find? fun entry => entry.1 = .str "jobs") =
          entries.find? (·.1 == .str "jobs") := rfl
      rw [jobEntries?, Node.get?, Node.mapping?, Option.bind_some, Mapping.getStr?, Mapping.get?,
        sameEntry]
      cases entries.find? (·.1 == .str "jobs") with
      | none => rfl
      | some entry =>
          obtain ⟨key, value⟩ := entry
          cases value <;> rfl
  | _ => rfl

theorem jobsOf_eq_scan (document : Node) :
    jobsOf document =
      (jobEntries? document).elim [] fun entries => (entries.foldl JobScan.step {}).jobs := by
  rw [jobsOf, jobEntries?_eq]
  cases (document.get? "jobs").bind Node.mapping? <;> rfl

theorem jobsOf_eq_elim (document : Node) :
    jobsOf document = (jobEntries? document).elim [] declaredJobs := by
  rw [jobsOf_eq_scan]
  cases jobEntries? document with
  | none => rfl
  | some entries => exact (JobScan.reads_foldl entries).jobs

/-- The jobs of a pipeline are those that the mapping of jobs declares, and there are none without
    such a mapping. Markers in front of all other entries have no effect on them, and no markers have
    any on their names and their order. -/
theorem jobsOf_eq_declaredJobs (document : Node) :
    jobsOf document = (jobEntries? document).elim [] declaredJobs ∧
      (∀ other lead, (∀ entry ∈ lead, entry.1.isMarker = true) →
        jobEntries? other = (jobEntries? document).map (lead ++ ·) →
          jobsOf other = jobsOf document) ∧
      ∀ other, (jobEntries? other).map withoutMarkers = (jobEntries? document).map withoutMarkers →
        (jobsOf other).map Job.name = (jobsOf document).map Job.name := by
  refine ⟨jobsOf_eq_elim document, ?_, ?_⟩
  · intro other lead areMarkers inFront
    rw [jobsOf_eq_scan other, jobsOf_eq_scan document, inFront]
    cases jobEntries? document with
    | none => rfl
    | some entries =>
        simp only [Option.map_some, Option.elim_some, List.foldl_append,
          JobScan.foldl_of_markers areMarkers]
  · intro other sameKeys
    rw [jobsOf_eq_elim other, jobsOf_eq_elim document]
    cases own : jobEntries? document with
    | none =>
        rw [own, Option.map_none, Option.map_eq_none_iff] at sameKeys
        rw [sameKeys]
    | some entries =>
        rw [own, Option.map_some] at sameKeys
        obtain ⟨others, otherEntries, same⟩ := Option.map_eq_some_iff.mp sameKeys
        rw [otherEntries, Option.elim_some, Option.elim_some, names_declaredJobs,
          names_declaredJobs, same]

/-- The text `true` and the truth value name one job. The lines in front of the later key are
    forgotten, and a marker without a line number undoes the one before. -/
example :
    declaredJobs [(.str "true", .null), (.startLine, .int 3), (.bool true, .null),
      (.startLine, .int 5), (.endLine, .int 6), (.startLine, .int (-1))] =
        [{ name := "true", startLine := none, endLine := some 6 }] := by decide +kernel

end ConfigScan.Pipeline
