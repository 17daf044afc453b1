/-
Module: ConfigScan.Proofs.Runner.Scanned
Purpose: The files that a run scans: the accepted ones among the paths given and the paths found
  below the root, each path once. The report is about them, one file after another.
Main exports: LoadedFiles.Covers, Runner.candidates, Runner.scanned, Runner.covers_scanned,
  Runner.findings_of_run
-/
import ConfigScan.Proofs.PathFilter
import ConfigScan.Proofs.Runner

namespace ConfigScan

namespace LoadedFiles

variable {paths : List Path} {all : List (Path × ParsedFile)} {path : Path} {file : ParsedFile}

/-- The entries are in path order, and their keys are the given paths, each in one of its
    spellings. -/
structure Covers (paths : List Path) (all : List (Path × ParsedFile)) : Prop where
  sorted : all.Pairwise fun entry later => entry.1.lt later.1 = true
  given : ∀ entry ∈ all, entry.1 ∈ paths
  met : ∀ path ∈ paths, ∃ entry ∈ all, entry.1.same path = true

theorem Covers.nil : Covers [] [] where
  sorted := List.Pairwise.nil
  given := by simp
  met := by simp

/-- A file under a path that is there already changes no key. -/
theorem keys_put_of_met (file : ParsedFile)
    (sorted : all.Pairwise fun entry later => entry.1.lt later.1 = true)
    (met : ∃ entry ∈ all, entry.1.same path = true) :
    (put path file all).map Prod.fst = all.map Prod.fst := by
  induction all with
  | nil =>
      obtain ⟨_, member, _⟩ := met
      cases member
  | cons head rest inductionHypothesis =>
      obtain ⟨other, old⟩ := head
      obtain ⟨inFront, restSorted⟩ := List.pairwise_cons.mp sorted
      obtain ⟨entry, member, same⟩ := met
      rw [put]
      rcases List.mem_cons.mp member with isFirst | later
      · rw [isFirst] at same
        have sameBack : path.same other = true := Path.same_iff.mpr (Path.same_iff.mp same).symm
        rw [if_neg (Path.not_lt_of_same sameBack), if_neg (Path.not_lt_of_same same)]
        simp
      · have before : other.places < path.places := by
          rw [← Path.same_iff.mp same]
          exact Path.lt_iff.mp (inFront entry later)
        have notBehind : ¬ path.lt other = true :=
          fun behind => lt_asymm before (Path.lt_iff.mp behind)
        rw [if_neg notBehind, if_pos (Path.lt_iff.mpr before), List.map_cons, List.map_cons,
          inductionHypothesis restSorted ⟨entry, later, same⟩]

theorem Covers.put_of_met (covers : Covers paths all) (file : ParsedFile)
    (met : ∃ entry ∈ all, entry.1.same path = true) :
    Covers (paths ++ [path]) (put path file all) := by
  have keys := keys_put_of_met file covers.sorted met
  have keyOf : ∀ key, (∃ entry ∈ LoadedFiles.put path file all, entry.1 = key) ↔
      ∃ entry ∈ all, entry.1 = key := by
    intro key
    rw [← List.mem_map, ← List.mem_map, keys]
  constructor
  case sorted =>
    have sortedKeys : (all.map Prod.fst).Pairwise fun key later => key.lt later = true :=
      List.pairwise_map.mpr covers.sorted
    rw [← keys] at sortedKeys
    exact List.pairwise_map.mp sortedKeys
  case given =>
    intro entry member
    obtain ⟨old, oldMember, key⟩ := (keyOf entry.1).mp ⟨entry, member, rfl⟩
    rw [← key]
    exact List.mem_append_left _ (covers.given old oldMember)
  case met =>
    intro other member
    have inOld : ∃ entry ∈ all, entry.1.same other = true := by
      rcases List.mem_append.mp member with inFront | isLast
      · exact covers.met other inFront
      · rw [List.mem_singleton.mp isLast]
        exact met
    obtain ⟨old, oldMember, same⟩ := inOld
    obtain ⟨entry, entryMember, key⟩ := (keyOf old.1).mpr ⟨old, oldMember, rfl⟩
    exact ⟨entry, entryMember, key ▸ same⟩

theorem Covers.put_of_new (covers : Covers paths all) (file : ParsedFile)
    (new : ∀ entry ∈ all, entry.1.same path = false) :
    Covers (paths ++ [path]) (put path file all) := by
  constructor
  case sorted => exact sorted_put_of_new covers.sorted new
  case given =>
    intro entry member
    rcases (mem_put_of_new new entry).mp member with isNew | old
    · simp [isNew]
    · exact List.mem_append_left _ (covers.given entry old)
  case met =>
    intro other member
    rcases List.mem_append.mp member with inFront | isLast
    · obtain ⟨entry, old, same⟩ := covers.met other inFront
      exact ⟨entry, (mem_put_of_new new entry).mpr (Or.inr old), same⟩
    · rw [List.mem_singleton.mp isLast]
      exact ⟨(path, file), (mem_put_of_new new _).mpr (Or.inl rfl), Path.same_self path⟩

/-- One more file covers one more path, be it a new one or another spelling of an old one. -/
theorem Covers.put (covers : Covers paths all) (path : Path) (file : ParsedFile) :
    Covers (paths ++ [path]) (put path file all) := by
  by_cases met : ∃ entry ∈ all, entry.1.same path = true
  · exact covers.put_of_met file met
  · exact covers.put_of_new file fun entry member =>
      Bool.eq_false_iff.mpr fun same => met ⟨entry, member, same⟩

theorem Covers.putAll (covers : Covers paths all) (files : List (Path × ParsedFile)) :
    Covers (paths ++ files.map Prod.fst) (putAll all files) := by
  induction files generalizing paths all with
  | nil => simpa [LoadedFiles.putAll] using covers
  | cons entry rest inductionHypothesis =>
      have further := inductionHypothesis (covers.put entry.1 entry.2)
      rw [List.append_assoc] at further
      exact further

/-- What is merged covers the paths of both. -/
theorem Covers.merge {first later : LoadedFiles} {laterPaths : List Path}
    (covers : Covers paths first.files) (laterCovers : Covers laterPaths later.files) :
    Covers (paths ++ laterPaths) (first.merge later).files := by
  have whole := covers.putAll later.files
  constructor
  · exact whole.sorted
  · intro entry member
    rcases List.mem_append.mp (whole.given entry member) with inFirst | isKey
    · exact List.mem_append_left _ inFirst
    · obtain ⟨other, otherMember, key⟩ := List.mem_map.mp isKey
      rw [← key]
      exact List.mem_append_right _ (laterCovers.given other otherMember)
  · intro path member
    rcases List.mem_append.mp member with inFirst | inLater
    · exact whole.met path (List.mem_append_left _ inFirst)
    · obtain ⟨other, otherMember, otherSame⟩ := laterCovers.met path inLater
      have isKey : other.1 ∈ later.files.map Prod.fst := List.mem_map.mpr ⟨other, otherMember, rfl⟩
      obtain ⟨entry, entryMember, same⟩ := whole.met other.1 (List.mem_append_right _ isKey)
      refine ⟨entry, entryMember, Path.same_iff.mpr ?_⟩
      exact (Path.same_iff.mp same).trans (Path.same_iff.mp otherSame)

variable {σ : Type} (family : Family σ)

/-- A load covers the paths that the family accepts. -/
theorem covers_load (files : List Path) :
    Covers (files.filter fun path => (family.parseFile path).isSome) (load family files).files := by
  have keys : ((files.filterMap fun path => (family.parseFile path).map (path, ·)).map Prod.fst) =
      files.filter fun path => (family.parseFile path).isSome := by
    induction files with
    | nil => rfl
    | cons path rest inductionHypothesis =>
        cases read : family.parseFile path with
        | none => simpa [read] using inductionHypothesis
        | some file => simpa [read] using inductionHypothesis
  rw [← keys]
  exact Covers.nil.putAll _

/-- A file behind all others is put at the end. -/
theorem put_of_behind (behind : ∀ entry ∈ all, entry.1.lt path = true) :
    put path file all = all ++ [(path, file)] := by
  induction all with
  | nil => rfl
  | cons head rest inductionHypothesis =>
      have before : head.1.lt path = true := behind head List.mem_cons_self
      have notBehind : ¬ path.lt head.1 = true :=
        fun inFront => lt_asymm (Path.lt_iff.mp before) (Path.lt_iff.mp inFront)
      rw [put, if_neg notBehind, if_pos before,
        inductionHypothesis fun entry member => behind entry (List.mem_cons_of_mem _ member)]
      rfl

/-- Files in path order are put one behind the other. -/
theorem putAll_of_inOrder {start files : List (Path × ParsedFile)}
    (inOrder : (start ++ files).Pairwise fun entry later => entry.1.lt later.1 = true) :
    putAll start files = start ++ files := by
  induction files generalizing start with
  | nil => simp [putAll]
  | cons entry rest inductionHypothesis =>
      obtain ⟨_, _, across⟩ := List.pairwise_append.mp inOrder
      have behind : ∀ other ∈ start, other.1.lt entry.1 = true :=
        fun other member => across other member entry List.mem_cons_self
      have further : putAll (start ++ [entry]) rest = start ++ [entry] ++ rest :=
        inductionHypothesis (by simpa using inOrder)
      rw [putAll, List.foldl_cons, put_of_behind behind]
      simpa [putAll] using further

/-- A load of paths in order keeps the accepted ones as they come. -/
theorem files_load_of_inOrder {paths : List Path} (inOrder : Path.InOrder paths) :
    (load family paths).files =
      paths.filterMap fun path => (family.parseFile path).map (path, ·) := by
  refine putAll_of_inOrder ?_
  rw [List.nil_append, List.pairwise_filterMap]
  refine inOrder.imp ?_
  intro path later before entry isEntry laterEntry isLater
  obtain ⟨_, _, rfl⟩ := Option.map_eq_some_iff.mp isEntry
  obtain ⟨_, _, rfl⟩ := Option.map_eq_some_iff.mp isLater
  exact before

end LoadedFiles

namespace Runner

variable {σ : Type} (runner : Runner σ) (fs : FileSystem) (root : Option Path)
  (external files : List Path) (filter : ScanFilter)

/-- The run looks at no file: it has neither a root nor files, or it lacks external checks. -/
def looksAtNothing : Bool := (root.isNone && files.isEmpty) || runner.isIdle external

/-- The paths that the walk finds, in its order, seen from where the root is seen from. -/
def walked : List Path :=
  match root with
  | none => []
  | some root =>
      match (runner.pathFilter filter).walk fs root with
      | .ok found => found.map root.join
      | .error _ => []

/-- The paths that the run tries to read, in the order in which it reads them. -/
def candidates : List Path :=
  if runner.looksAtNothing root external files then [] else files ++ runner.walked fs root filter

/-- The files that the run scans, in the order in which it scans them. -/
def scanned : LoadedFiles :=
  if runner.looksAtNothing root external files then {}
  else
    match runner.load fs root files filter with
    | .ok loaded => loaded
    | .error _ => {}

/-- What is the same for all findings of the run. -/
def context : FindingContext σ :=
  { family := runner.family
    currentDir := fs.currentDir
    root
    display := runner.display
    pipeline := (runner.scanned fs root external files filter).pipeline }

/-- The findings about all files scanned, one file after another. -/
def allFindings (checks : σ) : List Finding :=
  (runner.scanned fs root external files filter).files.flatMap fun (path, file) =>
    runner.findingsOf checks (runner.context fs root external files filter) filter path file

variable {runner fs root external files filter} {report : Report}

/-- A load reads the files given and merges what the walk finds into them. -/
theorem load_eq_ok {loaded : LoadedFiles}
    (read : runner.load fs root files filter = .ok loaded) :
    loaded = (LoadedFiles.load runner.family files).merge
      (LoadedFiles.load runner.family (runner.walked fs root filter)) := by
  cases root with
  | none =>
      have given : LoadedFiles.load runner.family files = loaded := Except.ok.inj read
      rw [← given]
      simp [walked, LoadedFiles.merge, LoadedFiles.load, LoadedFiles.putAll]
  | some root =>
      rw [load] at read
      rw [walked]
      cases found : (runner.pathFilter filter).walk fs root with
      | error cause =>
          rw [found] at read
          cases read
      | ok paths =>
          rw [found] at read
          exact (Except.ok.inj read).symm

theorem run_of_nothing (nothing : runner.looksAtNothing root external files = true) :
    runner.run fs root external files filter = .ok { checkType := runner.family.checkType } := by
  rw [run]
  split
  · rfl
  · next hasInput =>
    split
    · rfl
    · next notIdle =>
      rw [looksAtNothing, Bool.or_eq_true] at nothing
      exact absurd nothing (not_or.mpr ⟨hasInput, notIdle⟩)

/-- A run that looks at files takes in its external checks and then loads its files. -/
theorem run_of_looks (looks : runner.looksAtNothing root external files = false) :
    runner.run fs root external files filter =
      (runner.family.registry.loadAll external).bind fun checks =>
        (runner.load fs root files filter).map fun _ =>
          { checkType := runner.family.checkType
            findings := runner.allFindings fs root external files filter checks } := by
  have hasInput : ¬ (root.isNone && files.isEmpty) = true := by
    intro isNothing
    rw [looksAtNothing, isNothing, Bool.true_or] at looks
    cases looks
  have notIdle : ¬ (external.isEmpty && runner.family.requiresExternalChecks) = true := by
    intro idle
    rw [looksAtNothing, isIdle, idle, Bool.or_true] at looks
    cases looks
  rw [run, if_neg hasInput, if_neg notIdle]
  cases runner.family.registry.loadAll external with
  | error cause => rfl
  | ok checks =>
      dsimp only [Except.bind]
      rw [allFindings, context, scanned, if_neg (Bool.eq_false_iff.mp looks)]
      cases runner.load fs root files filter with
      | error cause => rfl
      | ok loaded => rfl

/-- A run that succeeds took in its external checks, if it looks at any file, and its findings are
    those about the files that it scans. -/
theorem findings_of_run (succeeds : runner.run fs root external files filter = .ok report) :
    ∃ checks,
      (runner.looksAtNothing root external files = false →
        runner.family.registry.loadAll external = .ok checks ∧
          runner.load fs root files filter =
            .ok (runner.scanned fs root external files filter)) ∧
      report.findings = runner.allFindings fs root external files filter checks := by
  cases looks : runner.looksAtNothing root external files with
  | true =>
      rw [run_of_nothing looks] at succeeds
      refine ⟨runner.family.registry.initial, fun isFalse => (nomatch isFalse), ?_⟩
      rw [← Except.ok.inj succeeds, allFindings, scanned, if_pos looks]
      rfl
  | false =>
      rw [run_of_looks looks] at succeeds
      cases taken : runner.family.registry.loadAll external with
      | error cause =>
          rw [taken] at succeeds
          cases succeeds
      | ok checks =>
          cases read : runner.load fs root files filter with
          | error cause =>
              rw [taken, read] at succeeds
              cases succeeds
          | ok loaded =>
              rw [taken, read] at succeeds
              have isScanned : runner.scanned fs root external files filter = loaded := by
                rw [scanned, if_neg (Bool.eq_false_iff.mp looks), read]
              refine ⟨checks, fun _ => ⟨rfl, by rw [isScanned]⟩, ?_⟩
              rw [← Except.ok.inj succeeds]

/-- The files scanned are the accepted ones among the paths that the run tries to read, each path
    once. -/
theorem covers_scanned (succeeds : runner.run fs root external files filter = .ok report) :
    LoadedFiles.Covers
      ((runner.candidates fs root external files filter).filter fun path =>
        (runner.family.parseFile path).isSome)
      (runner.scanned fs root external files filter).files := by
  obtain ⟨_, looked, _⟩ := findings_of_run succeeds
  rw [candidates]
  by_cases nothing : runner.looksAtNothing root external files = true
  · rw [scanned, if_pos nothing, if_pos nothing]
    exact LoadedFiles.Covers.nil
  · obtain ⟨_, read⟩ := looked (Bool.eq_false_iff.mpr nothing)
    rw [if_neg nothing, load_eq_ok read, List.filter_append]
    exact (LoadedFiles.covers_load _ _).merge (LoadedFiles.covers_load _ _)

theorem eq_ok_of_toOption {ε α : Type} {outcome : Except ε α} {value : α}
    (isValue : outcome.toOption = some value) : outcome = .ok value := by
  cases outcome with
  | ok other => exact congrArg Except.ok (Option.some.inj isValue)
  | error cause => cases isValue

/-! ### Below a root -/

section Walked

open PathFilter (relativePath)

variable {directory path : Path}

/-- What a walk finds keeps its order when it is seen from the root. -/
theorem inOrder_walked (proper : fs.root.isProper = true) :
    Path.InOrder (runner.walked fs root filter) := by
  cases root with
  | none => exact List.Pairwise.nil
  | some directory =>
      rw [walked]
      split
      · next found walks =>
        obtain ⟨_, _, isDirectory, _⟩ := PathFilter.walk_eq_ok walks
        obtain ⟨hasText, _⟩ := FileSystem.length_le_of_lookup isDirectory
        have placesOf : ∀ path ∈ found,
            (directory.join path).places = directory.places ++ path.places := by
          intro path member
          obtain ⟨names, rfl, reaches⟩ := (PathFilter.mem_walk proper walks).mp member
          have areNames := PathFilter.isEntryName_of_reaches proper reaches
          rw [Path.places, Path.components_join_relativePath hasText reaches.someNames areNames,
            List.map_append, Path.places, Path.places, Path.components_relativePath areNames]
        refine List.pairwise_map.mpr ?_
        refine (PathFilter.inOrder_walk proper walks).imp_of_mem ?_
        intro path later member laterMember before
        rw [Path.lt_iff, placesOf path member, placesOf later laterMember]
        exact List.append_left_lt (Path.lt_iff.mp before)
      · exact List.Pairwise.nil

/-- A load below a root finds the files that the walk reaches. -/
theorem mem_walked (proper : fs.root.isProper = true) {loaded : LoadedFiles}
    (read : runner.load fs (some directory) files filter = .ok loaded) :
    path ∈ runner.walked fs (some directory) filter ↔
      ∃ names, path = directory.join (relativePath names) ∧
        (runner.pathFilter filter).Reaches fs directory names := by
  rw [load] at read
  cases walks : (runner.pathFilter filter).walk fs directory with
  | error cause =>
      rw [walks] at read
      cases read
  | ok found =>
      have isWalked : runner.walked fs (some directory) filter = found.map directory.join := by
        rw [walked, walks]
      rw [isWalked, List.mem_map]
      constructor
      · rintro ⟨path, member, rfl⟩
        obtain ⟨names, rfl, reaches⟩ := (PathFilter.mem_walk proper walks).mp member
        exact ⟨names, rfl, reaches⟩
      · rintro ⟨names, rfl, reaches⟩
        exact ⟨_, (PathFilter.mem_walk proper walks).mpr ⟨names, rfl, reaches⟩, rfl⟩

/-- A load without files of its own keeps the accepted ones of what the walk finds. -/
theorem files_of_load (proper : fs.root.isProper = true) {loaded : LoadedFiles}
    (read : runner.load fs root [] filter = .ok loaded) :
    loaded.files = (runner.walked fs root filter).filterMap fun path =>
      (runner.family.parseFile path).map (path, ·) := by
  have inOrder : Path.InOrder (runner.walked fs root filter) := inOrder_walked proper
  have sorted := (LoadedFiles.covers_load runner.family (runner.walked fs root filter)).sorted
  rw [load_eq_ok read, ← LoadedFiles.files_load_of_inOrder runner.family inOrder]
  exact LoadedFiles.putAll_of_inOrder sorted

end Walked

end Runner

end ConfigScan
