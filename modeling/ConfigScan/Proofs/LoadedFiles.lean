/-
Module: ConfigScan.Proofs.LoadedFiles
Purpose: The files that a run reads from a list of paths: those that the family accepts, in path
  order, each path once and spelled as the list spells it first.
Main exports: Family.ReadsByPath, Family.Accepts, LoadedFiles.Lists, LoadedFiles.lists_load,
  Family.Accepts.append
-/
import ConfigScan.LoadedFiles
import ConfigScan.Proofs.Path.Order

namespace ConfigScan

variable {σ : Type}

namespace Family

/-- A file is read by its path, whatever the spelling. -/
def ReadsByPath (family : Family σ) : Prop :=
  ∀ path other : Path, path.same other = true → family.parseFile path = family.parseFile other

/-- The paths of a list of files that the family accepts: in path order, each path once, as the list
    spells it first. -/
structure Accepts (family : Family σ) (files paths : List Path) : Prop where
  inOrder : Path.InOrder paths
  mem_iff : ∀ path, path ∈ paths ↔
    files.find? (·.same path) = some path ∧ (family.parseFile path).isSome = true

variable {family : Family σ} {files paths : List Path}

theorem Accepts.unique {others : List Path} (accepts : family.Accepts files paths)
    (othersToo : family.Accepts files others) : paths = others :=
  accepts.inOrder.eq_of_mem_iff othersToo.inOrder fun path =>
    (accepts.mem_iff path).trans (othersToo.mem_iff path).symm

end Family

/-- Two paths that are one select the same files of a list. -/
theorem Path.find?_same_congr {path other : Path} (same : path.same other = true)
    (files : List Path) : files.find? (·.same path) = files.find? (·.same other) := by
  have alike : (fun file : Path => file.same path) = fun file => file.same other := by
    funext file
    rw [Bool.eq_iff_iff, Path.same_iff, Path.same_iff, Path.same_iff.mp same]
  rw [alike]

/-- The first file of a path is the first one of its own spelling. -/
theorem Path.find?_same_self {path first : Path} {files : List Path}
    (found : files.find? (·.same path) = some first) :
    first.same path = true ∧ files.find? (·.same first) = some first := by
  have same : first.same path = true := by simpa using List.find?_some found
  exact ⟨same, (Path.find?_same_congr same files).trans found⟩

/-- With one more file a path is the first of its spelling as before, or the file is the only one of
    that path. -/
theorem Path.find?_append_singleton {files : List Path} {path own : Path} :
    (files ++ [path]).find? (·.same own) = some own ↔
      files.find? (·.same own) = some own ∨
        (files.find? (·.same own) = none ∧ path = own) := by
  rw [List.find?_append]
  cases files.find? (·.same own) with
  | some first => simp
  | none =>
      by_cases same : path.same own = true
      · simp [same]
      · have different : path ≠ own := by
          rintro rfl
          exact same (Path.same_self _)
        simp [same, different]

/-- A path that comes again is never found. -/
theorem Path.find?_append_of_repeated {front : List Path} {path : Path}
    (repeated : ∃ other ∈ front, other.same path = true) (back : List Path) (own : Path) :
    (front ++ path :: back).find? (·.same own) = (front ++ back).find? (·.same own) := by
  rw [List.find?_append, List.find?_append]
  cases missed : front.find? (·.same own) with
  | some first => rfl
  | none =>
      obtain ⟨other, member, same⟩ := repeated
      have different : path.same own = false := by
        rw [Bool.eq_false_iff]
        intro isOwn
        apply List.find?_eq_none.mp missed other member
        exact Path.same_iff.mpr ((Path.same_iff.mp same).trans (Path.same_iff.mp isOwn))
      rw [List.find?_cons, different]

/-- In a list whose equal paths are spelled alike every path is the first of its own spelling. -/
theorem Path.find?_same_of_alike {files : List Path}
    (alike : ∀ path ∈ files, ∀ other ∈ files, path.same other = true → path = other)
    (path : Path) : files.find? (·.same path) = some path ↔ path ∈ files := by
  constructor
  · exact List.mem_of_find?_eq_some
  · intro member
    obtain ⟨first, found⟩ : ∃ first, files.find? (·.same path) = some first :=
      Option.isSome_iff_exists.mp (List.find?_isSome.mpr ⟨path, member, Path.same_self path⟩)
    have isPath : first = path :=
      alike first (List.mem_of_find?_eq_some found) path member (Path.find?_same_self found).1
    rw [found, isPath]

namespace LoadedFiles

variable {path : Path} {file : ParsedFile} {all : List (Path × ParsedFile)}

/-- A file that is there under its path already is not put again. -/
theorem put_of_mem (sorted : all.Pairwise fun entry later => entry.1.lt later.1 = true)
    {own : Path} (member : (own, file) ∈ all) (same : own.same path = true) :
    put path file all = all := by
  have sameBack : path.same own = true := Path.same_iff.mpr (Path.same_iff.mp same).symm
  induction all with
  | nil => cases member
  | cons entry rest inductionHypothesis =>
      obtain ⟨other, old⟩ := entry
      rw [put]
      rcases List.mem_cons.mp member with isFirst | later
      · cases isFirst
        rw [if_neg (Path.not_lt_of_same sameBack), if_neg (Path.not_lt_of_same same)]
      · obtain ⟨inFront, restSorted⟩ := List.pairwise_cons.mp sorted
        have beforeOwn : other.lt own = true := inFront (own, file) later
        have before : other.places < path.places := by
          rw [← Path.same_iff.mp same]
          exact Path.lt_iff.mp beforeOwn
        have notBehind : ¬ path.lt other = true :=
          fun behind => lt_asymm before (Path.lt_iff.mp behind)
        rw [if_neg notBehind, if_pos (Path.lt_iff.mpr before),
          inductionHypothesis restSorted later]

/-- A file under a new path is one more file. -/
theorem mem_put_of_new (new : ∀ entry ∈ all, entry.1.same path = false)
    (entry : Path × ParsedFile) :
    entry ∈ put path file all ↔ entry = (path, file) ∨ entry ∈ all := by
  induction all with
  | nil => simp [put]
  | cons head rest inductionHypothesis =>
      obtain ⟨other, old⟩ := head
      have restNew : ∀ entry ∈ rest, entry.1.same path = false :=
        fun entry member => new entry (List.mem_cons_of_mem _ member)
      rw [put]
      split
      · exact List.mem_cons
      · next notBefore =>
        split
        · rw [List.mem_cons, inductionHypothesis restNew, List.mem_cons, or_left_comm]
        · next notBehind =>
          have same : other.same path = true := by
            rw [Path.lt_iff] at notBefore notBehind
            exact Path.same_iff.mpr (le_antisymm (not_lt.mp notBefore) (not_lt.mp notBehind))
          rw [new _ List.mem_cons_self] at same
          cases same

theorem sorted_put_of_new (sorted : all.Pairwise fun entry later => entry.1.lt later.1 = true)
    (new : ∀ entry ∈ all, entry.1.same path = false) :
    (put path file all).Pairwise fun entry later => entry.1.lt later.1 = true := by
  induction all with
  | nil => exact List.pairwise_singleton _ _
  | cons head rest inductionHypothesis =>
      obtain ⟨other, old⟩ := head
      obtain ⟨inFront, restSorted⟩ := List.pairwise_cons.mp sorted
      have restNew : ∀ entry ∈ rest, entry.1.same path = false :=
        fun entry member => new entry (List.mem_cons_of_mem _ member)
      rw [put]
      split
      · next before =>
        refine List.pairwise_cons.mpr ⟨?_, sorted⟩
        intro entry member
        rcases List.mem_cons.mp member with isFirst | later
        · rw [isFirst]
          exact before
        · exact Path.lt_iff.mpr
            ((Path.lt_iff.mp before).trans (Path.lt_iff.mp (inFront entry later)))
      · split
        · next behind =>
          refine List.pairwise_cons.mpr ⟨?_, inductionHypothesis restSorted restNew⟩
          intro entry member
          rcases (mem_put_of_new restNew entry).mp member with isNew | later
          · rw [isNew]
            exact behind
          · exact inFront entry later
        · exact List.pairwise_cons.mpr ⟨inFront, restSorted⟩

/-- The files of a list that a family accepts, with what was read from them. -/
structure Lists (family : Family σ) (files : List Path) (all : List (Path × ParsedFile)) :
    Prop where
  sorted : all.Pairwise fun entry later => entry.1.lt later.1 = true
  mem_iff : ∀ path file, (path, file) ∈ all ↔
    files.find? (·.same path) = some path ∧ family.parseFile path = some file

variable {family : Family σ} {files : List Path}

/-- A path that was met before, or that is no file of the family, adds nothing. -/
theorem Lists.known (lists : Lists family files all)
    (known : family.parseFile path = none ∨ ∃ other ∈ files, other.same path = true) :
    Lists family (files ++ [path]) all where
  sorted := lists.sorted
  mem_iff := by
    intro own file
    rw [lists.mem_iff, Path.find?_append_singleton]
    apply and_congr_left
    intro read
    constructor
    · exact Or.inl
    · rintro (found | ⟨missed, rfl⟩)
      · exact found
      · rcases known with rejected | ⟨other, member, same⟩
        · rw [rejected] at read
          cases read
        · exact absurd same (by simpa using List.find?_eq_none.mp missed other member)

/-- A file that is read is put at its place, unless its path was met before. -/
theorem Lists.put (reads : family.ReadsByPath) (lists : Lists family files all)
    (read : family.parseFile path = some file) :
    Lists family (files ++ [path]) (put path file all) := by
  by_cases met : ∃ other ∈ files, other.same path = true
  · obtain ⟨first, found⟩ := Option.isSome_iff_exists.mp (List.find?_isSome.mpr met)
    obtain ⟨same, isFirst⟩ := Path.find?_same_self found
    have listed : (first, file) ∈ all :=
      (lists.mem_iff first file).mpr ⟨isFirst, (reads first path same).trans read⟩
    rw [put_of_mem lists.sorted listed same]
    exact lists.known (Or.inr met)
  · have missed : files.find? (·.same path) = none :=
      List.find?_eq_none.mpr fun other member same => met ⟨other, member, same⟩
    have new : ∀ entry ∈ all, entry.1.same path = false := by
      rintro ⟨own, held⟩ member
      obtain ⟨found, _⟩ := (lists.mem_iff own held).mp member
      rw [Bool.eq_false_iff]
      intro same
      exact met ⟨own, List.mem_of_find?_eq_some found, same⟩
    constructor
    · exact sorted_put_of_new lists.sorted new
    · intro own held
      rw [mem_put_of_new new, lists.mem_iff, Path.find?_append_singleton]
      constructor
      · rintro (isNew | ⟨found, parsed⟩)
        · cases isNew
          exact ⟨Or.inr ⟨missed, rfl⟩, read⟩
        · exact ⟨Or.inl found, parsed⟩
      · rintro ⟨found | ⟨_, rfl⟩, parsed⟩
        · exact Or.inr ⟨found, parsed⟩
        · rw [read] at parsed
          cases parsed
          exact Or.inl rfl

/-- What a run reads from a list of paths. -/
theorem lists_load (reads : family.ReadsByPath) (files : List Path) :
    Lists family files (load family files).files := by
  induction files using List.reverseRecOn with
  | nil =>
      constructor
      · exact List.Pairwise.nil
      · intro path file
        simp [load, putAll]
  | append_singleton front path inductionHypothesis =>
      have loaded : (load family (front ++ [path])).files =
          ((family.parseFile path).map (path, ·)).elim (load family front).files
            fun entry => put entry.1 entry.2 (load family front).files := by
        simp only [load, putAll, List.filterMap_append, List.foldl_append]
        cases read : family.parseFile path with
        | none => simp [read]
        | some file => simp [read]
      rw [loaded]
      cases read : family.parseFile path with
      | none => exact inductionHypothesis.known (Or.inl read)
      | some file => exact inductionHypothesis.put reads read

theorem Lists.accepts (lists : Lists family files all) :
    family.Accepts files (all.map Prod.fst) where
  inOrder := List.pairwise_map.mpr lists.sorted
  mem_iff := by
    intro own
    rw [List.mem_map, Option.isSome_iff_exists]
    constructor
    · rintro ⟨⟨_, held⟩, member, rfl⟩
      obtain ⟨found, read⟩ := (lists.mem_iff _ held).mp member
      exact ⟨found, held, read⟩
    · rintro ⟨found, held, read⟩
      exact ⟨(own, held), (lists.mem_iff own held).mpr ⟨found, read⟩, rfl⟩

/-- The files of a list are those that the family accepts, each as it is read under the spelling
    that comes first. -/
theorem files_load (reads : family.ReadsByPath) {paths : List Path}
    (accepts : family.Accepts files paths) :
    (load family files).files =
      paths.filterMap fun path => (family.parseFile path).map (path, ·) := by
  have lists := lists_load reads files
  rw [accepts.unique lists.accepts, List.filterMap_map]
  have kept : ∀ entry ∈ (load family files).files,
      ((fun path => (family.parseFile path).map (path, ·)) ∘ Prod.fst) entry = some entry := by
    rintro ⟨own, held⟩ member
    obtain ⟨_, read⟩ := (lists.mem_iff own held).mp member
    simp [read]
  rw [List.filterMap_congr kept, List.filterMap_some]

end LoadedFiles

namespace Family.Accepts

variable {family : Family σ} {files paths : List Path}

/-- There is always such a list of paths. -/
theorem exists_of_files (reads : family.ReadsByPath) (files : List Path) :
    ∃ paths, family.Accepts files paths :=
  ⟨_, (LoadedFiles.lists_load reads files).accepts⟩

/-- Of a single file. -/
theorem singleton (family : Family σ) (path : Path) :
    family.Accepts [path] (if (family.parseFile path).isSome = true then [path] else []) where
  inOrder := by
    split
    · exact List.pairwise_singleton _ _
    · exact List.Pairwise.nil
  mem_iff := by
    intro own
    have found_iff : [path].find? (·.same own) = some own ↔ path = own := by
      have inOne : ([] ++ [path]).find? (·.same own) = some own ↔ _ :=
        Path.find?_append_singleton
      simpa using inOne
    rw [found_iff]
    split
    · next read =>
      constructor
      · intro member
        cases List.mem_singleton.mp member
        exact ⟨rfl, read⟩
      · rintro ⟨rfl, _⟩
        exact List.mem_singleton_self _
    · next rejected =>
      constructor
      · intro member
        cases member
      · rintro ⟨rfl, read⟩
        exact absurd read rejected

/-- A path that is found in a list is one of the paths accepted, under the first spelling. -/
theorem exists_same (reads : family.ReadsByPath) (accepts : family.Accepts files paths)
    {path first : Path} (found : files.find? (·.same path) = some first)
    (read : (family.parseFile path).isSome = true) :
    first ∈ paths ∧ first.same path = true := by
  obtain ⟨same, isFirst⟩ := Path.find?_same_self found
  refine ⟨(accepts.mem_iff first).mpr ⟨isFirst, ?_⟩, same⟩
  rw [reads first path same]
  exact read

/-- The paths of two lists together are those of the first one and the new ones of the other one,
    merged in path order. -/
theorem append (reads : family.ReadsByPath) {later laterPaths : List Path}
    (accepts : family.Accepts files paths) (laterAccepts : family.Accepts later laterPaths) :
    family.Accepts (files ++ later) (Path.merge paths laterPaths) where
  inOrder := accepts.inOrder.merge laterAccepts.inOrder
  mem_iff := by
    intro path
    rw [Path.mem_merge, accepts.mem_iff, laterAccepts.mem_iff, List.find?_append]
    cases found : files.find? (·.same path) with
    | some first =>
        simp only [Option.some_or, or_iff_left_iff_imp, and_imp]
        intro _ read new
        obtain ⟨member, same⟩ := accepts.exists_same reads found read
        rw [new first member] at same
        cases same
    | none =>
        simp only [Option.none_or, reduceCtorEq, false_and, false_or, and_iff_left_iff_imp, and_imp]
        intro _ _ other member
        obtain ⟨isFirst, _⟩ := (accepts.mem_iff other).mp member
        rw [Bool.eq_false_iff]
        exact List.find?_eq_none.mp found other (List.mem_of_find?_eq_some isFirst)

/-- The order of a list does not count when its equal paths are spelled alike. -/
theorem perm {others : List Path} (accepts : family.Accepts files paths)
    (permuted : files.Perm others)
    (alike : ∀ path ∈ files, ∀ other ∈ files, path.same other = true → path = other) :
    family.Accepts others paths where
  inOrder := accepts.inOrder
  mem_iff := by
    intro path
    have othersAlike : ∀ path ∈ others, ∀ other ∈ others,
        path.same other = true → path = other := by
      intro path member other otherMember
      exact alike path (permuted.mem_iff.mpr member) other (permuted.mem_iff.mpr otherMember)
    rw [accepts.mem_iff, Path.find?_same_of_alike alike, Path.find?_same_of_alike othersAlike,
      permuted.mem_iff]

/-- A path that comes again is not counted again. -/
theorem of_repeated {front back : List Path} {path : Path}
    (repeated : ∃ other ∈ front, other.same path = true)
    (accepts : family.Accepts (front ++ back) paths) :
    family.Accepts (front ++ path :: back) paths where
  inOrder := accepts.inOrder
  mem_iff := by
    intro own
    rw [Path.find?_append_of_repeated repeated]
    exact accepts.mem_iff own

end Family.Accepts

namespace LoadedFiles

variable {family : Family σ} {front back : List Path} {path : Path}

/-- A file that the family rejects changes nothing. -/
theorem load_of_rejected (rejected : family.parseFile path = none) :
    load family (front ++ path :: back) = load family (front ++ back) := by
  simp [load, rejected]

/-- Files behind one that is read do not change the pipeline. -/
theorem pipeline_load_append {other : Path} {file : ParsedFile} (member : other ∈ front)
    (read : family.parseFile other = some file) (back : List Path) :
    (load family (front ++ back)).pipeline = (load family front).pipeline := by
  have parsed : (other, file) ∈
      front.filterMap fun path => (family.parseFile path).map (path, ·) :=
    List.mem_filterMap.mpr ⟨other, member, by simp [read]⟩
  simp only [load, List.filterMap_append]
  rw [List.head?_append_of_ne_nil _ (List.ne_nil_of_mem parsed)]

/-- A path that comes again changes nothing. -/
theorem load_of_repeated (reads : family.ReadsByPath)
    (repeated : ∃ other ∈ front, other.same path = true) :
    load family (front ++ path :: back) = load family (front ++ back) := by
  cases read : family.parseFile path with
  | none => exact load_of_rejected read
  | some file =>
      obtain ⟨paths, accepts⟩ := Family.Accepts.exists_of_files reads (front ++ back)
      have sameFiles : (load family (front ++ path :: back)).files =
          (load family (front ++ back)).files := by
        rw [files_load reads accepts, files_load reads (accepts.of_repeated repeated)]
      have samePipeline : (load family (front ++ path :: back)).pipeline =
          (load family (front ++ back)).pipeline := by
        obtain ⟨other, member, same⟩ := repeated
        have otherRead := (reads other path same).trans read
        rw [pipeline_load_append member otherRead, pipeline_load_append member otherRead]
      exact congrArg₂ LoadedFiles.mk sameFiles samePipeline

end LoadedFiles

end ConfigScan
