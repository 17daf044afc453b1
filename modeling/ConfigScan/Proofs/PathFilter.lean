/-
Module: ConfigScan.Proofs.PathFilter
Purpose: What a walk finds: the files all of whose names pass the filter of their directory, in path
  order. Only a directory that cannot be opened hides what lies below it.
Main exports: PathFilter.Reaches, PathFilter.mem_walk, PathFilter.inOrder_walk,
  PathFilter.walk_filters_levels
-/
import ConfigScan.Proofs.FileTree
import ConfigScan.Proofs.Path.Order

namespace ConfigScan.Path

/-- A path to the current directory that has this many slashes behind its dot. -/
def dotSlashes (slashes : Nat) : Path := ⟨dot :: List.replicate slashes slash⟩

theorem length_dotSlashes (slashes : Nat) : (dotSlashes slashes).bytes.length = slashes + 1 := by
  rw [dotSlashes, List.length_cons, List.length_replicate]

theorem segments_replicate_slash (slashes : Nat) :
    segments (List.replicate slashes slash) = List.replicate (slashes + 1) [] := by
  induction slashes with
  | zero => rfl
  | succ n inductionHypothesis =>
      rw [List.replicate_succ, segments, if_pos rfl, inductionHypothesis]
      rfl

theorem idle_segments_dotSlashes (slashes : Nat) :
    ∀ segment ∈ segments (dotSlashes slashes).bytes, isIdle segment = true := by
  intro segment member
  rw [dotSlashes, segments, if_neg dot_ne_slash, segments_replicate_slash,
    List.replicate_succ] at member
  rcases List.mem_cons.mp member with isDot | isEmpty
  · rw [isDot]
    rfl
  · rw [List.eq_of_mem_replicate isEmpty]
    rfl

theorem components_dotSlashes (slashes : Nat) : (dotSlashes slashes).components = [.current] := by
  have isHead : splitHead (dotSlashes slashes).bytes = ([dot], List.replicate slashes slash) := by
    rw [dotSlashes]
    cases slashes <;> simp [splitHead, List.replicate_succ]
  have noSteps : (List.replicate (slashes + 1) []).filterMap stepOf? = [] := by
    rw [List.filterMap_eq_nil_iff]
    intro segment member
    rw [List.eq_of_mem_replicate member]
    rfl
  rw [components_eq, isHead, segments_replicate_slash, noSteps]
  rfl

end ConfigScan.Path

namespace ConfigScan

/-- The entry is a directory that can be listed, and searched where more than one name is left to
    go. -/
def Entry.IsOpen (further : List Name) : Entry → Prop
  | .dir access _ => access.list = true ∧ (further ≠ [] → access.search = true)
  | _ => False

namespace PathFilter

open FileSystem (maxPathBytes)

variable {filter : PathFilter} {path : Path} {names : List Name}

/-! ### What is left out -/

theorem occursIn_iff {part text : List Char} : occursIn part text = true ↔ part <:+: text := by
  induction text with
  | nil => simp [occursIn]
  | cons c rest inductionHypothesis =>
      rw [occursIn, Bool.or_eq_true, inductionHypothesis, List.isPrefixOf_iff_prefix,
        List.infix_cons_iff]

theorem mem_globs {glob : Glob.Pattern} :
    glob ∈ filter.globs ↔
      filter.buildable (filter.excluded.filterMap Glob.read?) = true ∧
        ∃ pattern ∈ filter.excluded, Glob.read? pattern = some glob := by
  rw [globs]
  split
  · next built => simp [built]
  · next notBuilt => simp [notBuilt]

/-- The patterns rule a path out when it fits one of them as a glob, where the set of the globs can
    be built, or has one of them as a part of its text. -/
theorem excludes_iff :
    filter.excludes path = true ↔
      (∃ glob ∈ filter.globs, glob.fits path = true) ∨
        ∃ pattern ∈ filter.excluded, pattern.toList <:+: path.text.toList := by
  simp only [excludes, Bool.or_eq_true, List.any_eq_true, occursIn_iff]

theorem ignores_eq_false_iff {directory : Path} {name : String} :
    filter.ignores directory name = false ↔
      (name.toList.head? = some '.' → name ∈ filter.included) ∧ name ∉ ignoredNames ∧
        ¬ filter.excludes (directory.join ⟨name⟩) = true := by
  simp only [ignores, isHidden, Bool.or_eq_false_iff, Bool.and_eq_false_imp, beq_iff_eq,
    Bool.not_eq_false', List.contains_eq_mem, decide_eq_true_eq, decide_eq_false_iff_not,
    Bool.not_eq_true, and_assoc]

/-! ### The files in a tree -/

/-- On the way along names every directory can be opened, and no name is ignored in the directory
    that its path has as its parent. -/
def Passes (filter : PathFilter) (path : Path) (entry : Entry) (names : List Name) : Prop :=
  ∀ front name back, names = front ++ name :: back →
    ((path.descend front).bytes.length ≤ maxPathBytes ∧
        ∃ directory, entry.at? front = some directory ∧ directory.IsOpen back) ∧
      ∃ parent, (path.descend (front ++ [name])).parent? = some parent ∧
        filter.ignores parent (Text.Utf8.text name) = false

theorem passes_nil (filter : PathFilter) (path : Path) (entry : Entry) :
    filter.Passes path entry [] := by
  intro front name back split
  simp at split

/-- One name after the other. -/
theorem passes_cons {access : Access} {children : List (Name × Entry)} {name : Name}
    {child : Entry} {rest : List Name} (isChild : Entry.child? name children = some child) :
    filter.Passes path (.dir access children) (name :: rest) ↔
      ((path.bytes.length ≤ maxPathBytes ∧ access.list = true ∧
            (rest ≠ [] → access.search = true)) ∧
          ∃ parent, (path.join ⟨name⟩).parent? = some parent ∧
            filter.ignores parent (Text.Utf8.text name) = false) ∧
        filter.Passes (path.join ⟨name⟩) child rest := by
  have below : ∀ further, (Entry.dir access children).at? (name :: further) =
      child.at? further := by
    intro further
    rw [Entry.at?, isChild]
    rfl
  constructor
  · intro passes
    constructor
    · obtain ⟨⟨short, directory, isDirectory, opened⟩, kept⟩ := passes [] name rest rfl
      cases isDirectory
      exact ⟨⟨short, opened⟩, kept⟩
    · intro front other back split
      have later := passes (name :: front) other back (by rw [split]; rfl)
      rw [below] at later
      exact later
  · rintro ⟨⟨⟨short, opened⟩, kept⟩, later⟩ front other back split
    cases front with
    | nil =>
        cases split
        exact ⟨⟨short, _, rfl, opened⟩, kept⟩
    | cons head front =>
        cases split
        rw [below]
        exact later front other back rfl

/-- The files in the children of a directory are the files in one of them that is not ignored. -/
theorem mem_filesIn {searched : Bool} {children : List (Name × Entry)} :
    names ∈ filesIn filter path searched children ↔
      ∃ name entry rest, names = name :: rest ∧ (name, entry) ∈ children ∧
        filter.ignores ((path.join ⟨name⟩).parent?.getD path) (Text.Utf8.text name) = false ∧
        rest ∈ filesOf filter (path.join ⟨name⟩) searched entry := by
  induction children with
  | nil => simp [filesIn]
  | cons child others inductionHypothesis =>
      obtain ⟨name, entry⟩ := child
      have here : names ∈ (if filter.ignores ((path.join ⟨name⟩).parent?.getD path)
            (Text.Utf8.text name) then []
          else (filesOf filter (path.join ⟨name⟩) searched entry).map (name :: ·)) ↔
          filter.ignores ((path.join ⟨name⟩).parent?.getD path) (Text.Utf8.text name) = false ∧
            ∃ rest ∈ filesOf filter (path.join ⟨name⟩) searched entry, names = name :: rest := by
        split
        · next ignored => simp [ignored]
        · next kept => simp [kept, eq_comm]
      rw [filesIn, List.mem_append, here, inductionHypothesis]
      constructor
      · rintro (⟨kept, rest, member, rfl⟩ | ⟨other, otherEntry, rest, isNames, member, kept, found⟩)
        · exact ⟨name, entry, rest, rfl, List.mem_cons_self, kept, member⟩
        · exact ⟨other, otherEntry, rest, isNames, List.mem_cons_of_mem _ member, kept, found⟩
      · rintro ⟨other, otherEntry, rest, isNames, member, kept, found⟩
        rcases List.mem_cons.mp member with isFirst | later
        · cases isFirst
          exact Or.inl ⟨kept, rest, found, isNames⟩
        · exact Or.inr ⟨other, otherEntry, rest, isNames, later, kept, found⟩

/-- A directory shows the files in its children when it can be opened. -/
theorem filesOf_dir {reached : Bool} {access : Access} {children : List (Name × Entry)} :
    names ∈ filesOf filter path reached (.dir access children) ↔
      (reached = true ∧ access.list = true ∧ path.bytes.length ≤ maxPathBytes) ∧
        names ∈ filesIn filter path access.search children := by
  rw [filesOf]
  split
  · next opened =>
    rw [Bool.and_eq_true, Bool.and_eq_true, decide_eq_true_eq] at opened
    simp [opened]
  · next closed =>
    rw [Bool.and_eq_true, Bool.and_eq_true, decide_eq_true_eq, and_assoc] at closed
    simp [closed]

/-- The files in a tree are those all of whose names pass. -/
theorem mem_filesOf {entry : Entry} {reached : Bool} (proper : entry.isProper = true) :
    names ∈ filesOf filter path reached entry ↔
      (names ≠ [] → reached = true) ∧
        (∃ readable content, entry.at? names = some (.file readable content)) ∧
        filter.Passes path entry names := by
  induction names generalizing path entry reached with
  | nil =>
      cases entry with
      | file readable content => simp [filesOf, Entry.at?, passes_nil]
      | link target => simp [filesOf, Entry.at?]
      | dir access children => simp [filesOf_dir, mem_filesIn, Entry.at?]
  | cons name rest inductionHypothesis =>
      cases entry with
      | file readable content => simp [filesOf, Entry.at?]
      | link target => simp [filesOf, Entry.at?]
      | dir access children =>
          have childrenProper : Entry.areProper children = true := proper
          rw [filesOf_dir, mem_filesIn]
          constructor
          · rintro ⟨⟨isReached, listed, short⟩, other, child, _, split, member, kept, found⟩
            cases split
            obtain ⟨isName, childProper⟩ := Entry.proper_of_mem childrenProper member
            have isChild := (Entry.child?_eq_some_iff childrenProper).mpr member
            obtain ⟨searched, ⟨readable, content, toFile⟩, passes⟩ :=
              (inductionHypothesis childProper).mp found
            obtain ⟨parent, isParent⟩ :=
              Option.isSome_iff_exists.mp (Path.isSome_parent?_join path isName)
            rw [isParent, Option.getD_some] at kept
            refine ⟨fun _ => isReached, ⟨readable, content, ?_⟩,
              (passes_cons isChild).mpr ⟨⟨⟨short, listed, searched⟩, parent, isParent, kept⟩,
                passes⟩⟩
            rw [Entry.at?, isChild]
            exact toFile
          · rintro ⟨isReached, ⟨readable, content, toFile⟩, passes⟩
            obtain ⟨child, isChild, further⟩ := Option.bind_eq_some_iff.mp toFile
            obtain ⟨⟨⟨short, listed, searched⟩, parent, isParent, kept⟩, later⟩ :=
              (passes_cons isChild).mp passes
            have member := (Entry.child?_eq_some_iff childrenProper).mp isChild
            obtain ⟨_, childProper⟩ := Entry.proper_of_mem childrenProper member
            refine ⟨⟨isReached (List.cons_ne_nil _ _), listed, short⟩, name, child, rest, rfl,
              member, ?_, ?_⟩
            · rw [isParent, Option.getD_some]
              exact kept
            · exact (inductionHypothesis childProper).mpr
                ⟨searched, ⟨readable, content, further⟩, later⟩

mutual

/-- No file of a tree is found twice. -/
theorem nodup_filesOf (filter : PathFilter) (path : Path) (reached : Bool) :
    ∀ entry : Entry, entry.isProper = true → (filesOf filter path reached entry).Nodup
  | .file .., _ => List.nodup_singleton _
  | .link _, _ => List.nodup_nil
  | .dir access children, proper => by
      rw [filesOf]
      split
      · exact nodup_filesIn filter path access.search children proper
      · exact List.nodup_nil

/-- The same of the files in the children of a directory. -/
theorem nodup_filesIn (filter : PathFilter) (path : Path) (searched : Bool) :
    ∀ children : List (Name × Entry), Entry.areProper children = true →
      (filesIn filter path searched children).Nodup
  | [], _ => List.nodup_nil
  | (name, entry) :: rest, proper => by
      have different := Entry.nodup_of_areProper proper
      simp only [Entry.areProper, Bool.and_eq_true] at proper
      obtain ⟨⟨_, entryProper⟩, restProper⟩ := proper
      have ofEntry : ((filesOf filter (path.join ⟨name⟩) searched entry).map (name :: ·)).Nodup :=
        (nodup_filesOf filter _ searched entry entryProper).map (List.cons_injective)
      have ofRest := nodup_filesIn filter path searched rest restProper
      rw [filesIn]
      refine List.nodup_append.mpr ⟨?_, ofRest, ?_⟩
      · split
        · exact List.nodup_nil
        · exact ofEntry
      · -- the files of the entry have its name first, and no other entry has that name
        rintro names inEntry _ inRest rfl
        obtain ⟨other, otherEntry, front, split, member, _, _⟩ := mem_filesIn.mp inRest
        have firstName : ∃ front, names = name :: front := by
          split at inEntry
          · cases inEntry
          · obtain ⟨front, _, isNames⟩ := List.mem_map.mp inEntry
            exact ⟨front, isNames.symm⟩
        obtain ⟨_, isNames⟩ := firstName
        rw [isNames] at split
        cases split
        exact (List.nodup_cons.mp different).1 (List.mem_map.mpr ⟨_, member, rfl⟩)

end

/-! ### The walk -/

variable {fs : FileSystem} {root : Path} {access : Access} {children : List (Name × Entry)}

/-- The walk below a root comes to the file that names lead to: no name on the way is ignored, so
    that each survives the filter of the listing that it stands in, and all directories can be
    opened. -/
structure Reaches (filter : PathFilter) (fs : FileSystem) (root : Path) (names : List Name) :
    Prop where
  someNames : names ≠ []
  isFile : ∃ readable content, fs.below? root names = some (.file readable content)
  kept : ∀ front name back, names = front ++ name :: back →
    ∃ parent listed, (root.descend (front ++ [name])).parent? = some parent ∧
      fs.below? root front = some listed ∧
      filter.ignores parent (Text.Utf8.text name) = false ∧
      Text.Utf8.text name ∈ filter.keep parent (listed.names.map Text.Utf8.text)
  opened : ∀ front name back, names = front ++ name :: back →
    (root.descend front).bytes.length ≤ maxPathBytes ∧
      ∃ directory, fs.below? root front = some directory ∧ directory.IsOpen back

/-- The listing that a name stands in is found on the way to the file. -/
theorem reaches_iff_passes (proper : fs.root.isProper = true)
    (found : fs.lookup root = .ok (.dir access children)) :
    filter.Reaches fs root names ↔
      (∃ readable content, fs.below? root names = some (.file readable content)) ∧
        filter.Passes root (.dir access children) names := by
  have below := FileSystem.below?_of_lookup found
  have isProper : (Entry.dir access children).isProper = true :=
    FileSystem.isProper_of_lookup proper found
  constructor
  · intro reaches
    refine ⟨reaches.isFile, ?_⟩
    intro front name back split
    obtain ⟨parent, _, isParent, _, kept, _⟩ := reaches.kept front name back split
    have opened := reaches.opened front name back split
    rw [below] at opened
    exact ⟨opened, parent, isParent, kept⟩
  · rintro ⟨⟨readable, content, toFile⟩, passes⟩
    constructor
    case someNames =>
      rintro rfl
      rw [below] at toFile
      cases toFile
    case isFile => exact ⟨readable, content, toFile⟩
    case kept =>
      intro front name back split
      obtain ⟨_, parent, isParent, kept⟩ := passes front name back split
      rw [below, split] at toFile
      obtain ⟨listed, toListed, onward⟩ := Entry.at?_append toFile
      have isListed : name ∈ listed.names := by
        cases listed with
        | file readable content => cases onward
        | link target => cases onward
        | dir access inner =>
            obtain ⟨child, isChild, _⟩ := Option.bind_eq_some_iff.mp onward
            have innerProper : Entry.areProper inner = true :=
              (Entry.proper_of_at? isProper toListed).1
            exact List.mem_map.mpr ⟨_, (Entry.child?_eq_some_iff innerProper).mp isChild, rfl⟩
      refine ⟨parent, listed, isParent, by rw [below, toListed], kept, ?_⟩
      rw [keep, List.mem_filter]
      exact ⟨List.mem_map_of_mem isListed, by rw [kept]; rfl⟩
    case opened =>
      intro front name back split
      rw [below]
      exact (passes front name back split).1

/-- The walk reaches the files of the tree below its root. -/
theorem reaches_iff (proper : fs.root.isProper = true)
    (found : fs.lookup root = .ok (.dir access children)) :
    filter.Reaches fs root names ↔ names ∈ filesOf filter root true (.dir access children) := by
  rw [mem_filesOf (FileSystem.isProper_of_lookup proper found), reaches_iff_passes proper found,
    FileSystem.below?_of_lookup found]
  simp

/-- Names that lead to an entry are such as entries have. -/
theorem isEntryName_of_below? (proper : fs.root.isProper = true) {entry : Entry}
    (reached : fs.below? root names = some entry) :
    ∀ name ∈ names, Path.isEntryName name = true := by
  obtain ⟨start, found⟩ := FileSystem.lookup_of_below? reached
  rw [FileSystem.below?_of_lookup found] at reached
  exact (Entry.proper_of_at? (FileSystem.isProper_of_lookup proper found) reached).2

theorem isEntryName_of_reaches (proper : fs.root.isProper = true)
    (reaches : filter.Reaches fs root names) : ∀ name ∈ names, Path.isEntryName name = true := by
  obtain ⟨readable, content, reached⟩ := reaches.isFile
  exact isEntryName_of_below? proper reached

/-- A walk below a directory lists the files in it, if the directory can be listed. -/
theorem walk_of_lookup (found : fs.lookup root = .ok (.dir access children)) :
    filter.walk fs root =
      if access.list then
        .ok (((filesOf filter root true (.dir access children)).map relativePath).mergeSort
          fun p q => !q.lt p)
      else .error (.walk root .permissionDenied) := by
  rw [walk, if_pos (FileSystem.isDirectory_of_lookup found),
    FileSystem.openDirectory_of_lookup found]
  cases access.list <;> rfl

/-- A walk that finds anything has opened its root. -/
theorem walk_eq_ok {paths : List Path} (walked : filter.walk fs root = .ok paths) :
    ∃ access children, fs.lookup root = .ok (.dir access children) ∧ access.list = true ∧
      paths = ((filesOf filter root true (.dir access children)).map relativePath).mergeSort
        fun p q => !q.lt p := by
  cases isDirectory : fs.isDirectory root with
  | false =>
      rw [walk, if_neg (Bool.eq_false_iff.mp isDirectory)] at walked
      cases walked
  | true =>
      obtain ⟨access, children, found⟩ := FileSystem.isDirectory_eq_true_iff.mp isDirectory
      rw [walk_of_lookup found] at walked
      split at walked
      · next listed => exact ⟨access, children, found, listed, (Except.ok.inj walked).symm⟩
      · cases walked

/-- A walk succeeds exactly below a directory that can be listed. -/
theorem exists_walk_iff (filter : PathFilter) :
    (∃ paths, filter.walk fs root = .ok paths) ↔
      ∃ directory, fs.openDirectory root = .ok directory := by
  constructor
  · rintro ⟨paths, walked⟩
    obtain ⟨access, children, found, listed, _⟩ := walk_eq_ok walked
    exact ⟨_, by rw [FileSystem.openDirectory_of_lookup found, if_pos listed]⟩
  · rintro ⟨directory, opened⟩
    obtain ⟨access, children, found⟩ := FileSystem.lookup_of_openDirectory opened
    rw [FileSystem.openDirectory_of_lookup found] at opened
    split at opened
    · next listed => exact ⟨_, by rw [walk_of_lookup found, if_pos listed]⟩
    · cases opened

/-- Where a walk fails its root is no directory, or it is one that cannot be listed. -/
theorem walk_eq_error_iff {error : ScanError} :
    filter.walk fs root = .error error ↔
      (fs.isDirectory root = false ∧ error = .rootNotFound root) ∨
        fs.isDirectory root = true ∧
          ∃ cause, fs.openDirectory root = .error cause ∧ error = .walk root cause := by
  rw [walk]
  cases fs.isDirectory root with
  | false => simp [eq_comm]
  | true =>
      cases fs.openDirectory root with
      | ok directory => simp
      | error cause => simp [eq_comm]

/-- The paths that a walk finds are spelled by the names that lead to the files it reaches. -/
theorem mem_walk (proper : fs.root.isProper = true) {paths : List Path}
    (walked : filter.walk fs root = .ok paths) :
    path ∈ paths ↔ ∃ names, path = relativePath names ∧ filter.Reaches fs root names := by
  obtain ⟨access, children, found, _, rfl⟩ := walk_eq_ok walked
  simp only [List.mem_mergeSort, List.mem_map, reaches_iff proper found]
  constructor
  · rintro ⟨names, reached, isPath⟩
    exact ⟨names, isPath.symm, reached⟩
  · rintro ⟨names, isPath, reached⟩
    exact ⟨names, reached, isPath.symm⟩

/-- They are in path order, and none comes twice. -/
theorem inOrder_walk (proper : fs.root.isProper = true) {paths : List Path}
    (walked : filter.walk fs root = .ok paths) : Path.InOrder paths := by
  obtain ⟨access, children, found, _, rfl⟩ := walk_eq_ok walked
  have isProper := FileSystem.isProper_of_lookup proper found
  have areNames : ∀ names ∈ filesOf filter root true (.dir access children),
      ∀ name ∈ names, Path.isEntryName name = true :=
    fun names member => isEntryName_of_reaches proper ((reaches_iff proper found).mpr member)
  refine Path.inOrder_mergeSort (List.pairwise_map.mpr ?_)
  refine (nodup_filesOf filter root true _ isProper).imp_of_mem ?_
  intro names others member otherMember apart same
  have sameComponents : (relativePath names).components = (relativePath others).components :=
    Path.same_iff_components.mp (Path.same_iff.mpr same)
  exact apart
    (Path.relativePath_injective (areNames names member) (areNames others otherMember)
      sameComponents)

/-! ### A root of any length -/

/-- A file system with one directory below its root, which is the current one. -/
def workingIn (access : Access) (children : List (Name × Entry)) : FileSystem :=
  { root := .folder [("w", .dir access children)], currentDir := ⟨"/w"⟩ }

theorem lookup_dotSlashes {access : Access} (searched : access.search = true)
    (children : List (Name × Entry)) (slashes : Nat) (short : slashes < maxPathBytes) :
    (workingIn access children).lookup (Path.dotSlashes slashes) =
      .ok (.dir access children) := by
  have noNul : (Path.dotSlashes slashes).bytes.contains 0 = false := by
    simp [Path.dotSlashes, Path.dot, Path.slash]
  have notLong : ¬ maxPathBytes < (Path.dotSlashes slashes).bytes.length := by
    rw [Path.length_dotSlashes]
    exact not_lt.mpr short
  have atStart : (workingIn access children).start (Path.dotSlashes slashes) = [↑"w"] := by
    rw [FileSystem.start, if_neg (by simp [Path.dotSlashes, Path.isAbsolute])]
    rfl
  have atW : (workingIn access children).root.at? (List.reverse [↑"w"]) =
      some (.dir access children) := rfl
  have steps : FileSystem.follow (workingIn access children).root [↑"w"]
      (Path.segments (Path.dotSlashes slashes).bytes) = .ok (.found [↑"w"]) :=
    FileSystem.follow_idle [↑"w"] searched atW (Path.idle_segments_dotSlashes slashes)
  have arrived : (workingIn access children).arrive (Path.dotSlashes slashes) =
      .ok (.found [↑"w"]) := by
    rw [FileSystem.arrive, noNul, if_neg Bool.false_ne_true, if_neg (by simp [Path.dotSlashes]),
      if_neg notLong, FileSystem.resolve, atStart, steps]
  rw [FileSystem.lookup, arrived]
  dsimp only
  rw [atW]

/-! ### What a walk finds -/

/-- Below a directory that can be listed the walk finds exactly the files all of whose names survive
    the filter, in path order. Where there is no directory, it says that the root was not found, and
    where there is one that cannot be listed, why. -/
theorem walk_filters_levels (filter : PathFilter) (fs : FileSystem) (root : Path)
    (proper : fs.root.isProper = true) :
    ((∃ directory, fs.openDirectory root = .ok directory) →
      ∃ paths, filter.walk fs root = .ok paths ∧ Path.InOrder paths ∧
        ∀ path, path ∈ paths ↔
          ∃ names, path = relativePath names ∧ filter.Reaches fs root names) ∧
      (fs.isDirectory root = false → filter.walk fs root = .error (.rootNotFound root)) ∧
      ∀ cause, fs.isDirectory root = true → fs.openDirectory root = .error cause →
        filter.walk fs root = .error (.walk root cause) := by
  refine ⟨fun opened => ?_, fun noDirectory => ?_, fun cause isDirectory denied => ?_⟩
  · obtain ⟨paths, walked⟩ := (exists_walk_iff filter).mpr opened
    exact ⟨paths, walked, inOrder_walk proper walked, fun path => mem_walk proper walked⟩
  · exact walk_eq_error_iff.mpr (.inl ⟨noDirectory, rfl⟩)
  · exact walk_eq_error_iff.mpr (.inr ⟨isDirectory, cause, denied, rfl⟩)

/-- A tree with a hidden directory that is asked for and a hidden file that is not, a directory that
    is never entered, one that a pattern rules out, one that cannot be listed, and a link. -/
theorem walk_filters_levels_pruned :
    let tree : List (Name × Entry) :=
      [("b.yml", .text ""),
        (".github", .folder [("a.yml", .text ""), (".env", .text "")]),
        ("node_modules", .folder [("c.yml", .text "")]),
        ("out", .folder [("d.yml", .text "")]),
        ("closed", .dir { list := false } [("e.yml", .text "")]),
        ("link", .link ⟨"b.yml"⟩)]
    let fs := workingIn {} tree
    let closed := workingIn { list := false } tree
    let filter : PathFilter := { excluded := ["out"], included := [".github"] }
    fs.root.isProper = true ∧ closed.root.isProper = true ∧
      fs.isDirectory ⟨"s"⟩ = false ∧ closed.isDirectory ⟨"."⟩ = true ∧
      (∃ paths, filter.walk fs ⟨"."⟩ = .ok paths ∧ Path.InOrder paths ∧
        ∀ path, path ∈ paths ↔ path = ⟨".github/a.yml"⟩ ∨ path = ⟨"b.yml"⟩) ∧
      filter.walk fs ⟨"s"⟩ = .error (.rootNotFound ⟨"s"⟩) ∧
      filter.walk closed ⟨"."⟩ = .error (.walk ⟨"."⟩ .permissionDenied) := by
  intro tree fs closed filter
  have proper : fs.root.isProper = true := by decide +kernel
  have closedProper : closed.root.isProper = true := by decide +kernel
  have noDirectory : fs.isDirectory ⟨"s"⟩ = false := by decide +kernel
  have found : fs.lookup ⟨"."⟩ = .ok (.folder tree) := lookup_dotSlashes rfl tree 0 (by decide)
  have opened : fs.openDirectory ⟨"."⟩ = .ok (.folder tree) :=
    FileSystem.openDirectory_of_lookup found
  have closedFound : closed.lookup ⟨"."⟩ = .ok (.dir { list := false } tree) :=
    lookup_dotSlashes rfl tree 0 (by decide)
  have isDirectory := FileSystem.isDirectory_of_lookup closedFound
  have denied : closed.openDirectory ⟨"."⟩ = .error .permissionDenied :=
    FileSystem.openDirectory_of_lookup closedFound
  obtain ⟨paths, walked, inOrder, members⟩ :=
    (walk_filters_levels filter fs ⟨"."⟩ proper).1 ⟨_, opened⟩
  have files : filesOf filter ⟨"."⟩ true (.folder tree) =
      ([["b.yml"], [".github", "a.yml"]] : List (List Name)) := by decide +kernel
  refine ⟨proper, closedProper, noDirectory, isDirectory,
    ⟨paths, walked, inOrder, fun path => ?_⟩,
    (walk_filters_levels filter fs ⟨"s"⟩ proper).2.1 noDirectory,
    (walk_filters_levels filter closed ⟨"."⟩ closedProper).2.2 _ isDirectory denied⟩
  simp only [members, reaches_iff proper found, files]
  constructor
  · rintro ⟨names, rfl, member⟩
    rcases List.mem_pair.mp member with rfl | rfl
    · exact Or.inr rfl
    · exact Or.inl rfl
  · rintro (rfl | rfl)
    · exact ⟨[".github", "a.yml"], rfl, by decide⟩
    · exact ⟨["b.yml"], rfl, by decide⟩

/-- A file two levels below a root whose path has the greatest length, and one in a directory that
    cannot be listed: nothing is ignored on the way to the file, but its directory cannot be opened,
    and the walk finds nothing. A root that cannot be listed is no missing one. -/
theorem walk_passes_over_unopened :
    let far := workingIn {} [("d", .folder [("a.yml", .text "")])]
    let closed := workingIn {} [("d", .dir { list := false } [("a.yml", .text "")])]
    let sealed := workingIn { list := false } []
    let root := Path.dotSlashes 4094
    let filter : PathFilter := {}
    (far.root.isProper = true ∧ closed.root.isProper = true ∧ sealed.root.isProper = true) ∧
      (far.isDirectory root = true ∧ closed.isDirectory ⟨"."⟩ = true ∧
        sealed.isDirectory ⟨"."⟩ = true) ∧
      (far.below? root ["d", "a.yml"] = some (.text "") ∧
        closed.below? ⟨"."⟩ ["d", "a.yml"] = some (.text "")) ∧
      (∀ directory, filter.ignores directory "d" = false ∧
        filter.ignores directory "a.yml" = false) ∧
      filter.walk far root = .ok [] ∧ filter.walk closed ⟨"."⟩ = .ok [] ∧
      filter.walk sealed ⟨"."⟩ = .error (.walk ⟨"."⟩ .permissionDenied) := by
  intro far closed sealed root filter
  have farFound : far.lookup root = .ok (.folder [("d", .folder [("a.yml", .text "")])]) :=
    lookup_dotSlashes rfl _ 4094 (by decide)
  have closedFound : closed.lookup ⟨"."⟩ =
      .ok (.folder [("d", .dir { list := false } [("a.yml", .text "")])]) :=
    lookup_dotSlashes rfl _ 0 (by decide)
  have sealedFound : sealed.lookup ⟨"."⟩ = .ok (.dir { list := false } []) :=
    lookup_dotSlashes rfl _ 0 (by decide)
  refine ⟨⟨by decide +kernel, by decide +kernel, by decide +kernel⟩,
    ⟨FileSystem.isDirectory_of_lookup farFound, FileSystem.isDirectory_of_lookup closedFound,
      FileSystem.isDirectory_of_lookup sealedFound⟩,
    ⟨FileSystem.below?_of_lookup farFound _, FileSystem.below?_of_lookup closedFound _⟩,
    fun directory => ⟨rfl, rfl⟩, ?_, ?_, ?_⟩
  · have tooLong : ¬ (root.join ⟨"d"⟩).bytes.length ≤ maxPathBytes := by
      have rootLength : root.bytes.length = maxPathBytes := Path.length_dotSlashes 4094
      have nameLength : (⟨"d"⟩ : Path).bytes.length = 1 := by decide
      rw [Path.length_join rfl, rootLength, nameLength]
      omega
    have noFiles : filesOf filter root true (.folder [("d", .folder [("a.yml", .text "")])]) =
        [] := by
      rw [List.eq_nil_iff_forall_not_mem]
      intro names member
      obtain ⟨_, inChildren⟩ := filesOf_dir.mp member
      obtain ⟨name, entry, rest, _, isChild, _, inEntry⟩ := mem_filesIn.mp inChildren
      cases List.mem_singleton.mp isChild
      exact tooLong (filesOf_dir.mp inEntry).1.2.2
    rw [walk_of_lookup farFound, if_pos rfl, noFiles, List.map_nil, List.mergeSort_nil]
  · rw [walk_of_lookup closedFound]
    decide +kernel
  · rw [walk_of_lookup sealedFound]
    rfl

end PathFilter

end ConfigScan
