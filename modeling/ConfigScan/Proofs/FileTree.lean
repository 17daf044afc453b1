/-
Module: ConfigScan.Proofs.FileTree
Purpose: Trees as a file system holds them: the entries of a directory have different names, and
  each has a name that an entry can have. What lies below a directory, and which paths can be looked
  up at all.
Main exports: Entry.isProper, Entry.child?_eq_some_iff, FileSystem.below?,
  FileSystem.length_le_of_lookup
-/
import ConfigScan.Proofs.Path.Join

namespace ConfigScan

namespace Entry

mutual

/-- In all directories of the tree the entries have different names, which are names that an entry
    can have. -/
def isProper : Entry → Bool
  | .file .. => true
  | .link _ => true
  | .dir _ children => areProper children

/-- The same of the children of a directory. -/
def areProper : List (Name × Entry) → Bool
  | [] => true
  | (name, entry) :: rest =>
      Path.isEntryName name && !(rest.map Prod.fst).contains name && isProper entry &&
        areProper rest

end

/-- The names in a directory, in the order of its entries. -/
def names : Entry → List Name
  | .dir _ children => children.map Prod.fst
  | _ => []

variable {children : List (Name × Entry)}

theorem nodup_of_areProper (proper : areProper children = true) :
    (children.map Prod.fst).Nodup := by
  induction children with
  | nil => exact List.nodup_nil
  | cons child rest inductionHypothesis =>
      obtain ⟨name, entry⟩ := child
      simp only [areProper, Bool.and_eq_true, Bool.not_eq_true', List.contains_eq_mem,
        decide_eq_false_iff_not] at proper
      exact List.nodup_cons.mpr ⟨proper.1.1.2, inductionHypothesis proper.2⟩

theorem proper_of_mem (proper : areProper children = true) {name : Name} {entry : Entry}
    (member : (name, entry) ∈ children) :
    Path.isEntryName name = true ∧ entry.isProper = true := by
  induction children with
  | nil => cases member
  | cons child rest inductionHypothesis =>
      obtain ⟨other, otherEntry⟩ := child
      simp only [areProper, Bool.and_eq_true] at proper
      rcases List.mem_cons.mp member with isFirst | later
      · cases isFirst
        exact ⟨proper.1.1.1, proper.1.2⟩
      · exact inductionHypothesis proper.2 later

/-- By its name an entry of a directory is found. -/
theorem child?_eq_some_iff (proper : areProper children = true) {name : Name} {entry : Entry} :
    child? name children = some entry ↔ (name, entry) ∈ children := by
  have nodup := nodup_of_areProper proper
  clear proper
  induction children with
  | nil => simp [child?]
  | cons child rest inductionHypothesis =>
      obtain ⟨other, otherEntry⟩ := child
      obtain ⟨notLater, restNodup⟩ := List.nodup_cons.mp nodup
      rw [child?, List.mem_cons, Prod.mk.injEq]
      by_cases isName : other = name
      · subst isName
        rw [if_pos rfl, Option.some.injEq]
        constructor
        · intro same
          exact Or.inl ⟨rfl, same.symm⟩
        · rintro (⟨_, same⟩ | later)
          · exact same.symm
          · exact absurd (List.mem_map.mpr ⟨(other, entry), later, rfl⟩) notLater
      · have later_iff : child? name rest = some entry ↔ (name, entry) ∈ rest :=
          inductionHypothesis restNodup
        rw [if_neg isName, later_iff]
        simp [Ne.symm isName]

/-- All that lies in a proper tree is proper, and the names that lead there are proper ones. -/
theorem proper_of_at? {entry found : Entry} {names : List Name} (proper : entry.isProper = true)
    (reached : entry.at? names = some found) :
    found.isProper = true ∧ ∀ name ∈ names, Path.isEntryName name = true := by
  induction names generalizing entry with
  | nil =>
      cases reached
      exact ⟨proper, by simp⟩
  | cons name rest inductionHypothesis =>
      cases entry with
      | file readable content => cases reached
      | link target => cases reached
      | dir access children =>
          obtain ⟨child, isChild, further⟩ := Option.bind_eq_some_iff.mp reached
          have childrenProper : areProper children = true := proper
          have member := (child?_eq_some_iff childrenProper).mp isChild
          obtain ⟨isName, childProper⟩ := proper_of_mem childrenProper member
          obtain ⟨foundProper, areNames⟩ := inductionHypothesis childProper further
          refine ⟨foundProper, fun other otherMember => ?_⟩
          rcases List.mem_cons.mp otherMember with isFirst | later
          · rw [isFirst]
            exact isName
          · exact areNames other later

/-- On the way to an entry all other entries are directories. -/
theorem at?_append {entry found : Entry} {front back : List Name}
    (reached : entry.at? (front ++ back) = some found) :
    ∃ between, entry.at? front = some between ∧ between.at? back = some found := by
  induction front generalizing entry with
  | nil => exact ⟨entry, rfl, reached⟩
  | cons name rest inductionHypothesis =>
      cases entry with
      | file readable content => cases reached
      | link target => cases reached
      | dir access children =>
          obtain ⟨child, isChild, further⟩ := Option.bind_eq_some_iff.mp reached
          obtain ⟨between, toBetween, onward⟩ := inductionHypothesis further
          refine ⟨between, ?_, onward⟩
          rw [at?, isChild]
          exact toBetween

end Entry

namespace FileSystem

variable {fs : FileSystem} {path : Path} {entry : Entry}

/-- The entry that names lead to from what a path names. Links are not followed on the way. -/
def below? (fs : FileSystem) (path : Path) (names : List Name) : Option Entry :=
  match fs.lookup path with
  | .ok entry => entry.at? names
  | .error _ => none

theorem below?_of_lookup (found : fs.lookup path = .ok entry) (names : List Name) :
    fs.below? path names = entry.at? names := by
  rw [below?, found]

theorem lookup_of_below? {names : List Name} (found : fs.below? path names = some entry) :
    ∃ start, fs.lookup path = .ok start := by
  rw [below?] at found
  split at found
  · next start looked => exact ⟨start, looked⟩
  · cases found

theorem isDirectory_eq_true_iff :
    fs.isDirectory path = true ↔
      ∃ access children, fs.lookup path = .ok (.dir access children) := by
  rw [isDirectory]
  cases fs.lookup path with
  | error cause => simp
  | ok entry => cases entry <;> simp

theorem isDirectory_of_lookup {access : Access} {children : List (Name × Entry)}
    (found : fs.lookup path = .ok (.dir access children)) : fs.isDirectory path = true :=
  isDirectory_eq_true_iff.mpr ⟨access, children, found⟩

/-- Of a directory that can be found the listing can be denied, and nothing else can go wrong. -/
theorem openDirectory_of_lookup {access : Access} {children : List (Name × Entry)}
    (found : fs.lookup path = .ok (.dir access children)) :
    fs.openDirectory path =
      if access.list then .ok (.dir access children) else .error .permissionDenied := by
  rw [openDirectory, found]

/-- What is opened is a directory. -/
theorem lookup_of_openDirectory (opened : fs.openDirectory path = .ok entry) :
    ∃ access children, fs.lookup path = .ok (.dir access children) := by
  rw [openDirectory] at opened
  split at opened
  · next access children found => exact ⟨access, children, found⟩
  · cases opened
  · cases opened

/-- What is looked up lies in the tree. -/
theorem lookup_eq_ok (found : fs.lookup path = .ok entry) :
    ∃ place, fs.root.at? place = some entry := by
  rw [lookup] at found
  split at found
  · next place _ =>
    split at found
    · next reached =>
      exact ⟨place.reverse, by rw [reached, Except.ok.inj found]⟩
    · cases found
  · cases found
  · cases found

/-- Nothing is found at the empty path or at one that is too long. -/
theorem length_le_of_lookup (found : fs.lookup path = .ok entry) :
    path.bytes ≠ [] ∧ path.bytes.length ≤ maxPathBytes := by
  by_contra outOfBounds
  have failed : ∃ cause, fs.arrive path = .error cause := by
    rw [arrive]
    split
    · exact ⟨_, rfl⟩
    · split
      · exact ⟨_, rfl⟩
      · next hasText =>
        split
        · exact ⟨_, rfl⟩
        · next short =>
          rw [List.isEmpty_iff] at hasText
          exact absurd ⟨hasText, not_lt.mp short⟩ outOfBounds
  obtain ⟨cause, failed⟩ := failed
  rw [lookup, failed] at found
  cases found

/-- Segments without a step lead nowhere from a directory that can be searched. -/
theorem follow_idle {root : Entry} (place : List Name) {access : Access}
    {children : List (Name × Entry)} (searched : access.search = true)
    (isDirectory : root.at? place.reverse = some (.dir access children))
    {parts : List (List UInt8)} (idle : ∀ segment ∈ parts, Path.isIdle segment = true) :
    follow root place parts = .ok (.found place) := by
  induction parts with
  | nil => rfl
  | cons segment rest inductionHypothesis =>
      have further := inductionHypothesis fun other member =>
        idle other (List.mem_cons_of_mem _ member)
      have isIdle := idle segment List.mem_cons_self
      rw [Path.isIdle, Bool.or_eq_true, beq_iff_eq, beq_iff_eq] at isIdle
      rw [follow, isDirectory]
      rcases isIdle with rfl | rfl
      · exact further
      · simp [searched, further]

theorem isProper_of_lookup (proper : fs.root.isProper = true)
    (found : fs.lookup path = .ok entry) : entry.isProper = true := by
  obtain ⟨place, reached⟩ := lookup_eq_ok found
  exact (Entry.proper_of_at? proper reached).1

end FileSystem

end ConfigScan
