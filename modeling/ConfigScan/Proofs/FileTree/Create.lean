/-
Module: ConfigScan.Proofs.FileTree.Create
Purpose: Every file system that is built entry by entry has a proper tree.
Main exports: FileSystem.Grown, FileSystem.Grown.isProper
-/
import ConfigScan.FileTree.Create
import ConfigScan.Proofs.FileTree

namespace ConfigScan

namespace Entry

variable {children : List (Name × Entry)} {name : Name} {entry : Entry}

theorem mem_keys_setChild {other : Name} :
    other ∈ (setChild name entry children).map Prod.fst ↔
      other = name ∨ other ∈ children.map Prod.fst := by
  induction children with
  | nil => simp [setChild]
  | cons child rest inductionHypothesis =>
      obtain ⟨first, old⟩ := child
      rw [setChild]
      split
      · next isName =>
        subst isName
        simp
      · rw [List.map_cons, List.mem_cons, inductionHypothesis, List.map_cons, List.mem_cons]
        tauto

theorem areProper_setChild (proper : areProper children = true)
    (isName : Path.isEntryName name = true) (entryProper : entry.isProper = true) :
    areProper (setChild name entry children) = true := by
  induction children with
  | nil => simp [setChild, areProper, isName, entryProper]
  | cons child rest inductionHypothesis =>
      obtain ⟨first, old⟩ := child
      simp only [areProper, Bool.and_eq_true, Bool.not_eq_true', List.contains_eq_mem,
        decide_eq_false_iff_not] at proper
      obtain ⟨⟨⟨firstIsName, new⟩, oldProper⟩, restProper⟩ := proper
      rw [setChild]
      split
      · next same =>
        subst same
        simp [areProper, new, isName, entryProper, restProper]
      · next different =>
        simp only [areProper, Bool.and_eq_true, Bool.not_eq_true', List.contains_eq_mem,
          decide_eq_false_iff_not, mem_keys_setChild, not_or]
        exact ⟨⟨⟨firstIsName, different, new⟩, oldProper⟩, inductionHypothesis restProper⟩

/-- A proper entry put under names that entries can have leaves the tree proper. -/
theorem isProper_put {tree : Entry} {names : List Name} (proper : tree.isProper = true)
    (areNames : ∀ name ∈ names, Path.isEntryName name = true)
    (entryProper : entry.isProper = true) : (put entry names tree).isProper = true := by
  induction names generalizing tree with
  | nil =>
      rw [put]
      exact entryProper
  | cons name rest inductionHypothesis =>
      cases tree with
      | file readable content => exact proper
      | link target => exact proper
      | dir access children =>
          have childrenProper : areProper children = true := proper
          have innerProper : ((child? name children).getD (folder [])).isProper = true := by
            cases isChild : child? name children with
            | none => rfl
            | some child =>
                exact (proper_of_mem childrenProper
                  ((child?_eq_some_iff childrenProper).mp isChild)).2
          have further := inductionHypothesis innerProper
            fun other member => areNames other (List.mem_cons_of_mem _ member)
          exact areProper_setChild childrenProper (areNames name List.mem_cons_self) further

end Entry

namespace FileSystem

/-- Entries can have all these names. -/
def AreNames (names : List Name) : Prop := ∀ name ∈ names, Path.isEntryName name = true

/-- No segment has a slash. -/
def NoSlashes (parts : List (List UInt8)) : Prop := ∀ segment ∈ parts, Path.slash ∉ segment

/-- A look-up ends at names that entries can have, or at a link with segments to go. -/
def Arrival.IsProper : Arrival → Prop
  | .found place => AreNames place
  | .missing place name => AreNames (name :: place)
  | .link place _ rest => AreNames place ∧ NoSlashes rest

variable {fs : FileSystem} {root : Entry} {place : List Name} {parts : List (List UInt8)}
  {arrival : Arrival}

theorem noSlashes_segments (bytes : List UInt8) : NoSlashes (Path.segments bytes) :=
  fun _ member => Path.no_slash_of_mem_segments member

theorem AreNames.nil : AreNames [] := fun _ member => absurd member List.not_mem_nil

theorem AreNames.cons {name : Name} (isName : Path.isEntryName name = true)
    (areNames : AreNames place) : AreNames (name :: place) :=
  List.forall_mem_cons.mpr ⟨isName, areNames⟩

theorem isProper_of_follow (areNames : AreNames place) (noSlashes : NoSlashes parts)
    (followed : follow root place parts = .ok arrival) : arrival.IsProper := by
  induction parts generalizing place with
  | nil =>
      cases followed
      exact areNames
  | cons segment rest inductionHypothesis =>
      obtain ⟨noSlash, restNoSlashes⟩ := List.forall_mem_cons.mp noSlashes
      rw [follow] at followed
      split at followed
      case h_2 => cases followed
      case h_1 =>
        -- the guards in the order of the definition: an empty segment, a directory that cannot be
        -- searched, the two dotted segments, and a name that is too long
        split at followed
        · exact inductionHypothesis areNames restNoSlashes followed
        next notEmpty =>
        split at followed
        · cases followed
        split at followed
        · exact inductionHypothesis areNames restNoSlashes followed
        next notDot =>
        split at followed
        · have tailNames : AreNames place.tail :=
            fun name member => areNames name (List.mem_of_mem_tail member)
          exact inductionHypothesis tailNames restNoSlashes followed
        next notDots =>
        have isName : Path.isEntryName segment = true := by
          refine Path.isEntryName_iff.mpr ⟨?_, notDots, noSlash⟩
          simp [Path.isIdle, notEmpty, notDot]
        split at followed
        · cases followed
        split at followed
        · split at followed
          · cases followed
            exact areNames.cons isName
          · cases followed
        · cases followed
          exact ⟨areNames, restNoSlashes⟩
        · exact inductionHypothesis (areNames.cons isName) restNoSlashes followed

theorem isProper_of_resolve {links : Nat} (areNames : AreNames place)
    (noSlashes : NoSlashes parts) (resolved : resolve root links place parts = .ok arrival) :
    arrival.IsProper := by
  induction links generalizing place parts with
  | zero =>
      rw [resolve] at resolved
      split at resolved
      · cases resolved
      · exact isProper_of_follow areNames noSlashes resolved
  | succ left inductionHypothesis =>
      rw [resolve] at resolved
      split at resolved
      · next dir target rest followed =>
        obtain ⟨dirNames, restNoSlashes⟩ := isProper_of_follow areNames noSlashes followed
        refine inductionHypothesis ?_ ?_ resolved
        · split
          · exact AreNames.nil
          · exact dirNames
        · intro segment member
          rcases List.mem_append.mp member with inTarget | inRest
          · exact noSlashes_segments _ segment inTarget
          · exact restNoSlashes segment inRest
      · exact isProper_of_follow areNames noSlashes resolved

/-- The current directory is given by names, however it is spelled. -/
theorem areNames_start (fs : FileSystem) (path : Path) : AreNames (fs.start path) := by
  rw [start]
  split
  · exact AreNames.nil
  · intro name member
    obtain ⟨component, isComponent, isName⟩ := List.mem_filterMap.mp (List.mem_reverse.mp member)
    cases component with
    | name bytes =>
        cases isName
        exact Path.isEntryName_of_mem_components isComponent
    | _ => cases isName

theorem isProper_of_arrive {path : Path} (arrived : fs.arrive path = .ok arrival) :
    arrival.IsProper := by
  rw [arrive] at arrived
  split at arrived
  · cases arrived
  · split at arrived
    · cases arrived
    · split at arrived
      · cases arrived
      · exact isProper_of_resolve (areNames_start fs path) (noSlashes_segments _) arrived

/-! ### One change after another -/

/-- The file system has a proper tree, and the place in it, if there is one, is given by names. -/
def IsProperAt (reached : FileSystem × Option (List Name)) : Prop :=
  reached.1.root.isProper = true ∧ ∀ place, reached.2 = some place → AreNames place

theorem isProper_putAt {entry : Entry} (proper : fs.root.isProper = true)
    (areNames : AreNames place) (entryProper : entry.isProper = true) :
    (fs.putAt place entry).root.isProper = true :=
  Entry.isProper_put proper (fun name member => areNames name (List.mem_reverse.mp member))
    entryProper

theorem isProperAt_enter {segment : List UInt8} (proper : fs.root.isProper = true)
    (areNames : AreNames place) (noSlash : Path.slash ∉ segment) :
    IsProperAt (fs.enter place segment) := by
  have noSlashes : NoSlashes [segment] := List.forall_mem_singleton.mpr noSlash
  have lost : IsProperAt (fs, none) := ⟨proper, fun _ found => nomatch found⟩
  rw [enter]
  split
  · next dir name followed =>
    have newNames : AreNames (name :: dir) := isProper_of_follow areNames noSlashes followed
    refine ⟨isProper_putAt proper newNames rfl, fun there isThere => ?_⟩
    cases isThere
    exact newNames
  · split
    · next there resolved =>
      have thereNames : AreNames there := isProper_of_resolve areNames noSlashes resolved
      split
      · refine ⟨proper, fun other isOther => ?_⟩
        cases isOther
        exact thereNames
      · exact lost
    · exact lost
  · exact lost

theorem isProperAt_enterAll (proper : fs.root.isProper = true) (areNames : AreNames place)
    (noSlashes : NoSlashes parts) : IsProperAt (fs.enterAll place parts) := by
  induction parts generalizing fs place with
  | nil =>
      refine ⟨proper, fun other isOther => ?_⟩
      cases isOther
      exact areNames
  | cons segment rest inductionHypothesis =>
      obtain ⟨noSlash, restNoSlashes⟩ := List.forall_mem_cons.mp noSlashes
      obtain ⟨nextProper, nextNames⟩ := isProperAt_enter proper areNames noSlash
      rw [enterAll]
      split
      · next there entered =>
        rw [entered] at nextProper nextNames
        exact inductionHypothesis nextProper (nextNames there rfl) restNoSlashes
      · next entered =>
        rw [entered] at nextProper
        exact ⟨nextProper, fun _ found => nomatch found⟩

theorem isProperAt_addDirectory (path : Path) (proper : fs.root.isProper = true) :
    IsProperAt (fs.addDirectory path) :=
  isProperAt_enterAll proper (areNames_start fs path) (noSlashes_segments _)

theorem isProperAt_addParent (path : Path) (proper : fs.root.isProper = true) :
    IsProperAt (fs.addParent path) := by
  rw [addParent]
  split
  · exact isProperAt_addDirectory _ proper
  · refine ⟨proper, fun place isPlace => ?_⟩
    cases isPlace
    exact AreNames.nil

theorem isProper_addFile (path : Path) (content : List UInt8) (proper : fs.root.isProper = true) :
    (fs.addFile path content).root.isProper = true := by
  obtain ⟨withParent, _⟩ := isProperAt_addParent path proper
  rw [addFile]
  split
  · next entered =>
    rw [entered] at withParent
    exact withParent
  · next entered =>
    rw [entered] at withParent
    split
    · next arrived => exact isProper_putAt withParent (isProper_of_arrive arrived) rfl
    · next arrived =>
      split
      · exact isProper_putAt withParent (isProper_of_arrive arrived) rfl
      · exact withParent
    · exact withParent

theorem isProper_addLink (path target : Path) (proper : fs.root.isProper = true) :
    (fs.addLink path target).root.isProper = true := by
  obtain ⟨withParent, placeNames⟩ := isProperAt_addParent path proper
  rw [addLink]
  split
  · next place name entered isName =>
    rw [entered] at withParent placeNames
    have entryName : Path.isEntryName name = true := by
      rw [Path.name?] at isName
      split at isName
      · next isLast =>
        cases isName
        exact Path.isEntryName_of_mem_components (List.mem_of_getLast? isLast)
      · cases isName
    split
    · split
      · exact isProper_putAt withParent ((placeNames place rfl).cons entryName) rfl
      · exact withParent
    · exact withParent
  · next entered _ =>
    rw [entered] at withParent
    exact withParent

/-- The file systems that arise from the current directory alone by making directories, writing
    files and making links. -/
inductive Grown (currentDir : Path) : FileSystem → Prop
  | empty : Grown currentDir (empty currentDir)
  | directory {fs : FileSystem} (path : Path) :
      Grown currentDir fs → Grown currentDir (fs.addDirectory path).1
  | file {fs : FileSystem} (path : Path) (content : List UInt8) :
      Grown currentDir fs → Grown currentDir (fs.addFile path content)
  | link {fs : FileSystem} (path target : Path) :
      Grown currentDir fs → Grown currentDir (fs.addLink path target)

/-- Directories one inside the other make a proper tree. -/
theorem isProper_nested {names : List Name} (areNames : AreNames names) :
    (names.foldr (fun name inner => Entry.folder [(name, inner)]) (.folder [])).isProper = true := by
  induction names with
  | nil => rfl
  | cons name rest inductionHypothesis =>
      obtain ⟨isName, restNames⟩ := List.forall_mem_cons.mp areNames
      simp [Entry.isProper, Entry.areProper, isName, inductionHypothesis restNames]

theorem isProper_empty (currentDir : Path) : (empty currentDir).root.isProper = true := by
  refine isProper_nested fun name member => ?_
  obtain ⟨component, isComponent, isName⟩ := List.mem_filterMap.mp member
  cases component with
  | name bytes =>
      cases isName
      exact Path.isEntryName_of_mem_components isComponent
  | _ => cases isName

/-- All of them have proper trees. -/
theorem Grown.isProper {currentDir : Path} (grown : Grown currentDir fs) :
    fs.root.isProper = true := by
  induction grown with
  | empty => exact isProper_empty currentDir
  | directory path _ inductionHypothesis =>
      exact (isProperAt_addDirectory path inductionHypothesis).1
  | file path content _ inductionHypothesis =>
      exact isProper_addFile path content inductionHypothesis
  | link path target _ inductionHypothesis =>
      exact isProper_addLink path target inductionHypothesis

end FileSystem

end ConfigScan
