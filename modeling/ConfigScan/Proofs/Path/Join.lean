/-
Module: ConfigScan.Proofs.Path.Join
Purpose: The components of a path seen from a directory: those of the directory, and then those of
  the path behind a leading dot. A name that an entry can have is one component.
Main exports: Path.components_join, Path.isEntryName, Path.components_relativePath, Path.descend,
  Path.descend_eq_join
-/
import ConfigScan.Path.Display
import ConfigScan.PathFilter
import ConfigScan.Proofs.Text.Utf8
import Mathlib

namespace ConfigScan.Path

/-! ### Segments -/

@[simp] theorem dot_ne_slash : dot ≠ slash := by decide

theorem segments_ne_nil (bytes : List UInt8) : segments bytes ≠ [] := by
  cases bytes with
  | nil => simp [segments]
  | cons c rest =>
      rw [segments]
      split
      · simp
      · split <;> simp

/-- A slash cuts a path in two. -/
theorem segments_append_slash (front back : List UInt8) :
    segments (front ++ slash :: back) = segments front ++ segments back := by
  induction front with
  | nil => simp [segments]
  | cons c rest inductionHypothesis =>
      rw [List.cons_append, segments, segments, inductionHypothesis]
      by_cases isSlash : c = slash
      · simp [isSlash]
      · cases cut : segments rest with
        | nil => exact absurd cut (segments_ne_nil rest)
        | cons head tail => simp [isSlash]

theorem segments_of_no_slash {bytes : List UInt8} (noSlash : slash ∉ bytes) :
    segments bytes = [bytes] := by
  induction bytes with
  | nil => rfl
  | cons c rest inductionHypothesis =>
      rw [List.mem_cons, not_or] at noSlash
      simp [segments, Ne.symm noSlash.1, inductionHypothesis noSlash.2]

theorem no_slash_of_mem_segments {bytes segment : List UInt8}
    (member : segment ∈ segments bytes) : slash ∉ segment := by
  induction bytes generalizing segment with
  | nil =>
      rw [segments, List.mem_singleton] at member
      simp [member]
  | cons c rest inductionHypothesis =>
      rw [segments] at member
      split at member
      · rcases List.mem_cons.mp member with isEmpty | later
        · simp [isEmpty]
        · exact inductionHypothesis later
      · next notSlash =>
        cases cut : segments rest with
        | nil => exact absurd cut (segments_ne_nil rest)
        | cons head tail =>
            rw [cut] at member
            rcases List.mem_cons.mp member with isFirst | later
            · have headNoSlash : slash ∉ head := inductionHypothesis (by simp [cut])
              simp [isFirst, Ne.symm notSlash, headNoSlash]
            · exact inductionHypothesis (by simp [cut, later])

/-- One more part comes behind one more slash. -/
theorem unsegments_concat {parts : List (List UInt8)} (nonempty : parts ≠ [])
    (last : List UInt8) : unsegments (parts ++ [last]) = unsegments parts ++ slash :: last := by
  induction parts with
  | nil => exact absurd rfl nonempty
  | cons first rest inductionHypothesis =>
      cases rest with
      | nil => simp [unsegments]
      | cons second rest =>
          have later := inductionHypothesis (List.cons_ne_nil second rest)
          rw [unsegments, List.cons_append] at later
          rw [unsegments, unsegments, List.cons_append, List.cons_append,
            List.intercalate_cons_cons, List.intercalate_cons_cons, later, unsegments]
          simp only [List.append_assoc]

/-- A segment never stands for the root or for the leading dot. -/
theorem stepOf?_ne_head {segment : List UInt8} {step : Component}
    (stands : stepOf? segment = some step) : step ≠ .root ∧ step ≠ .current := by
  rw [stepOf?] at stands
  split at stands
  · cases stands
  · split at stands <;> cases stands <;> simp

/-! ### Components -/

@[simp] theorem headComponent_nil : headComponent [] = [] := rfl

theorem name_notMem_headComponent (head : List UInt8) (name : Name) :
    .name name ∉ headComponent head := by
  rw [headComponent]
  split
  · simp
  · split <;> simp

theorem components_eq (path : Path) :
    path.components =
      headComponent (splitHead path.bytes).1 ++
        (segments (splitHead path.bytes).2).filterMap stepOf? := rfl

/-- The head of a path stays what it is with a slash and more behind the path. -/
theorem splitHead_append_slash {front : List UInt8} (nonempty : front ≠ []) (back : List UInt8) :
    splitHead (front ++ slash :: back) =
      ((splitHead front).1, (splitHead front).2 ++ slash :: back) := by
  cases front with
  | nil => exact absurd rfl nonempty
  | cons c rest =>
      by_cases isSlash : c = slash
      · simp [splitHead, isSlash]
      · by_cases isDot : c = dot
        · subst isDot
          cases rest with
          | nil => simp [splitHead, isSlash]
          | cons d more =>
              by_cases slashNext : d = slash
              · simp [splitHead, isSlash, slashNext]
              · simp [splitHead, isSlash, slashNext]
        · simp [splitHead, isSlash, isDot]

theorem components_append_slash {front : List UInt8} (nonempty : front ≠ []) (back : List UInt8) :
    components ⟨front ++ slash :: back⟩ =
      components ⟨front⟩ ++ (segments back).filterMap stepOf? := by
  simp only [components_eq, splitHead_append_slash nonempty, segments_append_slash,
    List.filterMap_append, List.append_assoc]

/-- A path that does not start with a slash has no head, or the head is a dot that stands in a
    segment without a step. -/
theorem splitHead_of_relative {bytes : List UInt8} (relative : bytes.head? ≠ some slash) :
    splitHead bytes = ([], bytes) ∨
      ∃ body, splitHead bytes = ([dot], body) ∧
        (segments bytes).filterMap stepOf? = (segments body).filterMap stepOf? := by
  cases bytes with
  | nil => exact Or.inl rfl
  | cons c rest =>
      have notSlash : c ≠ slash := by simpa using relative
      by_cases isDot : c = dot
      · subst isDot
        cases rest with
        | nil => exact Or.inr ⟨[], rfl, rfl⟩
        | cons d more =>
            by_cases slashNext : d = slash
            · subst slashNext
              refine Or.inr ⟨slash :: more, by simp [splitHead, notSlash], ?_⟩
              simp [segments, stepOf?, isIdle, notSlash]
            · exact Or.inl (by simp [splitHead, notSlash, slashNext])
      · exact Or.inl (by simp [splitHead, notSlash, isDot])

/-- A relative path has the steps of its segments, behind a leading dot if it has one. -/
theorem plainComponents_of_relative {path : Path} (relative : path.isAbsolute = false) :
    path.plainComponents = (segments path.bytes).filterMap stepOf? := by
  have noSlash : path.bytes.head? ≠ some slash := by simpa [isAbsolute] using relative
  rw [plainComponents, components_eq]
  rcases splitHead_of_relative noSlash with whole | ⟨body, dotted, sameSteps⟩
  · rw [whole]
    simp only [headComponent_nil, List.nil_append]
    split
    · next rest first =>
      have member : Component.current ∈ (segments path.bytes).filterMap stepOf? := by
        simp [first]
      obtain ⟨segment, _, stands⟩ := List.mem_filterMap.mp member
      exact absurd rfl (stepOf?_ne_head stands).2
    · rfl
  · rw [dotted, sameSteps]
    rfl

/-- What stands between a directory and a path that is seen from it. -/
def separator (directory : Path) : List UInt8 :=
  if directory.bytes.isEmpty || directory.bytes.getLast? == some slash then [] else [slash]

theorem bytes_join {directory path : Path} (relative : path.isAbsolute = false) :
    (directory.join path).bytes =
      directory.bytes ++ directory.separator ++ path.bytes := by
  rw [join, if_neg (by simp [relative]), separator]
  split <;> simp

theorem length_join {directory path : Path} (relative : path.isAbsolute = false) :
    (directory.join path).bytes.length =
      directory.bytes.length + directory.separator.length + path.bytes.length := by
  rw [bytes_join relative, List.length_append, List.length_append]

/-- A path seen from a directory has the components of the directory and then its own ones; a
    leading dot of it is passed over. -/
theorem components_join {directory path : Path} (nonempty : directory.bytes ≠ [])
    (relative : path.isAbsolute = false) :
    (directory.join path).components = directory.components ++ path.plainComponents := by
  rw [plainComponents_of_relative relative]
  have spelled : directory.join path = ⟨(directory.join path).bytes⟩ := rfl
  rw [spelled, bytes_join relative, separator]
  split
  · next empty_or_slash =>
    -- the directory ends in a slash, and the path starts behind that
    obtain ⟨front, bytes_eq⟩ : ∃ front, directory.bytes = front ++ [slash] := by
      simpa [nonempty, List.getLast?_eq_some_iff] using empty_or_slash
    have directory_eq : directory = ⟨front ++ slash :: []⟩ := by rw [← bytes_eq]
    rw [directory_eq, List.append_nil, List.append_assoc, List.singleton_append]
    cases front with
    | nil => simp [components_eq, splitHead, headComponent, segments, stepOf?, isIdle]
    | cons c rest =>
        rw [components_append_slash (List.cons_ne_nil c rest),
          components_append_slash (List.cons_ne_nil c rest)]
        simp [segments, stepOf?, isIdle]
  · rw [List.append_assoc, List.singleton_append, components_append_slash nonempty]

/-! ### Names -/

/-- What an entry of a directory can be called. -/
def isEntryName (name : Name) : Bool :=
  name != [] && name != [dot] && name != [dot, dot] && !name.contains slash

theorem isEntryName_iff {name : Name} :
    isEntryName name = true ↔
      isIdle name = false ∧ name ≠ [dot, dot] ∧ slash ∉ name := by
  simp [isEntryName, isIdle, and_assoc]

theorem no_slash_of_isEntryName {name : Name} (isName : isEntryName name = true) :
    slash ∉ name :=
  (isEntryName_iff.mp isName).2.2

theorem stepOf?_of_isEntryName {name : Name} (isName : isEntryName name = true) :
    stepOf? name = some (.name name) := by
  obtain ⟨notIdle, notDots, _⟩ := isEntryName_iff.mp isName
  rw [stepOf?, if_neg (Bool.eq_false_iff.mp notIdle), if_neg notDots]

/-- The names among the components of a path are names that an entry can have. -/
theorem isEntryName_of_mem_components {path : Path} {name : Name}
    (member : .name name ∈ path.components) : isEntryName name = true := by
  rw [components_eq, List.mem_append] at member
  obtain ⟨segment, inBody, stands⟩ :=
    List.mem_filterMap.mp (member.resolve_left (name_notMem_headComponent _ name))
  rw [stepOf?] at stands
  split at stands
  · cases stands
  · next notIdle =>
    split at stands
    · cases stands
    · next notDots =>
      cases stands
      exact isEntryName_iff.mpr
        ⟨Bool.eq_false_iff.mpr notIdle, notDots, no_slash_of_mem_segments inBody⟩

/-- Such a name has no head. -/
theorem splitHead_of_isEntryName {name : Name} (isName : isEntryName name = true) :
    splitHead name = ([], name) := by
  have noSlash := no_slash_of_isEntryName isName
  have stands := stepOf?_of_isEntryName isName
  cases letters : name with
  | nil => rfl
  | cons c rest =>
      rw [letters, List.mem_cons, not_or] at noSlash
      by_cases isDot : c = dot
      · subst isDot
        cases rest with
        | nil => simp [letters, stepOf?, isIdle] at stands
        | cons d more =>
            have notSlash : d ≠ slash := fun isSlash => noSlash.2 (by simp [isSlash])
            simp [splitHead, notSlash]
      · simp [splitHead, isDot, Ne.symm noSlash.1]

theorem isAbsolute_of_isEntryName {name : Name} (isName : isEntryName name = true) :
    isAbsolute ⟨name⟩ = false := by
  rw [isAbsolute, beq_eq_false_iff_ne]
  exact fun first => no_slash_of_isEntryName isName (List.mem_of_mem_head? first)

theorem components_of_isEntryName {name : Name} (isName : isEntryName name = true) :
    components ⟨name⟩ = [.name name] := by
  rw [components_eq, splitHead_of_isEntryName isName,
    segments_of_no_slash (no_slash_of_isEntryName isName)]
  simp [headComponent, stepOf?_of_isEntryName isName]

theorem plainComponents_of_isEntryName {name : Name} (isName : isEntryName name = true) :
    plainComponents ⟨name⟩ = [.name name] := by
  rw [plainComponents, components_of_isEntryName isName]

/-- An entry of a directory has a path, and that path has a parent. -/
theorem isSome_parent?_join (directory : Path) {name : Name}
    (isName : isEntryName name = true) : (directory.join ⟨name⟩).parent?.isSome = true := by
  have member : .name name ∈ (directory.join ⟨name⟩).components := by
    by_cases isEmpty : directory.bytes = []
    · have alone : directory.join ⟨name⟩ = ⟨name⟩ := by
        simp [join, isAbsolute_of_isEntryName isName, isEmpty]
      rw [alone, components_of_isEntryName isName]
      exact List.mem_singleton_self _
    · rw [components_join isEmpty (isAbsolute_of_isEntryName isName),
        plainComponents_of_isEntryName isName]
      simp
  rw [components_eq, List.mem_append] at member
  obtain ⟨segment, inBody, stands⟩ :=
    List.mem_filterMap.mp (member.resolve_left (name_notMem_headComponent _ name))
  have notIdle : isIdle segment = false := by
    rw [stepOf?] at stands
    split at stands
    · cases stands
    · next notIdle => exact Bool.eq_false_iff.mpr notIdle
  rw [parent?]
  dsimp only
  split
  · next allIdle =>
    have idle := List.dropWhile_eq_nil_iff.mp allIdle segment (List.mem_reverse.mpr inBody)
    rw [notIdle] at idle
    cases idle
  · rfl

/-! ### Paths spelled by names -/

section Names

open PathFilter (relativePath)

variable {names : List Name} {name : Name}

theorem bytes_relativePath_concat (name : Name) (nonempty : names ≠ []) :
    (relativePath (names ++ [name])).bytes = (relativePath names).bytes ++ slash :: name := by
  rw [relativePath, relativePath, unsegments_concat nonempty]

theorem relativePath_singleton (name : Name) : relativePath [name] = ⟨name⟩ := by
  rw [relativePath, unsegments, List.intercalate_singleton]

/-- Names with slashes between them are a relative path whose components they are. -/
theorem relativePath_names (nonempty : names ≠ [])
    (areNames : ∀ name ∈ names, isEntryName name = true) :
    (relativePath names).components = names.map .name ∧
      (relativePath names).isAbsolute = false ∧
      (relativePath names).bytes ≠ [] ∧
      (relativePath names).bytes.getLast? ≠ some slash := by
  induction names using List.reverseRecOn with
  | nil => exact absurd rfl nonempty
  | append_singleton front name inductionHypothesis =>
      have isName : isEntryName name = true := areNames name (by simp)
      have noSlash := no_slash_of_isEntryName isName
      have nameNonempty : name ≠ [] := by
        rintro rfl
        cases isName
      by_cases first : front = []
      · subst first
        rw [List.nil_append, relativePath_singleton]
        refine ⟨components_of_isEntryName isName, isAbsolute_of_isEntryName isName,
          nameNonempty, ?_⟩
        exact fun last => noSlash (List.mem_of_getLast? last)
      · obtain ⟨frontComponents, relative, frontNonempty, _⟩ :=
          inductionHypothesis first fun name member => areNames name (List.mem_append_left _ member)
        have spelled := bytes_relativePath_concat name first
        refine ⟨?_, ?_, ?_, ?_⟩
        · have whole : relativePath (front ++ [name]) =
              ⟨(relativePath front).bytes ++ slash :: name⟩ := by rw [← spelled]
          rw [whole, components_append_slash frontNonempty, frontComponents,
            segments_of_no_slash noSlash]
          simp [stepOf?_of_isEntryName isName]
        · rw [isAbsolute] at relative ⊢
          rw [spelled, List.head?_append_of_ne_nil _ frontNonempty, relative]
        · rw [spelled]
          simp
        · rw [spelled, List.getLast?_append_of_ne_nil _ (List.cons_ne_nil _ _)]
          rw [List.getLast?_cons_of_ne_nil nameNonempty]
          exact fun last => noSlash (List.mem_of_getLast? last)

theorem components_relativePath (areNames : ∀ name ∈ names, isEntryName name = true) :
    (relativePath names).components = names.map .name := by
  by_cases nonempty : names = []
  · subst nonempty
    rfl
  · exact (relativePath_names nonempty areNames).1

theorem relativePath_injective {others : List Name}
    (areNames : ∀ name ∈ names, isEntryName name = true)
    (othersToo : ∀ name ∈ others, isEntryName name = true)
    (same : (relativePath names).components = (relativePath others).components) :
    names = others := by
  rw [components_relativePath areNames, components_relativePath othersToo] at same
  exact (List.map_injective_iff.mpr fun _ _ => Component.name.inj) same

/-- The components of what names lead to from a directory. -/
theorem components_join_relativePath {directory : Path} (nonempty : directory.bytes ≠ [])
    (someNames : names ≠ []) (areNames : ∀ name ∈ names, isEntryName name = true) :
    (directory.join (relativePath names)).components =
      directory.components ++ names.map .name := by
  obtain ⟨components, relative, _, _⟩ := relativePath_names someNames areNames
  have plain : (relativePath names).plainComponents = names.map .name := by
    rw [plainComponents, components]
    cases names <;> rfl
  rw [components_join nonempty relative, plain]

/-- One more name leads one step further. -/
theorem join_relativePath_concat (directory : Path) (someNames : names ≠ [])
    (areNames : ∀ name ∈ names, isEntryName name = true) (isName : isEntryName name = true) :
    (directory.join (relativePath names)).join ⟨name⟩ =
      directory.join (relativePath (names ++ [name])) := by
  obtain ⟨_, relative, nonempty, noSlashLast⟩ := relativePath_names someNames areNames
  have allNames : ∀ other ∈ names ++ [name], isEntryName other = true := by
    intro other member
    rcases List.mem_append.mp member with inFront | isLast
    · exact areNames other inFront
    · rw [List.mem_singleton.mp isLast]
      exact isName
  obtain ⟨_, relativeToo, _, _⟩ := relativePath_names (by simp) allNames
  have between : (directory.join (relativePath names)).separator = [slash] := by
    rw [separator, bytes_join relative, List.getLast?_append_of_ne_nil _ nonempty]
    simp [nonempty, noSlashLast]
  have spelled : ((directory.join (relativePath names)).join ⟨name⟩).bytes =
      (directory.join (relativePath (names ++ [name]))).bytes := by
    rw [bytes_join (isAbsolute_of_isEntryName isName), between, bytes_join relative,
      bytes_join relativeToo, bytes_relativePath_concat name someNames]
    simp
  exact congrArg Path.mk spelled

/-- The path of what names lead to from a directory, each name seen from the one before. -/
def descend (directory : Path) (names : List Name) : Path :=
  names.foldl (fun path name => path.join ⟨name⟩) directory

theorem descend_concat (directory : Path) :
    directory.descend (names ++ [name]) = (directory.descend names).join ⟨name⟩ := by
  rw [descend, descend, List.foldl_append]
  rfl

/-- The path gets no shorter on the way. -/
theorem length_descend_le (directory : Path) (back : List Name)
    (areNames : ∀ name ∈ back, isEntryName name = true) :
    directory.bytes.length ≤ (directory.descend back).bytes.length := by
  induction back using List.reverseRecOn with
  | nil => exact le_refl _
  | append_singleton front name inductionHypothesis =>
      have isName : isEntryName name = true := areNames name (by simp)
      have soFar :=
        inductionHypothesis fun name member => areNames name (List.mem_append_left _ member)
      rw [descend_concat, length_join (isAbsolute_of_isEntryName isName)]
      omega

/-- Names lead from a directory to the path that they spell, seen from there. -/
theorem descend_eq_join (directory : Path) (someNames : names ≠ [])
    (areNames : ∀ name ∈ names, isEntryName name = true) :
    directory.descend names = directory.join (relativePath names) := by
  induction names using List.reverseRecOn with
  | nil => exact absurd rfl someNames
  | append_singleton front name inductionHypothesis =>
      have isName : isEntryName name = true := areNames name (by simp)
      have inFront : ∀ name ∈ front, isEntryName name = true :=
        fun name member => areNames name (List.mem_append_left _ member)
      rw [descend_concat]
      by_cases first : front = []
      · subst first
        rw [List.nil_append, relativePath_singleton]
        rfl
      · rw [inductionHypothesis first inFront,
          join_relativePath_concat directory first inFront isName]

end Names

end ConfigScan.Path
