/-
Module: ConfigScan.Proofs.Path.Absolute
Purpose: Which paths have one absolute path: two spellings of one path, a relative path with and
  without a leading dot, and a relative path and the absolute path of the same steps.
Main exports: Path.components_absolute, Path.Respells, Path.same_absolute_iff
-/
import ConfigScan.Proofs.Path.Join
import ConfigScan.Proofs.Path.Order

namespace ConfigScan.Path

/-! ### The head of a path -/

/-- The steps of a path behind its head. -/
def bodySteps (path : Path) : List Component :=
  (segments (splitHead path.bytes).2).filterMap stepOf?

theorem ne_head_of_mem_bodySteps {path : Path} {step : Component}
    (member : step ∈ path.bodySteps) : step ≠ .root ∧ step ≠ .current := by
  obtain ⟨segment, _, stands⟩ := List.mem_filterMap.mp member
  exact stepOf?_ne_head stands

theorem components_of_absolute {path : Path} (rooted : path.isAbsolute = true) :
    path.components = .root :: path.bodySteps := by
  rw [isAbsolute, beq_iff_eq, List.head?_eq_some_iff] at rooted
  obtain ⟨rest, bytes_eq⟩ := rooted
  rw [components_eq, bodySteps, bytes_eq]
  rfl

theorem components_of_relative {path : Path} (relative : path.isAbsolute = false) :
    path.plainComponents = path.bodySteps ∧
      (path.components = path.bodySteps ∨ path.components = .current :: path.bodySteps) := by
  have noSlash : path.bytes.head? ≠ some slash := by simpa [isAbsolute] using relative
  rw [plainComponents_of_relative relative, components_eq, bodySteps]
  rcases splitHead_of_relative noSlash with whole | ⟨body, dotted, sameSteps⟩
  · rw [whole]
    exact ⟨rfl, Or.inl rfl⟩
  · rw [dotted]
    exact ⟨sameSteps, Or.inr rfl⟩

/-- The root is a component of absolute paths only. -/
theorem root_mem_components_iff {path : Path} :
    .root ∈ path.components ↔ path.isAbsolute = true := by
  constructor
  · intro member
    by_contra notRooted
    have notInBody : .root ∉ path.bodySteps :=
      fun inBody => (ne_head_of_mem_bodySteps inBody).1 rfl
    rcases (components_of_relative (Bool.eq_false_iff.mpr notRooted)).2 with plain | dotted
    · exact notInBody (plain ▸ member)
    · rw [dotted, List.mem_cons] at member
      rcases member with isDot | inBody
      · cases isDot
      · exact notInBody inBody
  · intro rooted
    rw [components_of_absolute rooted]
    exact List.mem_cons_self

theorem filter_components (path : Path) :
    (path.components.filter fun c => c != .current && c != .root) = path.bodySteps := by
  have kept : (path.bodySteps.filter fun c => c != .current && c != .root) = path.bodySteps := by
    rw [List.filter_eq_self]
    intro step member
    obtain ⟨notRoot, notDot⟩ := ne_head_of_mem_bodySteps member
    simp [notRoot, notDot]
  by_cases rooted : path.isAbsolute = true
  · rw [components_of_absolute rooted, List.filter_cons_of_neg (by simp), kept]
  · rcases (components_of_relative (Bool.eq_false_iff.mpr rooted)).2 with plain | dotted
    · rw [plain, kept]
    · rw [dotted, List.filter_cons_of_neg (by simp), kept]

/-- A path without a head begins with a step. -/
theorem exists_step_of_headless {c : UInt8} {rest : List UInt8} (notSlash : c ≠ slash)
    (headless : (splitHead (c :: rest)).1 = []) :
    ∃ step, step ∈ (segments (c :: rest)).filterMap stepOf? := by
  cases cut : segments rest with
  | nil => exact absurd cut (segments_ne_nil rest)
  | cons head tail =>
      have first : segments (c :: rest) = (c :: head) :: tail := by
        rw [segments, if_neg notSlash, cut]
      -- the first segment is a step, unless it is the dot that would have been the head
      have notDot : ¬ (c = dot ∧ head = []) := by
        rintro ⟨rfl, rfl⟩
        cases rest with
        | nil => simp [splitHead] at headless
        | cons d more =>
            by_cases slashNext : d = slash
            · simp [splitHead, slashNext] at headless
            · rw [segments, if_neg slashNext] at cut
              split at cut <;> simp at cut
      have isStep : ∃ step, stepOf? (c :: head) = some step := by
        rw [stepOf?, if_neg (by simpa [isIdle] using notDot)]
        split
        · exact ⟨_, rfl⟩
        · exact ⟨_, rfl⟩
      obtain ⟨step, isStep⟩ := isStep
      exact ⟨step, List.mem_filterMap.mpr ⟨_, by rw [first]; exact List.mem_cons_self, isStep⟩⟩

/-- Only the empty path has no components. -/
theorem components_eq_nil_iff {path : Path} : path.components = [] ↔ path.bytes = [] := by
  constructor
  · intro isEmpty
    by_contra hasText
    obtain ⟨c, rest, bytes_eq⟩ : ∃ c rest, path.bytes = c :: rest :=
      List.exists_cons_of_ne_nil (by simpa using hasText)
    have notSlash : c ≠ slash := by
      rintro rfl
      have rooted : path.isAbsolute = true := by simp [isAbsolute, bytes_eq]
      simp [components_of_absolute rooted] at isEmpty
    have relative : (c :: rest).head? ≠ some slash := by simpa using notSlash
    rw [components_eq, bytes_eq] at isEmpty
    rcases splitHead_of_relative relative with whole | ⟨body, dotted, _⟩
    · obtain ⟨step, member⟩ := exists_step_of_headless notSlash (by rw [whole])
      rw [whole] at isEmpty
      rw [(List.append_eq_nil_iff.mp isEmpty).2] at member
      cases member
    · simp [dotted, headComponent] at isEmpty
  · intro isEmpty
    rw [components_eq, isEmpty]
    rfl

/-! ### Absolute paths -/

/-- A step by itself is a relative path with that component. -/
theorem components_of_step {path : Path} {step : Component} (member : step ∈ path.bodySteps) :
    isAbsolute ⟨step.bytes⟩ = false ∧ plainComponents ⟨step.bytes⟩ = [step] := by
  cases step with
  | root => exact absurd rfl (ne_head_of_mem_bodySteps member).1
  | current => exact absurd rfl (ne_head_of_mem_bodySteps member).2
  | parent => decide
  | name bytes =>
      have isName : isEntryName bytes = true := by
        have inPath : .name bytes ∈ path.components := by
          rw [components_eq]
          exact List.mem_append_right _ member
        exact isEntryName_of_mem_components inPath
      exact ⟨isAbsolute_of_isEntryName isName, plainComponents_of_isEntryName isName⟩

/-- Steps that are taken one after another from a directory. -/
theorem components_foldl_join {steps : List Component}
    (single : ∀ step ∈ steps,
      isAbsolute ⟨step.bytes⟩ = false ∧ plainComponents ⟨step.bytes⟩ = [step])
    {start : Path} (nonempty : start.components ≠ []) :
    (steps.foldl (fun path step => path.join ⟨step.bytes⟩) start).components =
      start.components ++ steps := by
  induction steps generalizing start with
  | nil => simp
  | cons step rest inductionHypothesis =>
      obtain ⟨relative, alone⟩ := single step List.mem_cons_self
      have hasText : start.bytes ≠ [] := fun isEmpty => nonempty (components_eq_nil_iff.mpr isEmpty)
      have further : (start.join ⟨step.bytes⟩).components = start.components ++ [step] := by
        rw [components_join hasText relative, alone]
      rw [List.foldl_cons, inductionHypothesis (fun step member => single step
        (List.mem_cons_of_mem _ member)) (by simp [further]), further]
      simp

/-- A slash at the end adds no step. -/
theorem components_join_empty (path : Path) : (path.join ⟨""⟩).components = path.components := by
  by_cases isEmpty : path.bytes = []
  · have same : path.join ⟨""⟩ = path := by
      obtain ⟨bytes⟩ := path
      simp only at isEmpty
      simp [join, isAbsolute, isEmpty]
    rw [same]
  · have noSteps : plainComponents ⟨""⟩ = [] := rfl
    rw [components_join isEmpty rfl, noSteps, List.append_nil]

/-- The absolute form of a path has its own components if it is absolute itself, and otherwise those
    of the current directory in front of its steps. -/
theorem components_absolute {currentDir path : Path} (rooted : currentDir.isAbsolute = true)
    (nonempty : path.bytes ≠ []) :
    (absolute currentDir path).components =
      if path.isAbsolute then path.components
      else currentDir.components ++ path.plainComponents := by
  have hasText : path.bytes.isEmpty = false := by simpa using nonempty
  have steps := filter_components path
  have joined : ∀ start : Path, start.components ≠ [] →
      (path.bodySteps.foldl (fun q c => q.join ⟨c.bytes⟩) start).components =
        start.components ++ path.bodySteps :=
    fun start => components_foldl_join fun step => components_of_step
  have slashLast : ∀ whole : Path,
      (if path.bytes.getLast? == some slash then whole.join ⟨""⟩ else whole).components =
        whole.components := by
    intro whole
    split
    · exact components_join_empty whole
    · rfl
  simp only [absolute, hasText, Bool.false_eq_true, if_false, slashLast, steps]
  by_cases isRooted : path.isAbsolute = true
  · simp only [isRooted, Bool.not_true, Bool.false_eq_true, if_false, if_true]
    split
    · rw [joined _ (by decide), components_of_absolute isRooted]
      rfl
    · rw [joined _ (by decide), components_of_absolute isRooted]
      rfl
  · have relative : path.isAbsolute = false := Bool.eq_false_iff.mpr isRooted
    have fromRoot : currentDir.components ≠ [] := by
      rw [components_of_absolute rooted]
      exact List.cons_ne_nil _ _
    simp only [relative, Bool.not_false, if_true, Bool.false_eq_true, if_false]
    rw [joined _ fromRoot, (components_of_relative relative).1]

theorem absolute_of_empty {currentDir path : Path} (isEmpty : path.bytes = []) :
    (absolute currentDir path).components = [] := by
  simp [absolute, isEmpty, components_eq_nil_iff]

/-! ### Paths that have one absolute path -/

/-- `path` is another path than `other`, but from the current directory both have the same absolute
    path. -/
inductive Respells (currentDir path other : Path) : Prop
  /-- `path` is `other` behind a leading dot. -/
  | dotted (nonempty : other.bytes ≠ [])
      (components : path.components = .current :: other.components)
  /-- `path` is relative, and `other` leads from the root through the current directory. -/
  | rooted (nonempty : path.bytes ≠ []) (relative : path.isAbsolute = false)
      (components : other.components = currentDir.components ++ path.plainComponents)

variable {currentDir path other : Path}

theorem same_comm (path other : Path) : path.same other = other.same path := by
  rw [Bool.eq_iff_iff, same_iff_components, same_iff_components, eq_comm]

/-- Behind its leading dot a path has no other one. -/
theorem Respells.dotted_steps (components : path.components = .current :: other.components) :
    path.isAbsolute = false ∧ other.isAbsolute = false ∧
      path.plainComponents = other.components ∧ other.plainComponents = other.components := by
  have relative : path.isAbsolute = false := by
    rw [Bool.eq_false_iff]
    intro rooted
    rw [components_of_absolute rooted] at components
    cases components
  have body : path.bodySteps = other.components := by
    rcases (components_of_relative relative).2 with plain | withDot
    · have member : .current ∈ path.bodySteps := by
        rw [← plain, components]
        exact List.mem_cons_self
      exact absurd rfl (ne_head_of_mem_bodySteps member).2
    · exact (List.cons.inj (withDot.symm.trans components)).2
  have noHead : ∀ step ∈ other.components, step ≠ .root ∧ step ≠ .current := by
    intro step member
    exact ne_head_of_mem_bodySteps (body ▸ member)
  have otherRelative : other.isAbsolute = false := by
    rw [Bool.eq_false_iff]
    intro rooted
    exact (noHead .root (root_mem_components_iff.mpr rooted)).1 rfl
  have otherPlain : other.plainComponents = other.components := by
    rcases components_of_relative otherRelative with ⟨plain, same | withDot⟩
    · rw [plain, same]
    · have member : .current ∈ other.components := by
        rw [withDot]
        exact List.mem_cons_self
      exact absurd rfl (noHead .current member).2
  exact ⟨relative, otherRelative, (components_of_relative relative).1.trans body, otherPlain⟩

theorem isAbsolute_of_rooted (rooted : currentDir.isAbsolute = true)
    (components : other.components = currentDir.components ++ path.plainComponents) :
    other.isAbsolute = true := by
  rw [← root_mem_components_iff, components]
  exact List.mem_append_left _ (root_mem_components_iff.mpr rooted)

/-- Two spellings of one path have one absolute path. -/
theorem same_absolute_of_same (rooted : currentDir.isAbsolute = true)
    (same : path.same other = true) :
    (absolute currentDir path).same (absolute currentDir other) = true := by
  rw [same_iff_components] at same ⊢
  by_cases isEmpty : path.bytes = []
  · have otherEmpty : other.bytes = [] := by
      rw [← components_eq_nil_iff, ← same, components_eq_nil_iff, isEmpty]
    rw [absolute_of_empty isEmpty, absolute_of_empty otherEmpty]
  · have otherNonempty : other.bytes ≠ [] := by
      rw [Ne, ← components_eq_nil_iff, ← same, components_eq_nil_iff]
      exact isEmpty
    have alike : path.isAbsolute = other.isAbsolute := by
      rw [Bool.eq_iff_iff, ← root_mem_components_iff, ← root_mem_components_iff, same]
    rw [components_absolute rooted isEmpty, components_absolute rooted otherNonempty,
      plainComponents, plainComponents, same, alike]

/-- A path and a respelling of it have one absolute path, though they are different paths. -/
theorem Respells.same_absolute (rooted : currentDir.isAbsolute = true)
    (respells : Respells currentDir path other) :
    (absolute currentDir path).same (absolute currentDir other) = true ∧
      path.same other = false := by
  rw [same_iff_components, Bool.eq_false_iff, Ne, same_iff_components]
  cases respells with
  | dotted nonempty components =>
      obtain ⟨relative, otherRelative, plain, otherPlain⟩ := Respells.dotted_steps components
      have hasText : path.bytes ≠ [] := by
        rw [Ne, ← components_eq_nil_iff, components]
        exact List.cons_ne_nil _ _
      constructor
      · simp [components_absolute rooted hasText, components_absolute rooted nonempty, relative,
          otherRelative, plain, otherPlain]
      · rw [components]
        exact List.cons_ne_self _ _
  | rooted nonempty relative components =>
      have otherRooted := isAbsolute_of_rooted rooted components
      have otherNonempty : other.bytes ≠ [] := by
        rw [Ne, ← components_eq_nil_iff, components_of_absolute otherRooted]
        exact List.cons_ne_nil _ _
      constructor
      · simp [components_absolute rooted nonempty, components_absolute rooted otherNonempty,
          relative, otherRooted, components]
      · intro same
        rw [← root_mem_components_iff, ← same, root_mem_components_iff, relative] at otherRooted
        cases otherRooted

/-- An empty path has an absolute path of its own. -/
theorem components_absolute_ne_nil (rooted : currentDir.isAbsolute = true)
    (nonempty : path.bytes ≠ []) : (absolute currentDir path).components ≠ [] := by
  rw [components_absolute rooted nonempty]
  split
  · rw [Ne, components_eq_nil_iff]
    exact nonempty
  · rw [components_of_absolute rooted]
    exact List.cons_ne_nil _ _

/-- Two relative paths of the same steps are one path, or one of them has a leading dot. -/
theorem same_or_dotted (nonempty : path.bytes ≠ []) (otherNonempty : other.bytes ≠ [])
    (relative : path.isAbsolute = false) (otherRelative : other.isAbsolute = false)
    (alike : path.plainComponents = other.plainComponents) :
    path.same other = true ∨ Respells currentDir path other ∨ Respells currentDir other path := by
  obtain ⟨plain, spelled⟩ := components_of_relative relative
  obtain ⟨otherPlain, otherSpelled⟩ := components_of_relative otherRelative
  rw [plain, otherPlain] at alike
  rw [same_iff_components]
  rcases spelled with bare | withDot <;> rcases otherSpelled with otherBare | otherWithDot
  · exact Or.inl (by rw [bare, otherBare, alike])
  · exact Or.inr (Or.inr (.dotted nonempty (by rw [otherWithDot, bare, alike])))
  · exact Or.inr (Or.inl (.dotted otherNonempty (by rw [withDot, otherBare, alike])))
  · exact Or.inl (by rw [withDot, otherWithDot, alike])

/-- Paths have one absolute path when they are one path, or when one of them respells the other. -/
theorem same_absolute_iff (rooted : currentDir.isAbsolute = true) :
    (absolute currentDir path).same (absolute currentDir other) = true ↔
      path.same other = true ∨ Respells currentDir path other ∨
        Respells currentDir other path := by
  constructor
  case mp =>
    rw [same_iff_components]
    intro same
    by_cases isEmpty : path.bytes = [] <;> by_cases otherEmpty : other.bytes = []
    · left
      rw [same_iff_components, components_eq_nil_iff.mpr isEmpty,
        components_eq_nil_iff.mpr otherEmpty]
    · rw [absolute_of_empty isEmpty] at same
      exact absurd same.symm (components_absolute_ne_nil rooted otherEmpty)
    · rw [absolute_of_empty otherEmpty] at same
      exact absurd same (components_absolute_ne_nil rooted isEmpty)
    · rw [components_absolute rooted isEmpty, components_absolute rooted otherEmpty] at same
      cases isRooted : path.isAbsolute <;> cases otherRooted : other.isAbsolute <;>
        simp only [isRooted, otherRooted, Bool.false_eq_true, if_false, if_true] at same
      case false.false =>
        exact same_or_dotted isEmpty otherEmpty isRooted otherRooted (List.append_cancel_left same)
      case false.true => exact Or.inr (Or.inl (.rooted isEmpty isRooted same.symm))
      case true.false => exact Or.inr (Or.inr (.rooted otherEmpty otherRooted same))
      case true.true => exact Or.inl (same_iff_components.mpr same)
  case mpr =>
    rintro (same | respells | respells)
    · exact same_absolute_of_same rooted same
    · exact (respells.same_absolute rooted).1
    · rw [same_iff_components]
      exact (same_iff_components.mp (respells.same_absolute rooted).1).symm

end ConfigScan.Path
