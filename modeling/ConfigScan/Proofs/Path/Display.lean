/-
Module: ConfigScan.Proofs.Path.Display
Purpose: A path that is shown leads from the base directory to the file, and to no other file.
Main exports: Path.Forks, Path.forks_stepsFrom?, Path.resolve, Path.components_shown,
  PathDisplay.render_faithful
-/
import ConfigScan.Proofs.Path.Absolute

namespace ConfigScan

namespace Path

/-! ### The way from one directory to another -/

/-- Two paths have the beginning `common`, and no longer one, and behind it `ahead` and `back`. -/
structure Forks (file base common ahead back : List Component) : Prop where
  file_eq : file = common ++ ahead
  base_eq : base = common ++ back
  longest : ∀ other, other <+: file → other <+: base → other <+: common

variable {file base common ahead back : List Component} {step fileStep baseStep : Component}

theorem Forks.cons (forks : Forks file base common ahead back) (step : Component) :
    Forks (step :: file) (step :: base) (step :: common) ahead back where
  file_eq := congrArg (step :: ·) forks.file_eq
  base_eq := congrArg (step :: ·) forks.base_eq
  longest := by
    intro other inFile inBase
    cases other with
    | nil => exact List.nil_prefix
    | cons first rest =>
        obtain ⟨rfl, restInFile⟩ := List.cons_prefix_cons.mp inFile
        obtain ⟨_, restInBase⟩ := List.cons_prefix_cons.mp inBase
        exact List.cons_prefix_cons.mpr ⟨rfl, forks.longest rest restInFile restInBase⟩

/-- Paths that differ in their first step have nothing in common. -/
theorem forks_of_ne (different : fileStep ≠ baseStep) (file base : List Component) :
    Forks (fileStep :: file) (baseStep :: base) [] (fileStep :: file) (baseStep :: base) where
  file_eq := rfl
  base_eq := rfl
  longest := by
    intro other inFile inBase
    cases other with
    | nil => exact List.nil_prefix
    | cons first rest =>
        obtain ⟨rfl, _⟩ := List.cons_prefix_cons.mp inFile
        obtain ⟨same, _⟩ := List.cons_prefix_cons.mp inBase
        exact absurd same different

/-- The way goes back to where the paths fork, and from there ahead. -/
theorem forks_stepsFrom? (file : List Component) {base : List Component}
    (noParent : .parent ∉ base) :
    ∃ common ahead back, Forks file base common ahead back ∧
      stepsFrom? file base = some (List.replicate back.length .parent ++ ahead) := by
  induction base generalizing file with
  | nil => exact ⟨[], file, [], ⟨rfl, rfl, fun other _ inBase => inBase⟩, by simp [stepsFrom?]⟩
  | cons baseStep base inductionHypothesis =>
      obtain ⟨isNoParent, restNoParent⟩ := not_or.mp (List.mem_cons.not.mp noParent)
      cases file with
      | nil =>
          refine ⟨[], [], baseStep :: base, ⟨rfl, rfl, fun other inFile _ => inFile⟩, ?_⟩
          simp [stepsFrom?, List.replicate_succ, List.map_const']
      | cons fileStep file =>
          by_cases same : fileStep = baseStep
          · subst same
            obtain ⟨common, ahead, back, forks, steps⟩ := inductionHypothesis file restNoParent
            refine ⟨fileStep :: common, ahead, back, forks.cons fileStep, ?_⟩
            rw [stepsFrom?, if_pos rfl, steps]
          · refine ⟨[], fileStep :: file, baseStep :: base, forks_of_ne same file base, ?_⟩
            rw [stepsFrom?, if_neg same, if_neg (Ne.symm isNoParent), List.map_const',
              List.length_cons, List.replicate_succ, List.cons_append]

/-- Below the base the way is what stands behind the base, also where that has `..` in it. -/
theorem stepsFrom?_append (base ahead : List Component) :
    stepsFrom? (base ++ ahead) base = some ahead := by
  induction base with
  | nil => cases ahead <;> rfl
  | cons step base inductionHypothesis =>
      rw [List.cons_append, stepsFrom?, if_pos rfl, inductionHypothesis]

/-! ### Following a way -/

/-- Where one step leads from a place, worked out from the spelling: a name goes down, and `..`
    takes the last name back. The root is above itself. -/
def follow (place : List Component) : Component → List Component
  | .name bytes => place ++ [.name bytes]
  | .parent => if place = [.root] then place else place.dropLast
  | .root | .current => place

/-- The place that a shown path means. The slash at its front stands for the base directory. -/
def resolve (base shown : Path) : List Component := shown.components.foldl follow base.components

theorem foldl_follow_names (place : List Component) (names : List Name) :
    (names.map .name).foldl follow place = place ++ names.map .name := by
  induction names generalizing place with
  | nil => simp
  | cons name rest inductionHypothesis =>
      rw [List.map_cons, List.foldl_cons, inductionHypothesis, follow, List.append_assoc]
      rfl

/-- As many steps back as there are names behind a place lead to that place. -/
theorem foldl_follow_parents (nonempty : common ≠ []) (back : List Component) :
    (List.replicate back.length .parent).foldl follow (common ++ back) = common := by
  -- the first step back takes the last name away
  induction back using List.reverseRecOn with
  | nil => simp
  | append_singleton front last inductionHypothesis =>
      have notRoot : common ++ (front ++ [last]) ≠ [.root] := by
        intro same
        have lengths := congrArg List.length same
        have positive := List.length_pos_iff.mpr nonempty
        simp at lengths
        omega
      rw [List.length_append, List.length_singleton, List.replicate_succ, List.foldl_cons, follow,
        if_neg notRoot, ← List.append_assoc, List.dropLast_concat]
      exact inductionHypothesis

/-! ### The text of a way -/

/-- Cutting at slashes undoes putting slashes between. -/
theorem segments_unsegments {parts : List (List UInt8)} (nonempty : parts ≠ [])
    (noSlashes : ∀ part ∈ parts, slash ∉ part) : segments (unsegments parts) = parts := by
  induction parts with
  | nil => exact absurd rfl nonempty
  | cons first rest inductionHypothesis =>
      obtain ⟨firstNoSlash, restNoSlashes⟩ := List.forall_mem_cons.mp noSlashes
      cases rest with
      | nil =>
          rw [unsegments, List.intercalate_singleton]
          exact segments_of_no_slash firstNoSlash
      | cons second rest =>
          have later := inductionHypothesis (List.cons_ne_nil second rest) restNoSlashes
          rw [unsegments, List.intercalate_cons_cons, List.append_assoc, List.singleton_append,
            segments_append_slash, segments_of_no_slash firstNoSlash, ← unsegments, later]
          rfl

/-- A step that can stand in a path that is shown: a name, or `..`. -/
def Component.IsShown (step : Component) : Prop :=
  step = .parent ∨ ∃ name, step = .name name ∧ isEntryName name = true

theorem Component.IsShown.stepOf?_bytes (shown : step.IsShown) :
    stepOf? step.bytes = some step := by
  obtain rfl | ⟨name, rfl, isName⟩ := shown
  · rfl
  · exact stepOf?_of_isEntryName isName

theorem Component.IsShown.no_slash (shown : step.IsShown) : slash ∉ step.bytes := by
  obtain rfl | ⟨name, rfl, isName⟩ := shown
  · decide
  · exact no_slash_of_isEntryName isName

theorem shownSteps_eq {steps : List Component} (areShown : ∀ step ∈ steps, step.IsShown) :
    PathDisplay.shownSteps steps = steps.map fun step => Text.Utf8.text step.bytes := by
  induction steps with
  | nil => rfl
  | cons step rest inductionHypothesis =>
      obtain ⟨shown, restShown⟩ := List.forall_mem_cons.mp areShown
      obtain rfl | ⟨name, rfl, _⟩ := shown
      · exact congrArg (".." :: ·) (inductionHypothesis restShown)
      · exact congrArg (Text.Utf8.text name :: ·) (inductionHypothesis restShown)

/-- The bytes of texts that are shown with slashes between them. -/
theorem bytes_shown (texts : List String) :
    Text.Utf8.bytes ("/" ++ "/".intercalate texts) =
      slash :: unsegments (texts.map Text.Utf8.bytes) := by
  rw [Text.Utf8.bytes, String.toList_append, String.toList_intercalate, Text.Utf8.encode_append,
    Text.Utf8.encode_intercalate, List.map_map]
  rfl

/-- The steps of a path that is shown can be read off it when its names are texts. -/
theorem components_shown {steps : List Component} (areShown : ∀ step ∈ steps, step.IsShown)
    (areTexts : ∀ step ∈ steps, Text.Utf8.IsText step.bytes) :
    components ⟨Text.Utf8.bytes ("/" ++ "/".intercalate (PathDisplay.shownSteps steps))⟩ =
      .root :: steps := by
  have sameBytes : (steps.map fun step => Text.Utf8.bytes (Text.Utf8.text step.bytes)) =
      steps.map Component.bytes :=
    List.map_congr_left fun step member => (areTexts step member).bytes_text
  have spelled : Text.Utf8.bytes ("/" ++ "/".intercalate (PathDisplay.shownSteps steps)) =
      slash :: unsegments (steps.map Component.bytes) := by
    rw [bytes_shown, shownSteps_eq areShown, List.map_map, ← sameBytes]
    rfl
  rw [components_eq, spelled]
  cases steps with
  | nil => rfl
  | cons step rest =>
      have noSlashes : ∀ part ∈ (step :: rest).map Component.bytes, slash ∉ part := by
        intro part member
        obtain ⟨step, inSteps, rfl⟩ := List.mem_map.mp member
        exact (areShown step inSteps).no_slash
      have steps_eq : ((step :: rest).map Component.bytes).filterMap stepOf? = step :: rest := by
        rw [List.filterMap_map]
        exact (List.filterMap_congr fun step inSteps =>
          (areShown step inSteps).stepOf?_bytes).trans List.filterMap_some
      rw [splitHead, if_pos rfl, segments_unsegments (by simp) noSlashes, steps_eq]
      rfl

/-! ### Absolute paths -/

variable {currentDir path root : Path}

theorem plainComponents_of_absolute (rooted : path.isAbsolute = true) :
    path.plainComponents = path.components := by
  rw [plainComponents, components_of_absolute rooted]

theorem isAbsolute_absolute (rooted : currentDir.isAbsolute = true) (nonempty : path.bytes ≠ []) :
    (absolute currentDir path).isAbsolute = true := by
  rw [← root_mem_components_iff, components_absolute rooted nonempty]
  split
  · next isRooted => exact root_mem_components_iff.mpr isRooted
  · exact List.mem_append_left _ (root_mem_components_iff.mpr rooted)

/-- Seen from a directory, a path has the steps of the directory and then its own. -/
theorem bodySteps_join (nonempty : root.bytes ≠ []) (relative : path.isAbsolute = false) :
    (root.join path).bodySteps = root.bodySteps ++ path.bodySteps := by
  rw [← filter_components, components_join nonempty relative, List.filter_append,
    filter_components, (components_of_relative relative).1, ← filter_components path,
    List.filter_filter]
  simp only [Bool.and_self]

theorem join_nonempty (nonempty : root.bytes ≠ []) (relative : path.isAbsolute = false) :
    (root.join path).bytes ≠ [] := by
  rw [Ne, ← components_eq_nil_iff, components_join nonempty relative, List.append_eq_nil_iff,
    components_eq_nil_iff]
  exact fun isEmpty => nonempty isEmpty.1

/-- A path below a directory stays below it when both are made absolute, however the directory is
    spelled. -/
theorem components_absolute_join (rooted : currentDir.isAbsolute = true)
    (nonempty : root.bytes ≠ []) (relative : path.isAbsolute = false) :
    (absolute currentDir (root.join path)).components =
      (absolute currentDir root).components ++ path.bodySteps := by
  have joined : (root.join path).components = root.components ++ path.bodySteps := by
    rw [components_join nonempty relative, (components_of_relative relative).1]
  have joinedNonempty := join_nonempty nonempty relative
  have alike : (root.join path).isAbsolute = root.isAbsolute := by
    rw [Bool.eq_iff_iff, ← root_mem_components_iff, ← root_mem_components_iff, joined,
      List.mem_append, or_iff_left]
    exact fun inBody => (ne_head_of_mem_bodySteps inBody).1 rfl
  rw [components_absolute rooted joinedNonempty, components_absolute rooted nonempty, alike]
  split
  · exact joined
  · next notRooted =>
    have rootRelative : root.isAbsolute = false := Bool.eq_false_iff.mpr notRooted
    have joinedRelative : (root.join path).isAbsolute = false := alike.trans rootRelative
    rw [(components_of_relative joinedRelative).1, (components_of_relative rootRelative).1,
      bodySteps_join nonempty relative, List.append_assoc]

/-- A step behind the root of an absolute path without `..` is a name. -/
theorem exists_name_of_mem_bodySteps (noParent : .parent ∉ path.components)
    (member : step ∈ path.bodySteps) : ∃ name, step = .name name ∧ isEntryName name = true := by
  have inPath : step ∈ path.components := by
    rw [components_eq]
    exact List.mem_append_right _ member
  cases step with
  | root => exact absurd rfl (ne_head_of_mem_bodySteps member).1
  | current => exact absurd rfl (ne_head_of_mem_bodySteps member).2
  | parent => exact absurd inPath noParent
  | name bytes => exact ⟨bytes, rfl, isEntryName_of_mem_components inPath⟩

/-- The path has an absolute form, as all paths but the empty one have, and that has no `..` in
    it. -/
structure IsPlain (currentDir path : Path) : Prop where
  rooted : (absolute currentDir path).isAbsolute = true
  noParent : .parent ∉ (absolute currentDir path).components

/-- `up` is the number of steps of the base behind the longest beginning that it has in common with
    the file, and `names` are the steps of the file behind that. -/
def ReachedFrom (file base : Path) (up : Nat) (names : List Name) : Prop :=
  ∃ common back, Forks file.components base.components common (names.map .name) back ∧
    back.length = up

/-- Absolute paths have at least the root in common. -/
theorem Forks.ne_nil {file base : Path} (fileRooted : file.isAbsolute = true)
    (baseRooted : base.isAbsolute = true)
    (forks : Forks file.components base.components common ahead back) : common ≠ [] := by
  have rootFirst : ∀ path : Path, path.isAbsolute = true → [.root] <+: path.components :=
    fun path isRooted => ⟨path.bodySteps, (components_of_absolute isRooted).symm⟩
  have inCommon := forks.longest [.root] (rootFirst file fileRooted) (rootFirst base baseRooted)
  rintro rfl
  cases List.prefix_nil.mp inCommon

/-- Between absolute paths without `..` there is a way of steps back and names. -/
theorem exists_reachedFrom {file base : Path} (fileRooted : file.isAbsolute = true)
    (baseRooted : base.isAbsolute = true) (noParent : .parent ∉ file.components)
    (baseNoParent : .parent ∉ base.components) :
    ∃ up names, file.ReachedFrom base up names ∧ (∀ name ∈ names, isEntryName name = true) ∧
      stepsFrom? file.components base.components =
        some (List.replicate up .parent ++ names.map .name) := by
  obtain ⟨common, ahead, back, forks, way⟩ := forks_stepsFrom? file.components baseNoParent
  have areNames : ∀ step ∈ ahead, ∃ name, step = .name name ∧ isEntryName name = true := by
    intro step member
    refine exists_name_of_mem_bodySteps noParent ?_
    -- the root is in the common part, and every other step of the file is in its body
    obtain ⟨first, rest, rfl⟩ := List.exists_cons_of_ne_nil (forks.ne_nil fileRooted baseRooted)
    have whole := forks.file_eq
    rw [components_of_absolute fileRooted, List.cons_append, List.cons.injEq] at whole
    rw [whole.2]
    exact List.mem_append_right _ member
  obtain ⟨names, rfl⟩ : ∃ names : List Name, ahead = names.map .name := by
    have inRange : ahead ∈ Set.range (List.map Component.name) := by
      rw [Set.range_list_map]
      intro step member
      obtain ⟨name, rfl, _⟩ := areNames step member
      exact ⟨name, rfl⟩
    obtain ⟨names, same⟩ := inRange
    exact ⟨names, same.symm⟩
  refine ⟨back.length, names, ⟨common, back, forks, rfl⟩, fun name member => ?_, way⟩
  obtain ⟨_, same, isName⟩ := areNames (.name name) (List.mem_map_of_mem member)
  cases same
  exact isName

/-- The way to a file leads there from the base. -/
theorem ReachedFrom.foldl_follow {file base : Path} {up : Nat} {names : List Name}
    (reached : file.ReachedFrom base up names) (fileRooted : file.isAbsolute = true)
    (baseRooted : base.isAbsolute = true) :
    (List.replicate up Component.parent ++ names.map Component.name).foldl follow base.components =
      file.components := by
  obtain ⟨common, back, forks, rfl⟩ := reached
  rw [List.foldl_append, forks.base_eq,
    foldl_follow_parents (forks.ne_nil fileRooted baseRooted), foldl_follow_names, forks.file_eq]

end Path

namespace PathDisplay

open ConfigScan.Path

variable {currentDir root file : Path}

/-- What is shown of a file are the steps from the root to it, both made absolute. -/
theorem render_scanRoot (fileRooted : (absolute currentDir file).isAbsolute = true)
    (rootRooted : (absolute currentDir root).isAbsolute = true) {steps : List Component}
    (way : stepsFrom? (absolute currentDir file).components
      (absolute currentDir root).components = some steps) :
    scanRoot.render currentDir file (some root) = "/" ++ "/".intercalate (shownSteps steps) := by
  have relative :
      (absolute currentDir file).relativeSteps? (absolute currentDir root) = some steps := by
    rw [relativeSteps?, fileRooted, rootRooted, plainComponents_of_absolute fileRooted,
      plainComponents_of_absolute rootRooted]
    exact way
  rw [render, base, relative]
  rfl

/-- What is shown of a file below the root are the names that lead to it from there. -/
theorem render_join (rooted : currentDir.isAbsolute = true) (nonempty : root.bytes ≠ [])
    {path : Path} {names : List Name} (areSteps : path.components = names.map .name) :
    scanRoot.render currentDir (root.join path) (some root) =
      "/" ++ "/".intercalate (names.map Text.Utf8.text) := by
  have relative : path.isAbsolute = false := by
    rw [Bool.eq_false_iff, Ne, ← root_mem_components_iff, areSteps]
    simp
  have bodySteps_eq : path.bodySteps = names.map .name := by
    rw [← filter_components, areSteps, List.filter_eq_self]
    intro step member
    obtain ⟨name, _, rfl⟩ := List.mem_map.mp member
    rfl
  have way : stepsFrom? (absolute currentDir (root.join path)).components
      (absolute currentDir root).components = some (names.map .name) := by
    rw [components_absolute_join rooted nonempty relative, stepsFrom?_append, bodySteps_eq]
  have texts : shownSteps (names.map .name) = names.map Text.Utf8.text := by
    rw [shownSteps, List.filterMap_map]
    exact congrFun List.filterMap_eq_map names
  rw [render_scanRoot (isAbsolute_absolute rooted (join_nonempty nonempty relative))
    (isAbsolute_absolute rooted nonempty) way, texts]

/-- What is shown of a file whose absolute path has no `..`, seen from a root whose absolute path
    has none. -/
theorem exists_render_reached (rootPlain : IsPlain currentDir root)
    (filePlain : IsPlain currentDir file) :
    ∃ up names, (absolute currentDir file).ReachedFrom (absolute currentDir root) up names ∧
      scanRoot.render currentDir file (some root) =
        "/" ++ "/".intercalate (List.replicate up ".." ++ names.map Text.Utf8.text) ∧
      ((∀ name ∈ names, Text.Utf8.IsText name) →
        resolve (absolute currentDir root) ⟨scanRoot.render currentDir file (some root)⟩ =
          (absolute currentDir file).components) := by
  obtain ⟨up, names, reached, areNames, way⟩ :=
    exists_reachedFrom filePlain.rooted rootPlain.rooted filePlain.noParent rootPlain.noParent
  have areShown : ∀ step ∈ List.replicate up .parent ++ names.map .name,
      Component.IsShown step := by
    intro step member
    rcases List.mem_append.mp member with isBack | isAhead
    · exact Or.inl (List.eq_of_mem_replicate isBack)
    · obtain ⟨name, inNames, rfl⟩ := List.mem_map.mp isAhead
      exact Or.inr ⟨name, rfl, areNames name inNames⟩
  have shown := render_scanRoot filePlain.rooted rootPlain.rooted way
  refine ⟨up, names, reached, ?_, fun areTexts => ?_⟩
  · rw [shown, shownSteps_eq areShown, List.map_append, List.map_replicate, List.map_map]
    rfl
  · have stepTexts : ∀ step ∈ List.replicate up .parent ++ names.map .name,
        Text.Utf8.IsText (Component.bytes step) := by
      intro step member
      rcases List.mem_append.mp member with isBack | isAhead
      · rw [List.eq_of_mem_replicate isBack]
        exact ⟨"..", rfl⟩
      · obtain ⟨name, inNames, rfl⟩ := List.mem_map.mp isAhead
        exact areTexts name inNames
    rw [resolve, shown, components_shown areShown stepTexts, List.foldl_cons, follow]
    exact reached.foldl_follow filePlain.rooted rootPlain.rooted

/-- The names of a file behind what it has in common with the base are texts. -/
def IsReadable (file base : Path) : Prop :=
  ∀ up names, file.ReachedFrom base up names → ∀ name ∈ names, Text.Utf8.IsText name

/-- Such is a file all of whose names are texts. -/
theorem isReadable_of_components {file base : Path}
    (areTexts : ∀ name, .name name ∈ file.components → Text.Utf8.IsText name) :
    IsReadable file base := by
  rintro up names ⟨common, back, forks, _⟩ name member
  apply areTexts name
  rw [forks.file_eq]
  exact List.mem_append_right _ (List.mem_map_of_mem member)

/-- What is shown of a file below the root are the names that lead there from the root, however the
    root is spelled. What is shown of any file leads back from the root as far as it has to and then
    down to the file. Where the names on the way down are texts, the root and what is shown together
    give the absolute path of the file, and two such files with different absolute paths are never
    shown alike. -/
theorem render_faithful (rooted : currentDir.isAbsolute = true) :
    (∀ (root path : Path) (names : List Name), root.bytes ≠ [] → path.components = names.map .name →
      scanRoot.render currentDir (root.join path) (some root) =
        "/" ++ "/".intercalate (names.map Text.Utf8.text)) ∧
    (∀ root file, IsPlain currentDir root → IsPlain currentDir file →
      ∃ up names, (absolute currentDir file).ReachedFrom (absolute currentDir root) up names ∧
        scanRoot.render currentDir file (some root) =
          "/" ++ "/".intercalate (List.replicate up ".." ++ names.map Text.Utf8.text) ∧
        ((∀ name ∈ names, Text.Utf8.IsText name) →
          resolve (absolute currentDir root) ⟨scanRoot.render currentDir file (some root)⟩ =
            (absolute currentDir file).components)) ∧
    ∀ root file other, IsPlain currentDir root → IsPlain currentDir file →
      IsPlain currentDir other →
      IsReadable (absolute currentDir file) (absolute currentDir root) →
      IsReadable (absolute currentDir other) (absolute currentDir root) →
      (absolute currentDir file).same (absolute currentDir other) = false →
      scanRoot.render currentDir file (some root) ≠
        scanRoot.render currentDir other (some root) := by
  refine ⟨?_, ?_, ?_⟩
  · intro root path names nonempty areSteps
    exact render_join rooted nonempty areSteps
  · intro root file rootPlain filePlain
    exact exists_render_reached rootPlain filePlain
  · intro root file other rootPlain filePlain otherPlain readable otherReadable different alike
    obtain ⟨up, names, reached, _, fileMeant⟩ := exists_render_reached rootPlain filePlain
    obtain ⟨otherUp, otherNames, otherReached, _, otherMeant⟩ :=
      exists_render_reached rootPlain otherPlain
    have fileBack := fileMeant (readable up names reached)
    have otherBack := otherMeant (otherReadable otherUp otherNames otherReached)
    have same : (absolute currentDir file).same (absolute currentDir other) = true := by
      rw [same_iff_components, ← fileBack, ← otherBack, alike]
    rw [same] at different
    cases different

/-- A root that is spelled in a roundabout way, a file below it, and two files beside it. -/
theorem render_faithful_roundabout :
    let currentDir : Path := ⟨"/w"⟩
    let root : Path := ⟨"./conf//"⟩
    let path : Path := ⟨"a/./b.yml"⟩
    let file : Path := ⟨"/srv/c.yml"⟩
    let other : Path := ⟨"srv/c.yml"⟩
    currentDir.isAbsolute = true ∧ root.bytes ≠ [] ∧
      path.components = [.name "a", .name "b.yml"] ∧
      scanRoot.render currentDir (root.join path) (some root) = "/a/b.yml" ∧
      IsPlain currentDir root ∧ IsPlain currentDir file ∧ IsPlain currentDir other ∧
      resolve (absolute currentDir root) ⟨scanRoot.render currentDir file (some root)⟩ =
        (absolute currentDir file).components ∧
      (absolute currentDir file).same (absolute currentDir other) = false ∧
      scanRoot.render currentDir file (some root) ≠
        scanRoot.render currentDir other (some root) := by
  intro currentDir root path file other
  have rooted : currentDir.isAbsolute = true := by decide
  have nonempty : root.bytes ≠ [] := by decide
  have areSteps : path.components = [.name "a", .name "b.yml"] := by decide
  have rootPlain : IsPlain currentDir root := ⟨by decide, by decide⟩
  have filePlain : IsPlain currentDir file := ⟨by decide, by decide⟩
  have otherPlain : IsPlain currentDir other := ⟨by decide, by decide⟩
  have fileSteps : (absolute currentDir file).components =
      [.root, .name "srv", .name "c.yml"] := by decide
  have otherSteps : (absolute currentDir other).components =
      [.root, .name "w", .name "srv", .name "c.yml"] := by decide
  have fileReadable : IsReadable (absolute currentDir file) (absolute currentDir root) := by
    refine isReadable_of_components fun name member => ?_
    simp only [fileSteps, List.mem_cons, List.not_mem_nil, or_false, reduceCtorEq, false_or,
      Component.name.injEq] at member
    rcases member with rfl | rfl <;> exact ⟨_, rfl⟩
  have otherReadable : IsReadable (absolute currentDir other) (absolute currentDir root) := by
    refine isReadable_of_components fun name member => ?_
    simp only [otherSteps, List.mem_cons, List.not_mem_nil, or_false, reduceCtorEq, false_or,
      Component.name.injEq] at member
    rcases member with rfl | rfl | rfl <;> exact ⟨_, rfl⟩
  have different : (absolute currentDir file).same (absolute currentDir other) = false := by decide
  obtain ⟨below, anywhere, apart⟩ := render_faithful rooted
  have shown := below root path ["a", "b.yml"] nonempty areSteps
  rw [List.map_cons, List.map_cons, Text.Utf8.text_bytes, Text.Utf8.text_bytes] at shown
  obtain ⟨up, names, reached, _, meant⟩ := anywhere root file rootPlain filePlain
  exact ⟨rooted, nonempty, areSteps, shown, rootPlain, filePlain, otherPlain,
    meant (fileReadable up names reached), different,
    apart root file other rootPlain filePlain otherPlain fileReadable otherReadable different⟩

/-- From the root `/w/conf` one step leads back. -/
example :
    scanRoot.render ⟨"/w"⟩ ⟨"srv/c.yml"⟩ (some ⟨"./conf//"⟩) = "/../srv/c.yml" := by decide +kernel

/-- Two files whose names are no texts are shown alike, as the file whose name is the character that
    stands for such bytes, though their absolute paths are different. The empty path, which has no
    absolute form, is shown as the root itself, and no step leads back from `/a/b`. -/
theorem render_alike_of_no_texts :
    let currentDir : Path := ⟨"/"⟩
    let root : Path := ⟨"/r"⟩
    let file : Path := ⟨Text.Utf8.bytes "/r/" ++ [0xFF]⟩
    let other : Path := ⟨Text.Utf8.bytes "/r/" ++ [0xFE]⟩
    let empty : Path := ⟨""⟩
    let deep : Path := ⟨"/a/b"⟩
    IsPlain currentDir root ∧ IsPlain currentDir file ∧ IsPlain currentDir other ∧
      (absolute currentDir file).same (absolute currentDir other) = false ∧
      scanRoot.render currentDir file (some root) =
        scanRoot.render currentDir other (some root) ∧
      resolve (absolute currentDir root) ⟨scanRoot.render currentDir file (some root)⟩ ≠
        (absolute currentDir file).components ∧
      Forks (absolute currentDir empty).components (absolute currentDir deep).components [] []
        [.root, .name "a", .name "b"] ∧
      scanRoot.render currentDir empty (some deep) ≠
        "/" ++ "/".intercalate (List.replicate 3 "..") := by
  intro currentDir root file other empty deep
  have deepSteps : (absolute currentDir deep).components = [.root, .name "a", .name "b"] := by
    decide
  refine ⟨⟨by decide, by decide⟩, ⟨by decide, by decide⟩, ⟨by decide, by decide⟩, by decide,
    by decide +kernel, by decide +kernel, ?_, by decide +kernel⟩
  exact ⟨rfl, deepSteps, fun other inFile _ => inFile⟩

end PathDisplay

end ConfigScan
