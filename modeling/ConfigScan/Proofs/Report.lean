/-
Module: ConfigScan.Proofs.Report
Purpose: What taking the path of a directory off the shown paths of a report does to them. They stay
  rooted exactly when no path goes on inside the last name of the directory.
Main exports: Report.IsRooted, Report.Within, Report.Beside, Report.stripPrefix_rooted_iff
-/
import ConfigScan.Report
import Mathlib.Data.List.Zip

namespace ConfigScan.Report

/-! ### Shown paths and directories -/

/-- The path has a slash in front, as all shown paths have. -/
def IsRooted (path : String) : Prop := path.toList.head? = some '/'

/-- The path is the directory itself, or it goes on with a slash behind it. -/
def Within (directory path : String) : Prop :=
  path = directory ∨ ∃ rest, path.toList = directory.toList ++ '/' :: rest

/-- The path begins like the directory, but goes on inside the last name, as that of a sibling
    does. -/
def Beside (directory path : String) : Prop :=
  ∃ c rest, path.toList = directory.toList ++ c :: rest ∧ c ≠ '/'

variable {directory path : String} {rest : List Char}

theorem Within.not_beside (within : Within directory path) : ¬ Beside directory path := by
  rintro ⟨c, more, goesOn, notSlash⟩
  obtain rfl | ⟨rest, below⟩ := within
  · simp at goesOn
  · rw [below, List.append_cancel_left_eq, List.cons.injEq] at goesOn
    exact notSlash goesOn.1.symm

/-- A path that begins like the directory is in it or beside it. -/
theorem within_or_beside (begins : path.toList = directory.toList ++ rest) :
    Within directory path ∨ Beside directory path := by
  cases rest with
  | nil =>
      rw [List.append_nil, String.toList_inj] at begins
      exact .inl (.inl begins)
  | cons c more =>
      by_cases slash : c = '/'
      · subst slash
        exact .inl (.inr ⟨more, begins⟩)
      · exact .inr ⟨c, more, begins, slash⟩

theorem Within.begins (within : Within directory path) :
    ∃ rest, path.toList = directory.toList ++ rest := by
  obtain rfl | ⟨rest, below⟩ := within
  · exact ⟨[], (List.append_nil _).symm⟩
  · exact ⟨_, below⟩

/-! ### One path -/

theorem toList_withoutStart (begins : path.toList = directory.toList ++ rest) :
    (withoutStart directory path).toList = rest := by
  have isPrefix : directory.toList.isPrefixOf path.toList = true :=
    List.isPrefixOf_iff_prefix.mpr ⟨rest, begins.symm⟩
  rw [withoutStart, if_pos isPrefix, String.toList_ofList, begins, List.drop_left]

theorem withoutStart_of_not_begins (other : ∀ rest, path.toList ≠ directory.toList ++ rest) :
    withoutStart directory path = path := by
  rw [withoutStart, if_neg]
  rw [List.isPrefixOf_iff_prefix]
  rintro ⟨rest, begins⟩
  exact other rest begins.symm

/-- Only paths that begin like the directory are changed. -/
theorem within_or_beside_of_changed (changed : withoutStart directory path ≠ path) :
    Within directory path ∨ Beside directory path := by
  by_contra neither
  refine changed (withoutStart_of_not_begins fun rest begins => ?_)
  exact neither (within_or_beside begins)

/-- In the directory, a slash or nothing at all is left in front. -/
theorem isRooted_withoutStart (rooted : IsRooted path) (notBeside : ¬ Beside directory path)
    (visible : withoutStart directory path ≠ "") : IsRooted (withoutStart directory path) := by
  by_cases changed : withoutStart directory path = path
  · rwa [changed]
  · obtain rfl | ⟨rest, below⟩ := (within_or_beside_of_changed changed).resolve_right notBeside
    · refine absurd ?_ visible
      rw [← String.toList_inj]
      exact toList_withoutStart (List.append_nil _).symm
    · rw [IsRooted, toList_withoutStart below, List.head?_cons]

/-- The path of a sibling loses its slash. -/
theorem Beside.not_isRooted (beside : Beside directory path) :
    withoutStart directory path ≠ "" ∧ ¬ IsRooted (withoutStart directory path) := by
  obtain ⟨c, rest, goesOn, notSlash⟩ := beside
  have left := toList_withoutStart goesOn
  constructor
  · intro empty
    rw [empty] at left
    cases left
  · rw [IsRooted, left, List.head?_cons, Option.some.injEq]
    exact notSlash

theorem Beside.changed (beside : Beside directory path) (rooted : IsRooted path) :
    withoutStart directory path ≠ path :=
  fun same => beside.not_isRooted.2 (same.symm ▸ rooted)

/-- Different paths that begin like the directory stay different. -/
theorem Within.ne_withoutStart {other : String} (within : Within directory path)
    (otherWithin : Within directory other) (different : path ≠ other) :
    withoutStart directory path ≠ withoutStart directory other := by
  intro same
  obtain ⟨rest, begins⟩ := within.begins
  obtain ⟨otherRest, otherBegins⟩ := otherWithin.begins
  apply different
  rw [← String.toList_inj, begins, otherBegins, ← toList_withoutStart begins,
    ← toList_withoutStart otherBegins, same]

/-! ### All paths of a report -/

/-- The findings with what has become of them. -/
def changes (before after : Report) : List (Finding × Finding) :=
  before.findings.zip after.findings

/-- Only the shown paths of the directory and of what is in it have changed. -/
def OnlyWithin (directory : String) (before after : Report) : Prop :=
  ∀ change ∈ changes before after,
    change.2.filePath ≠ change.1.filePath → Within directory change.1.filePath

/-- Every shown path of which something is left has a slash in front. -/
def StaysRooted (after : Report) : Prop :=
  ∀ finding ∈ after.findings, finding.filePath ≠ "" → IsRooted finding.filePath

/-- The findings are as many as before and in the same order, nothing but their shown paths and
    resources has changed, and different paths in the directory have stayed different. -/
structure OnlyShortened (directory : String) (before after : Report) : Prop where
  checkType : after.checkType = before.checkType
  count : after.findings.length = before.findings.length
  others : ∀ change ∈ changes before after, change.2 =
    { change.1 with filePath := change.2.filePath, resource := change.2.resource }
  apart : ∀ one ∈ changes before after, ∀ other ∈ changes before after,
    Within directory one.1.filePath → Within directory other.1.filePath →
      one.1.filePath ≠ other.1.filePath → one.2.filePath ≠ other.2.filePath

/-- A finding without the directory in front of its shown path and its resource. -/
def stripped (directory : String) (finding : Finding) : Finding :=
  { finding with
    filePath := withoutStart directory finding.filePath
    resource := withoutStart directory finding.resource }

variable {report : Report} {finding after : Finding}

theorem findings_stripPrefix (report : Report) (directory : String) :
    (report.stripPrefix directory).findings = report.findings.map (stripped directory) := rfl

theorem mem_changes_iff :
    (finding, after) ∈ changes report (report.stripPrefix directory) ↔
      finding ∈ report.findings ∧ after = stripped directory finding := by
  rw [changes, findings_stripPrefix, ← List.map_prod_left_eq_zip, List.mem_map]
  constructor
  · rintro ⟨_, member, ⟨⟩⟩
    exact ⟨member, rfl⟩
  · rintro ⟨member, rfl⟩
    exact ⟨finding, member, rfl⟩

theorem onlyShortened_stripPrefix (report : Report) (directory : String) :
    OnlyShortened directory report (report.stripPrefix directory) where
  checkType := rfl
  count := List.length_map _
  others := by
    rintro ⟨finding, after⟩ change
    obtain ⟨_, rfl⟩ := mem_changes_iff.mp change
    rfl
  apart := by
    rintro ⟨one, oneAfter⟩ oneChange ⟨other, otherAfter⟩ otherChange within otherWithin different
    obtain ⟨_, rfl⟩ := mem_changes_iff.mp oneChange
    obtain ⟨_, rfl⟩ := mem_changes_iff.mp otherChange
    exact within.ne_withoutStart otherWithin different

/-- A path beside the directory is changed, though it is not in it. -/
theorem Beside.not_onlyWithin (beside : Beside directory finding.filePath)
    (member : finding ∈ report.findings) (rooted : IsRooted finding.filePath) :
    ¬ OnlyWithin directory report (report.stripPrefix directory) := by
  intro onlyWithin
  have change : (finding, stripped directory finding) ∈
      changes report (report.stripPrefix directory) := mem_changes_iff.mpr ⟨member, rfl⟩
  exact (onlyWithin _ change (beside.changed rooted)).not_beside beside

theorem Beside.not_staysRooted (beside : Beside directory finding.filePath)
    (member : finding ∈ report.findings) : ¬ StaysRooted (report.stripPrefix directory) := by
  intro staysRooted
  have left : stripped directory finding ∈ (report.stripPrefix directory).findings :=
    List.mem_map_of_mem member
  exact beside.not_isRooted.2 (staysRooted (stripped directory finding) left beside.not_isRooted.1)

/-- Taking a directory off the shown paths of a report changes those in it and no others, and leaves
    a slash in front of all that are not empty, exactly when no path is one of a sibling whose name
    begins like that of the directory. In any case nothing else is changed, lost or merged. -/
theorem stripPrefix_rooted_iff
    (rooted : ∀ finding ∈ report.findings, IsRooted finding.filePath) (directory : String) :
    (OnlyWithin directory report (report.stripPrefix directory) ↔
      ∀ finding ∈ report.findings, ¬ Beside directory finding.filePath) ∧
    (StaysRooted (report.stripPrefix directory) ↔
      ∀ finding ∈ report.findings, ¬ Beside directory finding.filePath) ∧
    OnlyShortened directory report (report.stripPrefix directory) := by
  refine ⟨⟨?_, ?_⟩, ⟨?_, ?_⟩, onlyShortened_stripPrefix report directory⟩
  · intro onlyWithin finding member beside
    exact beside.not_onlyWithin member (rooted finding member) onlyWithin
  · rintro noneBeside ⟨finding, after⟩ change
    obtain ⟨member, rfl⟩ := mem_changes_iff.mp change
    intro changed
    exact (within_or_beside_of_changed changed).resolve_right (noneBeside finding member)
  · intro staysRooted finding member beside
    exact beside.not_staysRooted member staysRooted
  · intro noneBeside after member visible
    rw [findings_stripPrefix] at member
    obtain ⟨finding, inReport, rfl⟩ := List.mem_map.mp member
    exact isRooted_withoutStart (rooted finding inReport) (noneBeside finding inReport) visible

/-- The directory itself, a file in it and a file of the directory above. -/
theorem stripPrefix_rooted_repo :
    let shown (path : String) : Finding := { (default : Finding) with filePath := path }
    let report : Report := ⟨.yaml, [shown "/work/repo", shown "/work/repo/a.yml", shown "/work/a"]⟩
    (∀ finding ∈ report.findings, IsRooted finding.filePath) ∧
      OnlyWithin "/work/repo" report (report.stripPrefix "/work/repo") ∧
      StaysRooted (report.stripPrefix "/work/repo") ∧
      (report.stripPrefix "/work/repo").findings.map Finding.filePath =
        ["", "/a.yml", "/work/a"] := by
  intro shown report
  have rooted : ∀ finding ∈ report.findings, IsRooted finding.filePath := by
    simp [report, shown, IsRooted]
  have noneBeside : ∀ finding ∈ report.findings, ¬ Beside "/work/repo" finding.filePath := by
    simp [report, shown, Beside]
  have shortens := stripPrefix_rooted_iff rooted "/work/repo"
  exact ⟨rooted, shortens.1.mpr noneBeside, shortens.2.1.mpr noneBeside, by decide⟩

/-- The file of a sibling directory loses its slash and the beginning of the directory's name. -/
theorem stripPrefix_of_sibling :
    let finding : Finding := { (default : Finding) with filePath := "/work/repository/a.yml" }
    let report : Report := ⟨.yaml, [finding]⟩
    IsRooted finding.filePath ∧
      (report.stripPrefix "/work/repo").findings.map Finding.filePath = ["sitory/a.yml"] ∧
      ¬ OnlyWithin "/work/repo" report (report.stripPrefix "/work/repo") ∧
      ¬ StaysRooted (report.stripPrefix "/work/repo") := by
  intro finding report
  have rooted : IsRooted finding.filePath := by simp [finding, IsRooted]
  have beside : Beside "/work/repo" finding.filePath :=
    ⟨'s', "itory/a.yml".toList, by simp [finding], by decide⟩
  have member : finding ∈ report.findings := List.mem_cons_self
  exact ⟨rooted, by decide, beside.not_onlyWithin member rooted, beside.not_staysRooted member⟩

end ConfigScan.Report
