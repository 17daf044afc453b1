/-
Module: ConfigScan.Proofs.FindingRange
Purpose: Where a finding is located and which lines it shows, for whatever configuration its check
  looked at.
Main exports: RawResult.LocatedAt, FindingContext.build?_located
-/
import ConfigScan.Proofs.Document.LineRange
import ConfigScan.Proofs.FindingLocation

namespace ConfigScan

/-- A result is located at the lines that the markers of its configuration give, and at `0` and `0`
    when these give none or there is no configuration. -/
inductive RawResult.LocatedAt (result : RawResult) : Nat → Nat → Prop where
  | marked {node : Node} {first last : Nat} (configured : result.configuration = some node)
      (locates : node.Locates first last) : LocatedAt result first last
  | nowhere (unlocated : ∀ node, result.configuration = some node →
      ∀ first last, ¬ node.Locates first last) : LocatedAt result 0 0

namespace RawResult

variable {result : RawResult} {first last : Nat}

theorem bind_lineRange?_eq_some_iff :
    result.configuration.bind Node.lineRange? = some (first, last) ↔
      ∃ node, result.configuration = some node ∧ node.Locates first last := by
  simp only [Option.bind_eq_some_iff, Node.locates_iff]

/-- A result is located at one place. -/
theorem locatedAt_iff :
    result.LocatedAt first last ↔
      (result.configuration.bind Node.lineRange?).getD (0, 0) = (first, last) := by
  constructor
  · intro located
    cases located with
    | marked configured locates =>
        rw [bind_lineRange?_eq_some_iff.mpr ⟨_, configured, locates⟩, Option.getD_some]
    | nowhere unlocated =>
        cases range : result.configuration.bind Node.lineRange? with
        | none => rfl
        | some lines =>
            obtain ⟨node, configured, locates⟩ := bind_lineRange?_eq_some_iff.mp range
            exact absurd locates (unlocated node configured _ _)
  · intro located
    cases range : result.configuration.bind Node.lineRange? with
    | none =>
        rw [range] at located
        cases located
        -- a node with lines would have been found
        refine .nowhere fun node configured start stop locates => ?_
        rw [bind_lineRange?_eq_some_iff.mpr ⟨node, configured, locates⟩] at range
        cases range
    | some lines =>
        rw [range] at located
        cases located
        obtain ⟨node, configured, locates⟩ := bind_lineRange?_eq_some_iff.mp range
        exact .marked configured locates

/-- Integers of 64 bits give line numbers that leave room for the next one. -/
theorem LocatedAt.lt_of_isSmall (located : result.LocatedAt first last)
    (small : ∀ node, result.configuration = some node → node.IsSmall) :
    first < 2 ^ 63 ∧ last + 1 < 2 ^ 64 := by
  cases located with
  | marked configured locates =>
      have bounds := locates.lt_of_isSmall (small _ configured)
      omega
  | nowhere unlocated => decide

/-- Where a result is located whose configuration had these lines appended. -/
theorem locatedAt_withLines {entries : Mapping} {start stop : Nat} (unmarked : entries.Unmarked)
    (startWord : start < 2 ^ 64) (stopWord : stop < 2 ^ 64)
    (configured : result.configuration = some (.map (entries.withLines start stop)))
    (located : result.LocatedAt first last) :
    (first, last) = if start < 2 ^ 63 ∧ stop < 2 ^ 63 then (start, stop) else (0, 0) := by
  split
  · next small =>
    have located' : result.LocatedAt start stop :=
      .marked configured ((Node.locates_withLines_iff unmarked startWord stopWord).mpr
        ⟨⟨rfl, small.1⟩, rfl, small.2⟩)
    rw [locatedAt_iff] at located located'
    exact located.symm.trans located'
  · next large =>
    cases located with
    | marked isConfigured locates =>
        rw [configured] at isConfigured
        cases isConfigured
        obtain ⟨⟨_, startSmall⟩, _, stopSmall⟩ :=
          (Node.locates_withLines_iff unmarked startWord stopWord).mp locates
        exact absurd ⟨startSmall, stopSmall⟩ large
    | nowhere unlocated => rfl

end RawResult

namespace FindingContext

variable {σ : Type}

/-- A check with a name gives a finding for whatever configuration it looked at, and for whatever
    lines. It is located by the first markers of the configuration, or at `0` and `0`, and shows the
    lines around these, whether they are in order and in the file or not. With integers of 64 bits
    no number gets too large for 64 bits. Lines that were appended as words of 64 bits locate the
    finding unless one of them is so large that it reads as a negative integer. -/
theorem build?_located (context : FindingContext σ)
    (byMarkers : context.family.lineRange = Node.lineRange?) (path : Path) (key : String)
    {result : RawResult} {check : Check} (hasCheck : result.check = some check)
    (named : check.id ≠ "") (lines : List RawLine) :
    ∃ finding first last, context.build? path key result lines = some finding ∧
      result.LocatedAt first last ∧
      finding.lineRange = (first, last + 1) ∧
      finding.codeBlock = RawLine.around lines first last ∧
      ((∀ node, result.configuration = some node → node.IsSmall) →
        first < 2 ^ 63 ∧ last + 1 < 2 ^ 64) ∧
      ∀ entries start stop, Mapping.Unmarked entries → start < 2 ^ 64 → stop < 2 ^ 64 →
        result.configuration = some (.map (Mapping.withLines entries start stop)) →
        (first, last) = if start < 2 ^ 63 ∧ stop < 2 ^ 63 then (start, stop) else (0, 0) := by
  obtain ⟨finding, built, lineRange, codeBlock⟩ :=
    context.build?_of_named path key hasCheck named lines
  have located :
      result.LocatedAt (context.location result).1 (context.location result).2 := by
    rw [RawResult.locatedAt_iff, location, byMarkers]
  refine ⟨finding, _, _, built, located, lineRange, ?_, located.lt_of_isSmall, ?_⟩
  · rw [codeBlock, RawLine.snippet_eq_around]
  · intro entries start stop unmarked startWord stopWord configured
    exact RawResult.locatedAt_withLines unmarked startWord stopWord configured located

/-- Lines that are the wrong way round still have the line between them around both. -/
theorem build?_located_inverted :
    let context : FindingContext Unit :=
      { family :=
          { checkType := .yaml
            registry :=
              { initial := ()
                load := fun state _ => .ok state
                scan := fun _ _ _ _ _ => [] }
            parseFile := fun _ => none }
        currentDir := ⟨"/"⟩
        root := none
        display := .scanRoot
        pipeline := none }
    let result : RawResult :=
      { check := some { id := "X", name := "x" }
        configuration := some (.map (Mapping.withLines [] 4 2))
        outcome := .failed }
    context.family.lineRange = Node.lineRange? ∧
      ∃ finding,
        context.build? ⟨"/a.yml"⟩ "key" result [⟨1, "a"⟩, ⟨2, "b"⟩, ⟨3, "c"⟩, ⟨4, "d"⟩] =
            some finding ∧
          finding.lineRange = (4, 3) ∧ finding.codeBlock = [⟨3, "c"⟩] := by
  intro context result
  have hasCheck : result.check = some { id := "X", name := "x" } := rfl
  obtain ⟨finding, first, last, built, _, lineRange, codeBlock, _, appended⟩ :=
    build?_located context rfl ⟨"/a.yml"⟩ "key" hasCheck (by decide)
      [⟨1, "a"⟩, ⟨2, "b"⟩, ⟨3, "c"⟩, ⟨4, "d"⟩]
  have lines := appended [] 4 2 (by simp [Mapping.Unmarked]) (by decide) (by decide) rfl
  rw [if_pos (by decide)] at lines
  cases lines
  exact ⟨rfl, finding, built, lineRange, by rw [codeBlock]; decide⟩

end FindingContext

end ConfigScan
