/-
Module: ConfigScan.Proofs.Yaml.KeyPositions
Purpose: What the places of the keys of a mapping say about the search for its values, and all that
  marking a mapping can do.
Main exports: Outline.firstLine, Outline.Ladder.fence, Outline.Ladder.restart,
  Value.keyPositions, Value.markEntries_cons_of_unplaced, Value.markEntries_cons_of_placed,
  Value.mark_map_inversion
-/
import ConfigScan.Proofs.Yaml.Outline
import ConfigScan.Proofs.Yaml.Unmarked

namespace ConfigScan.Yaml

namespace Outline

/-- The line of the first key that has a place, or else the line `limit`. -/
def firstLine (limit : Nat) : List (Option KeyPosition) → Nat
  | [] => limit
  | none :: rest => firstLine limit rest
  | some position :: _ => position.line

namespace Ladder

variable {outline : Outline} {column limit next : Nat} {positions : List (Option KeyPosition)}

theorem le_firstLine (ladder : outline.Ladder column limit next positions)
    (next_le : next ≤ limit) : next ≤ firstLine limit positions := by
  induction positions with
  | nil => exact next_le
  | cons position rest inductionHypothesis =>
      cases position with
      | none => exact inductionHypothesis ladder
      | some position => exact ladder.1

theorem firstLine_le (ladder : outline.Ladder column limit next positions) :
    firstLine limit positions ≤ limit := by
  induction positions generalizing next with
  | nil => exact Nat.le_refl _
  | cons position rest inductionHypothesis =>
      cases position with
      | none => exact inductionHypothesis ladder
      | some position => exact Nat.le_of_lt ladder.2.1

/-- What is searched deeper than the column of the keys does not reach the next key. -/
theorem fence (ladder : outline.Ladder column limit next positions)
    (fence : outline.Fence (column + 1) limit) :
    outline.Fence (column + 1) (firstLine limit positions) := by
  induction positions generalizing next with
  | nil => exact fence
  | cons position rest inductionHypothesis =>
      cases position with
      | none => exact inductionHypothesis ladder
      | some position =>
          obtain ⟨_, _, _, ⟨line, member, index, lineColumn⟩, _⟩ := ladder
          exact Or.inr ⟨line, member, index, by omega⟩

/-- A search that has not passed the next key can go on there. -/
theorem restart {next' : Nat} (ladder : outline.Ladder column limit next positions)
    (le_first : next' ≤ firstLine limit positions) :
    outline.Ladder column limit next' positions := by
  induction positions generalizing next with
  | nil => trivial
  | cons position rest inductionHypothesis =>
      cases position with
      | none => exact inductionHypothesis ladder le_first
      | some position => exact ⟨le_first, ladder.2⟩

/-- Every key that has a place stands at the common column, from the first such key on. -/
theorem located (ladder : outline.Ladder column limit next positions) {position : KeyPosition}
    (member : position ∈ positions.filterMap id) :
    firstLine limit positions ≤ position.line ∧ position.line < limit ∧
      position.column = column := by
  induction positions generalizing next with
  | nil => cases member
  | cons head rest inductionHypothesis =>
      cases head with
      | none => exact inductionHypothesis ladder member
      | some head =>
          rcases List.mem_cons.mp member with same | later
          · subst same
            exact ⟨Nat.le_refl _, ladder.2.1, ladder.2.2.1⟩
          · obtain ⟨lower, upper, sameColumn⟩ := inductionHypothesis ladder.2.2.2.2 later
            have inFront := le_firstLine ladder.2.2.2.2 ladder.2.1
            exact ⟨by simp only [firstLine]; omega, upper, sameColumn⟩

end Ladder

theorem firstLine_of_head? (limit : Nat) {positions : List (Option KeyPosition)}
    {first : KeyPosition} (head : (positions.filterMap id).head? = some first) :
    firstLine limit positions = first.line := by
  induction positions with
  | nil => cases head
  | cons position rest inductionHypothesis =>
      cases position with
      | none => exact inductionHypothesis head
      | some position =>
          cases head
          rfl

/-- The first and the last of the keys that have a place. -/
theorem Ladder.ends {outline : Outline} {column limit next : Nat}
    {positions : List (Option KeyPosition)} (ladder : outline.Ladder column limit next positions)
    {first : KeyPosition} {others : List KeyPosition}
    (placed : positions.filterMap id = first :: others) :
    ∃ last, (positions.filterMap id).getLast? = some last ∧
      firstLine limit positions = first.line ∧ first.column = column ∧
      first.line ≤ last.line ∧ last.line < limit := by
  have head : (positions.filterMap id).head? = some first := by
    rw [placed]
    rfl
  have firstEq := firstLine_of_head? limit head
  cases tail : (positions.filterMap id).getLast? with
  | none =>
      rw [placed] at tail
      simp at tail
  | some last =>
      obtain ⟨first_le, last_lt, _⟩ := ladder.located (List.mem_of_getLast? tail)
      obtain ⟨_, _, firstColumn⟩ := ladder.located (List.mem_of_mem_head? head)
      exact ⟨last, rfl, firstEq, firstColumn, firstEq ▸ first_le, last_lt⟩

end Outline

namespace Value

/-- The places of the keys of a mapping that is searched from the line `next` on. -/
abbrev keyPositions (outline : Outline) (least next : Nat) (entries : List (Value × Value)) :
    List (Option KeyPosition) :=
  (outline.startingAt next).findKeys least none (entries.map fun e => e.1.key?.isSome)

/-- The keys of a mapping are found one below the other at one column. -/
theorem keyPositions_ladder {outline : Outline} (wellFormed : outline.WellFormed)
    {least limit next : Nat} (fence : outline.Fence least limit) (next_le : next ≤ limit)
    (entries : List (Value × Value)) :
    ∃ column, least ≤ column ∧
      outline.Ladder column limit next (keyPositions outline least next entries) := by
  obtain ⟨column, least_le, _, ladder⟩ :=
    Outline.findKeys_ladder wellFormed fence next_le none (by simp)
      (entries.map fun e => e.1.key?.isSome)
  exact ⟨column, least_le, ladder⟩

/-- An entry whose key has no place is kept without lines. -/
theorem markEntries_cons_of_unplaced {outline : Outline} {least next : Nat}
    {positions : List (Option KeyPosition)} (unplaced : positions.head?.join = none)
    {key value : Value} {rest : List (Value × Value)} :
    markEntries outline least positions next ((key, value) :: rest) =
      (match key.key? with
        | some name =>
            (name, value.unmarked) :: (markEntries outline least positions.tail next rest).1
        | none => (markEntries outline least positions.tail next rest).1,
        (markEntries outline least positions.tail next rest).2) := by
  rw [markEntries, unplaced]
  simp only [mark_unlocated]
  cases key.key? <;> rfl

/-- The value of a key that has a place is searched deeper than the key, from the line behind it
    on, unless it starts on the line of the key. -/
theorem markEntries_cons_of_placed {outline : Outline} {least next : Nat}
    {position : KeyPosition} {positions : List (Option KeyPosition)} {key value : Value}
    {rest : List (Value × Value)} :
    markEntries outline least (some position :: positions) next ((key, value) :: rest) =
      (match key.key? with
        | some name =>
            (name, (mark outline (position.column + 1) (!position.inline) (position.line + 1)
                value).1) ::
              (markEntries outline least positions
                (mark outline (position.column + 1) (!position.inline) (position.line + 1)
                  value).2 rest).1
        | none =>
            (markEntries outline least positions
              (mark outline (position.column + 1) (!position.inline) (position.line + 1)
                value).2 rest).1,
        (markEntries outline least positions
          (mark outline (position.column + 1) (!position.inline) (position.line + 1)
            value).2 rest).2) := by
  rw [markEntries]
  simp only [List.head?_cons, Option.join_some, List.tail_cons]
  cases key.key? <;> rfl

/-- A mapping none of whose keys is found gets no lines, and neither does what it holds. -/
theorem mark_map_of_unplaced {outline : Outline} {least next : Nat}
    {entries : List (Value × Value)}
    (unplaced : (keyPositions outline least next entries).filterMap id = []) :
    mark outline least true next (.map entries) = ((Value.map entries).unmarked, next) := by
  have allNone : ∀ position ∈ keyPositions outline least next entries, position = none := by
    intro position member
    exact (List.filterMap_eq_nil_iff.mp unplaced) position member
  rw [mark, if_pos rfl, markEntries_unplaced outline least next entries _ allNone]
  simp only [unplaced]
  rfl

/-- A mapping with a key that is found gets the line of its first such key and the last line that
    belongs to its last one. -/
theorem mark_map_of_placed {outline : Outline} {least next : Nat}
    {entries : List (Value × Value)} {first last : KeyPosition}
    (head : ((keyPositions outline least next entries).filterMap id).head? = some first)
    (tail : ((keyPositions outline least next entries).filterMap id).getLast? = some last) :
    mark outline least true next (.map entries) =
      (.map (Mapping.withLines
          (markEntries outline least (keyPositions outline least next entries) next entries).1
          (first.line + 1) (outline.lastLine last.line first.column + 1)),
        max (markEntries outline least (keyPositions outline least next entries) next entries).2
          (outline.lastLine last.line first.column + 1)) := by
  rw [mark, if_pos rfl]
  simp only [head, tail]

/-- All that can become of a mapping that is searched for: none of its keys is found and it gets no
    lines, or its keys are found one below the other, and it gets the line of the first one and a
    last line that is still in front of the fence. -/
theorem mark_map_inversion {outline : Outline} (wellFormed : outline.WellFormed)
    {least limit next : Nat} (fence : outline.Fence least limit) (next_le : next ≤ limit)
    (entries : List (Value × Value)) :
    mark outline least true next (.map entries) = ((Value.map entries).unmarked, next) ∨
      ∃ column stop,
        least ≤ column ∧
        outline.Ladder column limit next (keyPositions outline least next entries) ∧
        Outline.firstLine limit (keyPositions outline least next entries) ≤ stop ∧
        stop < limit ∧
        mark outline least true next (.map entries) =
          (.map (Mapping.withLines
              (markEntries outline least (keyPositions outline least next entries) next entries).1
              (Outline.firstLine limit (keyPositions outline least next entries) + 1) (stop + 1)),
            max (markEntries outline least (keyPositions outline least next entries) next entries).2
              (stop + 1)) := by
  cases placed : (keyPositions outline least next entries).filterMap id with
  | nil => exact Or.inl (mark_map_of_unplaced placed)
  | cons first rest =>
      obtain ⟨column, least_le, ladder⟩ := keyPositions_ladder wellFormed fence next_le entries
      obtain ⟨last, tail, firstEq, firstColumn, first_le_last, last_lt⟩ := ladder.ends placed
      have head : ((keyPositions outline least next entries).filterMap id).head? =
          some first := by
        rw [placed]
        rfl
      have least_le_first : least ≤ first.column := by
        rw [firstColumn]
        exact least_le
      obtain ⟨last_le_stop, stop_lt⟩ :=
        Outline.lastLine_bounds wellFormed fence last_lt least_le_first
      refine Or.inr ⟨column, outline.lastLine last.line first.column, least_le, ladder, ?_,
        stop_lt, ?_⟩
      · omega
      · rw [firstEq]
        exact mark_map_of_placed head tail

end Value

end ConfigScan.Yaml
