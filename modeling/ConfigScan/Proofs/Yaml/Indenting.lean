/-
Module: ConfigScan.Proofs.Yaml.Indenting
Purpose: The search compares columns with each other and with a least one, and it uses none of them
  in itself. Where all lines of an outline are indented by as much, the same mappings get the same
  lines.
Main exports: OutlineLine.indentBy, Outline.indentBy, AsDeep, Outline.findKeys_indentBy,
  Outline.lastLine_indentBy, Value.mark_indentBy
-/
import ConfigScan.Proofs.Yaml.KeyPositions

namespace ConfigScan.Yaml

/-- The line of a key when it is indented by `width` more. -/
def KeyLine.indentBy (width : Nat) (key : KeyLine) : KeyLine :=
  { key with column := key.column + width }

/-- The line when it is indented by `width` more. -/
def OutlineLine.indentBy (width : Nat) (line : OutlineLine) : OutlineLine :=
  { line with
    indent := line.indent + width
    column := line.column + width
    key := line.key.map (KeyLine.indentBy width) }

/-- The place of a key when its line is indented by `width` more. -/
def KeyPosition.indentBy (width : Nat) (position : KeyPosition) : KeyPosition :=
  { position with column := position.column + width }

/-- Among lines that are indented by `width` more, a search from the column `least'` on goes as deep
    as one from `least` on did before. -/
def AsDeep (width least least' : Nat) : Prop :=
  ∀ column, column + width < least' ↔ column < least

/-- A least column that is moved with the lines. -/
theorem AsDeep.add (width least : Nat) : AsDeep width least (least + width) := by
  intro column
  exact Nat.add_lt_add_iff_right

/-- No line starts in front of the first column, and none in front of one that all lines have left
    behind. -/
theorem AsDeep.of_le {width least : Nat} (le : least ≤ width) : AsDeep width 0 least := by
  intro column
  omega

namespace Outline

/-- The lines when each is indented by `width` more. -/
abbrev indentBy (width : Nat) (outline : Outline) : Outline :=
  outline.map (OutlineLine.indentBy width)

variable (width : Nat)

theorem startingAt_indentBy (outline : Outline) (next : Nat) :
    (indentBy width outline).startingAt next = indentBy width (outline.startingAt next) := by
  rw [startingAt, indentBy, List.dropWhile_map]
  rfl

theorem outside_indentBy {least least' : Nat} (asDeep : AsDeep width least least')
    (column : Option Nat) (line : OutlineLine) :
    outside least' (column.map (· + width)) (line.indentBy width) = outside least column line := by
  cases column with
  | none => exact decide_eq_decide.mpr (asDeep line.column)
  | some c => exact decide_eq_decide.mpr Nat.add_lt_add_iff_right

theorem matchesKey_indentBy (column : Option Nat) (line : OutlineLine) :
    matchesKey (column.map (· + width)) (line.indentBy width) = matchesKey column line := by
  cases written : line.key with
  | none => simp only [matchesKey, OutlineLine.indentBy, written, Option.map_none, Option.any_none]
  | some key =>
      cases column with
      | none => simp [matchesKey, OutlineLine.indentBy, written]
      | some c => simp [matchesKey, OutlineLine.indentBy, written, KeyLine.indentBy]

/-- The search stops at the same line or takes the same one. -/
theorem findKey_indentBy {least least' : Nat} (asDeep : AsDeep width least least')
    (column : Option Nat) (outline : Outline) :
    findKey least' (column.map (· + width)) (indentBy width outline) =
      (findKey least column outline).map fun found =>
        (found.1.indentBy width, indentBy width found.2) := by
  induction outline with
  | nil => rfl
  | cons line rest inductionHypothesis =>
      have sameEnd := outside_indentBy width asDeep column line
      have sameKey := matchesKey_indentBy width column line
      rw [indentBy, List.map_cons]
      cases ended : outside least column line with
      | true =>
          rw [findKey_cons_of_outside ended, findKey_cons_of_outside (sameEnd.trans ended)]
          rfl
      | false =>
          cases taken : matchesKey column line with
          | true =>
              rw [taken] at sameKey
              simp only [matchesKey, Option.any_eq_true] at taken sameKey
              obtain ⟨key, written, same⟩ := taken
              obtain ⟨moved, writtenToo, sameToo⟩ := sameKey
              rw [findKey_cons_of_matchesKey ended written same,
                findKey_cons_of_matchesKey (sameEnd.trans ended) writtenToo sameToo]
              simp only [OutlineLine.indentBy, written, Option.map_some,
                Option.some.injEq] at writtenToo
              subst writtenToo
              rfl
          | false =>
              have passed : passes least column line = true := by simp [passes, ended, taken]
              have passedToo : passes least' (column.map (· + width)) (line.indentBy width) =
                  true := by
                simp [passes, sameEnd.trans ended, sameKey.trans taken]
              rw [findKey_cons_of_passes passed, findKey_cons_of_passes passedToo]
              exact inductionHypothesis

/-- The keys of a mapping are found on the same lines. -/
theorem findKeys_indentBy {least least' : Nat} (asDeep : AsDeep width least least')
    (flags : List Bool) (column : Option Nat) (outline : Outline) :
    findKeys least' (column.map (· + width)) flags (indentBy width outline) =
      (findKeys least column flags outline).map (Option.map (KeyPosition.indentBy width)) := by
  induction flags generalizing column outline with
  | nil => rfl
  | cons flag others inductionHypothesis =>
      cases flag with
      | false =>
          rw [findKeys, findKeys, inductionHypothesis]
          rfl
      | true =>
          rw [findKeys, findKeys, findKey_indentBy width asDeep]
          cases found : findKey least column outline with
          | none => simp
          | some hit =>
              obtain ⟨position, later⟩ := hit
              have behind := inductionHypothesis (some position.column) later
              rw [Option.map_some] at behind
              simp only [Option.map_some, KeyPosition.indentBy, List.map_cons, behind]

theorem endsMapping_indentBy (column : Nat) (line : OutlineLine) :
    endsMapping (column + width) (line.indentBy width) = endsMapping column line := by
  have sameColumn : (line.indent + width == column + width) = (line.indent == column) := by
    rw [Bool.eq_iff_iff]
    simp
  simp [endsMapping, OutlineLine.indentBy, sameColumn]

/-- A mapping whose column is moved with the lines ends on the same line. -/
theorem lastLine_indentBy (outline : Outline) (lastKey column : Nat) :
    (indentBy width outline).lastLine lastKey (column + width) =
      outline.lastLine lastKey column := by
  have own : ((indentBy width outline).startingAt (lastKey + 1)).takeWhile
      (fun line => !endsMapping (column + width) line) =
        indentBy width ((outline.startingAt (lastKey + 1)).takeWhile fun line =>
          !endsMapping column line) := by
    rw [startingAt_indentBy, indentBy, List.takeWhile_map]
    simp only [Function.comp_def, endsMapping_indentBy]
  simp only [lastLine, own, List.getLast?_map]
  cases ((outline.startingAt (lastKey + 1)).takeWhile fun line =>
    !endsMapping column line).getLast? <;> rfl

end Outline

namespace Value

variable {outline : Outline} {width : Nat}

theorem keyPositions_indentBy {least least' : Nat} (asDeep : AsDeep width least least')
    (next : Nat) (entries : List (Value × Value)) :
    keyPositions (Outline.indentBy width outline) least' next entries =
      (keyPositions outline least next entries).map (Option.map (KeyPosition.indentBy width)) := by
  rw [keyPositions, Outline.startingAt_indentBy]
  exact Outline.findKeys_indentBy width asDeep _ none _

mutual

/-- A value gets the same lines, and uses the same, when all lines of the source are indented by as
    much. -/
theorem mark_indentBy {least least' : Nat} (asDeep : AsDeep width least least') (next : Nat)
    (locate : Bool) : ∀ value : Value,
      mark (Outline.indentBy width outline) least' locate next value =
        mark outline least locate next value
  | .null => rfl
  | .bool _ => rfl
  | .int _ => rfl
  | .float _ => rfl
  | .str _ => rfl
  | .tagged _ value => by
      rw [mark, mark]
      exact mark_indentBy asDeep next locate value
  | .seq items => by
      rw [mark, mark, markItems_indentBy asDeep next locate items]
  | .map entries => by
      cases locate with
      | false => rw [mark_unlocated, mark_unlocated]
      | true =>
          have positions : keyPositions (Outline.indentBy width outline) least' next entries = _ :=
            keyPositions_indentBy asDeep next entries
          have located : (keyPositions (Outline.indentBy width outline) least' next
              entries).filterMap id = ((keyPositions outline least next entries).filterMap id).map
                (KeyPosition.indentBy width) := by
            rw [positions, List.filterMap_map, List.map_filterMap]
            rfl
          have same := markEntries_indentBy least least'
            (keyPositions outline least next entries) next entries
          rw [← positions] at same
          cases placed : (keyPositions outline least next entries).filterMap id with
          | nil =>
              rw [placed] at located
              rw [mark_map_of_unplaced placed, mark_map_of_unplaced located]
          | cons first rest =>
              obtain ⟨last, tail⟩ : ∃ last, (first :: rest).getLast? = some last :=
                ⟨_, List.getLast?_cons⟩
              have head : ((keyPositions outline least next entries).filterMap id).head? =
                  some first := congrArg List.head? placed
              have head' : ((keyPositions (Outline.indentBy width outline) least' next
                  entries).filterMap id).head? = some (first.indentBy width) := by
                rw [located, placed]
                rfl
              have tail' : ((keyPositions (Outline.indentBy width outline) least' next
                  entries).filterMap id).getLast? = some (last.indentBy width) := by
                rw [located, placed, List.getLast?_map, tail]
                rfl
              rw [← placed] at tail
              rw [mark_map_of_placed head tail, mark_map_of_placed head' tail', same]
              simp only [KeyPosition.indentBy, Outline.lastLine_indentBy]

/-- Items get the same lines. -/
theorem markItems_indentBy {least least' : Nat} (asDeep : AsDeep width least least') (next : Nat)
    (locate : Bool) : ∀ items : List Value,
      markItems (Outline.indentBy width outline) least' locate next items =
        markItems outline least locate next items
  | [] => rfl
  | item :: others => by
      rw [markItems, markItems, mark_indentBy asDeep next locate item]
      simp only [markItems_indentBy asDeep _ locate others]

/-- The values of entries get the same lines. They are searched deeper than their keys, which are
    indented like all lines, so the least column does not matter. -/
theorem markEntries_indentBy (least least' : Nat) (positions : List (Option KeyPosition))
    (next : Nat) : ∀ entries : List (Value × Value),
      markEntries (Outline.indentBy width outline) least'
          (positions.map (Option.map (KeyPosition.indentBy width))) next entries =
        markEntries outline least positions next entries
  | [] => rfl
  | (key, value) :: others => by
      cases positions with
      | nil =>
          have rest := markEntries_indentBy least least' [] next others
          rw [List.map_nil] at rest ⊢
          rw [markEntries_cons_of_unplaced rfl, markEntries_cons_of_unplaced rfl, List.tail_nil,
            rest]
      | cons position later =>
          cases position with
          | none =>
              rw [List.map_cons, Option.map_none, markEntries_cons_of_unplaced rfl,
                markEntries_cons_of_unplaced rfl, List.tail_cons, List.tail_cons,
                markEntries_indentBy least least' later next others]
          | some position =>
              -- one column behind the key, in both outlines
              have deeper : AsDeep width (position.column + 1) (position.column + width + 1) := by
                rw [Nat.add_right_comm]
                exact .add width (position.column + 1)
              have same := mark_indentBy deeper (position.line + 1) (!position.inline) value
              rw [List.map_cons, Option.map_some, markEntries_cons_of_placed,
                markEntries_cons_of_placed]
              simp only [KeyPosition.indentBy, same,
                markEntries_indentBy least least' later _ others]

end

end Value

end ConfigScan.Yaml
