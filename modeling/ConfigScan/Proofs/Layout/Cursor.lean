/-
Module: ConfigScan.Proofs.Layout.Cursor
Purpose: Where the search stands between the parts of a layout, and what it makes of a block mapping
  that it has reached.
Main exports: Layout.WrittenAt, Layout.Stands, Layout.Stands.isSome_findKey, Layout.Passed,
  Layout.Entries.mark_eq
-/
import ConfigScan.Proofs.Layout.Search

namespace ConfigScan.Yaml.Layout

variable {source : List (List Char)} {least next start : Nat} {waiting : Bool}

/-! ### Parts in the source -/

/-- What is left of the source behind its next lines. -/
theorem drop_of_drop_eq_append {front back : List (List Char)}
    (written : source.drop start = front ++ back) :
    source.drop (start + front.length) = back := by
  rw [← List.drop_drop, written, List.drop_left]

/-- From the line `start` on, the source has a part at a column, with the lines `below` under its
    first one, and then `rest`. Spaces and dashes may stand in front of it. -/
def WrittenAt (source : List (List Char)) (start column : Nat) (head : List Char)
    (below rest : List (List Char)) : Prop :=
  ∃ lead, IsLead lead ∧ lead.length = column ∧
    source.drop start = (lead ++ head) :: (below ++ rest)

namespace WrittenAt

variable {column : Nat} {head : List Char} {below rest : List (List Char)}

theorem drop_succ (written : WrittenAt source start column head below rest) :
    source.drop (start + 1) = below ++ rest := by
  obtain ⟨lead, _, _, equality⟩ := written
  rw [← List.drop_drop, equality]
  rfl

theorem behind_gap (gap : Gap)
    (written : source.drop start = gap.lines ++ (spaces column ++ head) :: (below ++ rest)) :
    WrittenAt source (start + gap.lines.length) column head below rest :=
  ⟨spaces column, .spaces column, List.length_replicate, drop_of_drop_eq_append written⟩

/-- The first of some parts is written where they begin. -/
theorem first {own others : List (List Char)}
    (written : WrittenAt source start column head (own ++ others) rest) :
    WrittenAt source start column head own (others ++ rest) := by
  obtain ⟨lead, isLead, length, equality⟩ := written
  refine ⟨lead, isLead, length, ?_⟩
  rw [equality, List.append_assoc]

/-- What stands beside a dash is a part of its own, at its own column. -/
theorem behind_dash {space : Nat}
    (written : WrittenAt source start column ('-' :: (spaces (space + 1) ++ head)) below rest) :
    WrittenAt source start (column + space + 2) head below rest := by
  obtain ⟨lead, isLead, length, equality⟩ := written
  refine ⟨lead ++ '-' :: spaces (space + 1), isLead.dash space, ?_, ?_⟩
  · simp only [List.length_append, List.length_cons, List.length_replicate]
    omega
  · rw [equality, List.append_assoc, List.cons_append]

end WrittenAt

/-! ### Where the search stands -/

/-- The search stands on the line `next`, and the next part of the layout begins on the line
    `start`. The lines between have been left by leaves; none is in front of the column `least`, and
    `waiting` tells whether one of them reads as one with a key. -/
def Stands (source : List (List Char)) (least next start : Nat) (waiting : Bool) : Prop :=
  ∃ left, source.drop next = left ++ source.drop start ∧ next + left.length = start ∧
    Deep least left ∧ writesKey left = waiting

namespace Stands

theorem le (stands : Stands source least next start waiting) : next ≤ start := by
  obtain ⟨left, _, length, _⟩ := stands
  exact Nat.le.intro length

/-- A search that begins right in front of a part has nothing left to pass. -/
theorem here (source : List (List Char)) (least start : Nat) :
    Stands source least start start false := by
  refine ⟨[], rfl, rfl, ?_, rfl⟩
  intro line member
  cases member

/-- The search stays where it is while the lines in front of it become more. -/
theorem pass (stands : Stands source least next start waiting) {front back : List (List Char)}
    (written : source.drop start = front ++ back) (deep : Deep least front) :
    Stands source least next (start + front.length) (waiting || writesKey front) := by
  obtain ⟨left, split, length, leftDeep, leftWaits⟩ := stands
  refine ⟨left ++ front, ?_, ?_, leftDeep.append deep, ?_⟩
  · rw [split, written, drop_of_drop_eq_append written, List.append_assoc]
  · rw [List.length_append]
    omega
  · rw [writesKey_append, leftWaits]

theorem pass_gap (stands : Stands source least next start waiting) (gap : Gap)
    {back : List (List Char)} (written : source.drop start = gap.lines ++ back) :
    Stands source least next (start + gap.lines.length) waiting := by
  have passed := stands.pass written (.of_blank gap.blank)
  rwa [writesKey_of_blank gap.blank, Bool.or_false] at passed

/-- Behind a mapping the search stands on the line after the last one with content. -/
theorem behind_mapping {own rest : List (List Char)}
    (written : source.drop start = own ++ rest) :
    Stands source least (start + contentEnd own) (start + own.length) false := by
  have blank := blank_drop_contentEnd own
  have split : source.drop (start + contentEnd own) = own.drop (contentEnd own) ++ rest := by
    rw [← List.drop_drop, written, List.drop_append_of_le_length (contentEnd_le_length own)]
  have passed := (here source least (start + contentEnd own)).pass split (.of_blank blank)
  have stop : start + contentEnd own + (own.drop (contentEnd own)).length =
      start + own.length := by
    have le := contentEnd_le_length own
    rw [List.length_drop]
    omega
  rwa [stop, writesKey_of_blank blank] at passed

/-- A key is found for a leaf when a line that reads as one with a key waits in front of it, is one
    of its own lines, or comes behind them. -/
theorem isSome_findKey (stands : Stands source least next start waiting)
    {own rest : List (List Char)} (written : source.drop start = own ++ rest)
    (deep : Deep least own) :
    (((Outline.ofLines source).startingAt next).findKey least none).isSome =
      (waiting || (writesKey own || keyAhead least rest)) := by
  obtain ⟨left, split, length, leftDeep, leftWaits⟩ := stands
  rw [Outline.startingAt_ofLines, split, written, Layout.isSome_findKey,
    keyAhead_append leftDeep, keyAhead_append deep, leftWaits]

end Stands

/-- The search has gone through a part that begins on the line `start` and has the lines `below`
    under that. It stands on the line `after`, not behind the last line with content. -/
structure Passed (source : List (List Char)) (least start : Nat) (below : List (List Char))
    (after : Nat) (waiting : Bool) : Prop where
  within : after ≤ start + 1 + contentEnd below
  stands : Stands source least after (start + 1 + below.length) waiting

/-- What lies within the end of a part lies within the whole. -/
theorem within_extend {line : List Char} (content : isContent line = true)
    {front back : List (List Char)} {after : Nat}
    (within : after ≤ start + 1 + front.length + 1 + contentEnd back) :
    after ≤ start + 1 + contentEnd (front ++ line :: back) := by
  rw [contentEnd_append_cons content]
  omega

theorem Passed.extend {line : List Char} (content : isContent line = true)
    {front back : List (List Char)} {after : Nat}
    (passed : Passed source least (start + 1 + front.length) back after waiting) :
    Passed source least start (front ++ line :: back) after waiting where
  within := within_extend content passed.within
  stands := by
    have stands := passed.stands
    have length : start + 1 + (front ++ line :: back).length =
        start + 1 + front.length + 1 + back.length := by
      simp only [List.length_append, List.length_cons]
      omega
    rwa [length]

/-! ### Reaching a mapping -/

variable {c : Nat}

theorem Entries.keyPositions_eq (entries : Entries c) (least_le : least ≤ c)
    {rest : List (List Char)}
    (written : WrittenAt source start c entries.head entries.tailLines rest)
    (stands : Stands source least next start false) :
    Value.keyPositions (Outline.ofLines source) least next entries.value =
      (entries.places start).map some := by
  obtain ⟨lead, isLead, length, equality⟩ := written
  obtain ⟨left, split, leftLength, leftDeep, leftWaits⟩ := stands
  have reached : Outline.outside least none (OutlineLine.ofLine start (lead ++ entries.head)) =
      false := by
    cases entries with
    | one entry => exact entry.reached_lead isLead length least_le start
    | cons entry gap others => exact entry.reached_lead isLead length least_le start
  rw [Value.keyPositions, Outline.startingAt_ofLines, split, equality, Outline.ofLinesFrom_append,
    Outline.findKeys_append_of_passes (passes_of_writesKey leftDeep leftWaits), leftLength]
  exact entries.findKeys_eq isLead length reached rfl rest

theorem Entries.head?_places (entries : Entries c) (start : Nat) :
    ∃ first, (entries.places start).head? = some first ∧ first.line = start ∧
      first.column = c := by
  cases entries with
  | one entry => exact ⟨_, rfl, rfl, rfl⟩
  | cons entry gap rest => exact ⟨_, rfl, rfl, rfl⟩

/-- The lines of a mapping go up to the last one with content. -/
theorem Entries.lastLine_eq : ∀ {c : Nat} (entries : Entries c) {start : Nat}
    {rest : List (List Char)}, source.drop (start + 1) = entries.tailLines ++ rest →
    Ends c rest →
    ∃ last, (entries.places start).getLast? = some last ∧
      (Outline.ofLines source).lastLine last.line c = start + contentEnd entries.tailLines
  | c, .one entry, start, rest, written, ends => by
      refine ⟨_, rfl, ?_⟩
      rw [Entries.tailLines] at written ⊢
      exact Layout.lastLine_eq written (entry.allInside_tailLines (Nat.le_refl c)) ends
  | c, .cons entry gap others, start, rest, written, ends => by
      rw [Entries.tailLines] at written ⊢
      have regroup : entry.tailLines ++ (gap.lines ++ (spaces c ++ others.head) ::
          others.tailLines) ++ rest = (entry.tailLines ++ gap.lines ++
            [spaces c ++ others.head]) ++ (others.tailLines ++ rest) := by
        simp
      rw [regroup] at written
      have later := drop_of_drop_eq_append written
      have shift : start + 1 + (entry.tailLines ++ gap.lines ++
          [spaces c ++ others.head]).length =
            start + 1 + entry.tailLines.length + gap.lines.length + 1 := by
        simp only [List.length_append, List.length_singleton]
        omega
      rw [shift] at later
      obtain ⟨last, isLast, stop⟩ := others.lastLine_eq later ends
      refine ⟨last, ?_, ?_⟩
      · rw [Entries.places, List.getLast?_cons, isLast]
        rfl
      · rw [stop, ← List.append_assoc, contentEnd_append_cons (others.isContent_head c),
          List.length_append]
        omega

/-- A block mapping that the search has reached gets the line of its first key and its last line
    with content, and the search goes on behind that. -/
theorem Entries.mark_eq (entries : Entries c) (least_le : least ≤ c) {rest : List (List Char)}
    (written : WrittenAt source start c entries.head entries.tailLines rest)
    (ends : Ends c rest) (stands : Stands source least next start false) :
    Value.mark (Outline.ofLines source) least true next (.map entries.value) =
      (mappingNode
        (Value.markEntries (Outline.ofLines source) least ((entries.places start).map some) next
          entries.value).1 start entries.tailLines,
        max (Value.markEntries (Outline.ofLines source) least ((entries.places start).map some)
          next entries.value).2 (start + 1 + contentEnd entries.tailLines)) := by
  have positions := entries.keyPositions_eq least_le written stands
  have located : (Value.keyPositions (Outline.ofLines source) least next
      entries.value).filterMap id = entries.places start := by
    rw [positions, List.filterMap_map]
    exact List.filterMap_some
  obtain ⟨first, head, firstLine, firstColumn⟩ := entries.head?_places start
  obtain ⟨last, tail, stop⟩ := entries.lastLine_eq written.drop_succ ends
  rw [← located] at head tail
  rw [Value.mark_map_of_placed head tail, positions, firstLine, firstColumn, stop, mappingNode,
    Nat.add_right_comm start]

end ConfigScan.Yaml.Layout
