/-
Module: ConfigScan.Proofs.Yaml.MarkingPairs
Purpose: Every mapping of a document carries a start and an end line, or neither.
Main exports: Value.unmarked_of_within_unmarked, Value.markedUpTo_of_within_mark
-/
import ConfigScan.Proofs.Yaml.MarkingOrder

namespace ConfigScan.Yaml.Value

variable {outline : Outline}

mutual

/-- A value without lines holds mappings without lines only. -/
theorem unmarked_of_within_unmarked {entries : Mapping} :
    ∀ value : Value, Node.Within (.map entries) value.unmarked → entries.Unmarked
  | .null, within => by cases within
  | .bool _, within => by cases within
  | .int n, within => by
      rw [unmarked, intNode] at within
      split at within <;> cases within
  | .float _, within => by cases within
  | .str _, within => by cases within
  | .tagged _ value, within => by
      rw [unmarked] at within
      exact unmarked_of_within_unmarked value within
  | .seq items, within => by
      rw [unmarked] at within
      cases within with
      | item member inside => exact unmarked_of_within_unmarkedItems items member inside
  | .map pairs, within => by
      rw [unmarked] at within
      cases within with
      | here => exact unmarked_unmarkedEntries pairs
      | entry member inside => exact unmarked_of_within_unmarkedEntries pairs member inside

theorem unmarked_of_within_unmarkedItems {entries : Mapping} {node : Node} :
    ∀ items : List Value, node ∈ unmarkedItems items →
      Node.Within (.map entries) node → entries.Unmarked
  | [], member, _ => by cases member
  | item :: rest, member, within => by
      rw [unmarkedItems] at member
      rcases List.mem_cons.mp member with same | later
      · subst same
        exact unmarked_of_within_unmarked item within
      · exact unmarked_of_within_unmarkedItems rest later within

theorem unmarked_of_within_unmarkedEntries {entries : Mapping} {name : Key} {node : Node} :
    ∀ pairs : List (Value × Value), (name, node) ∈ unmarkedEntries pairs →
      Node.Within (.map entries) node → entries.Unmarked
  | [], member, _ => by cases member
  | (key, value) :: rest, member, within => by
      cases written : key.key? with
      | none =>
          simp only [unmarkedEntries, written] at member
          exact unmarked_of_within_unmarkedEntries rest member within
      | some other =>
          simp only [unmarkedEntries, written] at member
          rcases List.mem_cons.mp member with same | later
          · cases same
            exact unmarked_of_within_unmarked value within
          · exact unmarked_of_within_unmarkedEntries rest later within

end

mutual

/-- A mapping of a document carries both a start and an end line or none, and these are lines of
    the source. -/
theorem markedUpTo_of_within_mark (wellFormed : outline.WellFormed) {limit : Nat}
    (beyond : ∀ line ∈ outline, line.index < limit) (small : limit < 2 ^ 63) {least next : Nat}
    (next_le : next ≤ limit) (locate : Bool) {marked : Mapping} :
    ∀ value : Value, Node.Within (.map marked) (mark outline least locate next value).1 →
      marked.MarkedUpTo limit
  | .null, within => by cases within
  | .bool _, within => by cases within
  | .int n, within => .unmarked (unmarked_of_within_unmarked (.int n) (by
      rw [unmarked]
      rwa [mark] at within))
  | .float _, within => by cases within
  | .str _, within => by cases within
  | .tagged _ value, within => by
      rw [mark] at within
      exact markedUpTo_of_within_mark wellFormed beyond small next_le locate value within
  | .seq items, within => by
      rw [mark] at within
      cases within with
      | item member inside =>
          exact markedUpTo_of_within_markItems wellFormed beyond small next_le locate items
            member inside
  | .map entries, within => by
      cases locate with
      | false =>
          rw [mark_unlocated] at within
          exact .unmarked (unmarked_of_within_unmarked _ within)
      | true =>
          have fence : outline.Fence least limit := Or.inl beyond
          rcases mark_map_inversion wellFormed fence next_le entries with
            unplaced | ⟨column, stop, _, ladder, first_le_stop, stop_lt, placed⟩
          · rw [unplaced] at within
            exact .unmarked (unmarked_of_within_unmarked _ within)
          · rw [placed] at within
            cases within with
            | here =>
                exact .withLines (unmarked_markEntries outline least _ next entries)
                  (by omega) (by omega)
            | entry member inside =>
                rw [Mapping.withLines] at member
                rcases List.mem_append.mp member with own | appended
                · exact markedUpTo_of_within_markEntries wellFormed beyond small next_le least
                    (fun position found => (ladder.located found).2.1) entries own inside
                · simp only [List.mem_cons, List.not_mem_nil, or_false] at appended
                  rcases appended with same | same <;> cases same <;> cases inside

theorem markedUpTo_of_within_markItems (wellFormed : outline.WellFormed) {limit : Nat}
    (beyond : ∀ line ∈ outline, line.index < limit) (small : limit < 2 ^ 63) {least next : Nat}
    (next_le : next ≤ limit) (locate : Bool) {marked : Mapping} {node : Node} :
    ∀ items : List Value, node ∈ (markItems outline least locate next items).1 →
      Node.Within (.map marked) node → marked.MarkedUpTo limit
  | [], member, _ => by cases member
  | item :: rest, member, within => by
      rw [markItems] at member
      rcases List.mem_cons.mp member with same | later
      · subst same
        exact markedUpTo_of_within_mark wellFormed beyond small next_le locate item within
      · have fence : outline.Fence least limit := Or.inl beyond
        have upper := (mark_between wellFormed fence next_le small locate [] item).2.1
        exact markedUpTo_of_within_markItems wellFormed beyond small upper locate rest later within

theorem markedUpTo_of_within_markEntries (wellFormed : outline.WellFormed) {limit : Nat}
    (beyond : ∀ line ∈ outline, line.index < limit) (small : limit < 2 ^ 63) {next : Nat}
    (next_le : next ≤ limit) (least : Nat) {positions : List (Option KeyPosition)}
    (placed : ∀ position ∈ positions.filterMap id, position.line < limit) {marked : Mapping}
    {name : Key} {node : Node} :
    ∀ entries : List (Value × Value),
      (name, node) ∈ (markEntries outline least positions next entries).1 →
      Node.Within (.map marked) node → marked.MarkedUpTo limit
  | [], member, _ => by cases member
  | (key, value) :: rest, member, within => by
      have tailPlaced : ∀ position ∈ positions.tail.filterMap id, position.line < limit := by
        intro position found
        exact placed position ((List.tail_sublist positions).filterMap id |>.subset found)
      cases head : positions.head?.join with
      | none =>
          have later : (name, node) ∈ (markEntries outline least positions.tail next rest).1 →
              Node.Within (.map marked) node → marked.MarkedUpTo limit :=
            markedUpTo_of_within_markEntries wellFormed beyond small next_le least tailPlaced rest
          rw [markEntries_cons_of_unplaced head] at member
          cases written : key.key? with
          | none =>
              simp only [written] at member
              exact later member within
          | some other =>
              simp only [written] at member
              rcases List.mem_cons.mp member with same | inRest
              · cases same
                exact .unmarked (unmarked_of_within_unmarked value within)
              · exact later inRest within
      | some position =>
          obtain ⟨others, rfl⟩ : ∃ others, positions = some position :: others := by
            cases positions with
            | nil => cases head
            | cons first others =>
                rw [List.head?_cons, Option.join_some] at head
                exact ⟨others, by rw [head]⟩
          have line_lt := placed position List.mem_cons_self
          have fence : outline.Fence (position.column + 1) limit := Or.inl beyond
          have upper :=
            (mark_between wellFormed fence line_lt small (!position.inline) [] value).2.1
          rw [markEntries_cons_of_placed] at member
          cases written : key.key? with
          | none =>
              simp only [written] at member
              exact markedUpTo_of_within_markEntries wellFormed beyond small upper least tailPlaced
                rest member within
          | some other =>
              simp only [written] at member
              rcases List.mem_cons.mp member with same | inRest
              · cases same
                exact markedUpTo_of_within_mark wellFormed beyond small line_lt
                  (!position.inline) value within
              · exact markedUpTo_of_within_markEntries wellFormed beyond small upper least
                  tailPlaced rest inRest within

end

end ConfigScan.Yaml.Value
