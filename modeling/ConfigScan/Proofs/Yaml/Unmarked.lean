/-
Module: ConfigScan.Proofs.Yaml.Unmarked
Purpose: The node of a value without any lines, which is what comes of a value that is not searched
  for in the source.
Main exports: Value.unmarked, Value.mark_unlocated, Value.unmarked_markEntries
-/
import ConfigScan.Proofs.Document.Markers
import ConfigScan.Yaml.Marking

namespace ConfigScan.Yaml.Value

mutual

/-- The node of a value in which no mapping carries lines. Tags are dropped, and so are entries
    whose key is a collection. -/
def unmarked : Value → Node
  | .null => .null
  | .bool value => .bool value
  | .int n => intNode n
  | .float x => .float x
  | .str text => .str text
  | .tagged _ value => value.unmarked
  | .seq items => .seq (unmarkedItems items)
  | .map entries => .map (unmarkedEntries entries)

/-- The nodes of items without lines. -/
def unmarkedItems : List Value → List Node
  | [] => []
  | item :: rest => item.unmarked :: unmarkedItems rest

/-- The entries of a mapping without lines. -/
def unmarkedEntries : List (Value × Value) → Mapping
  | [] => []
  | (key, value) :: rest =>
      match key.key? with
      | some key => (key, value.unmarked) :: unmarkedEntries rest
      | none => unmarkedEntries rest

end

/-- No value is a line marker as a key. -/
theorem isMarker_key? : ∀ {value : Value} {key : Key},
    value.key? = some key → key.isMarker = false
  | .null, _, found => by
      cases found
      rfl
  | .bool _, _, found => by
      cases found
      rfl
  | .int n, _, found => by
      simp only [key?, Option.some.injEq] at found
      subst found
      split <;> rfl
  | .float _, _, found => by
      cases found
      rfl
  | .str text, _, found => by
      simp only [key?, Option.some.injEq] at found
      subst found
      cases truthWord? text <;> rfl
  | .tagged _ value, key, found => by
      have inner : value.key? = some key := found
      exact isMarker_key? inner
  | .seq _, _, found => by cases found
  | .map _, _, found => by cases found

/-- The entries of a mapping without lines have no marker among them. -/
theorem unmarked_unmarkedEntries :
    ∀ entries : List (Value × Value), Mapping.Unmarked (unmarkedEntries entries)
  | [] => by
      intro entry member
      cases member
  | (key, value) :: rest => by
      intro entry member
      have inRest := unmarked_unmarkedEntries rest entry
      cases name : key.key? with
      | none =>
          simp only [unmarkedEntries, name] at member
          exact inRest member
      | some written =>
          simp only [unmarkedEntries, name] at member
          rcases List.mem_cons.mp member with same | later
          · rw [same]
            exact isMarker_key? name
          · exact inRest later

mutual

/-- A value that is not searched for gets no lines and uses none. -/
theorem mark_unlocated (outline : Outline) (least next : Nat) :
    ∀ value : Value, mark outline least false next value = (value.unmarked, next)
  | .null => rfl
  | .bool _ => rfl
  | .int _ => rfl
  | .float _ => rfl
  | .str _ => rfl
  | .tagged _ value => by
      rw [mark, unmarked]
      exact mark_unlocated outline least next value
  | .seq items => by
      rw [mark, markItems_unlocated outline least next items]
      rfl
  | .map entries => by
      rw [mark, if_neg Bool.false_ne_true,
        markEntries_unplaced outline least next entries [] (by simp)]
      rfl

/-- Items that are not searched for get no lines and use none. -/
theorem markItems_unlocated (outline : Outline) (least next : Nat) :
    ∀ items : List Value,
      markItems outline least false next items = (unmarkedItems items, next)
  | [] => rfl
  | item :: rest => by
      rw [markItems, mark_unlocated outline least next item]
      simp only [markItems_unlocated outline least next rest]
      rfl

/-- Entries none of whose keys has a place get no lines and use none. -/
theorem markEntries_unplaced (outline : Outline) (least next : Nat) :
    ∀ (entries : List (Value × Value)) (positions : List (Option KeyPosition)),
      (∀ position ∈ positions, position = none) →
      markEntries outline least positions next entries = (unmarkedEntries entries, next)
  | [], _, _ => rfl
  | (key, value) :: rest, positions, unplaced => by
      have head : positions.head?.join = none := by
        cases positions with
        | nil => rfl
        | cons position _ =>
            rw [unplaced position List.mem_cons_self]
            rfl
      have tail : ∀ position ∈ positions.tail, position = none := fun position member =>
        unplaced position (List.mem_of_mem_tail member)
      rw [markEntries, head]
      simp only [mark_unlocated outline least next value,
        markEntries_unplaced outline least next rest positions.tail tail]
      cases name : key.key? <;> simp [unmarkedEntries, name]

end

/-- The entries of a mapping have no marker among them before its lines are appended. -/
theorem unmarked_markEntries (outline : Outline) (least : Nat) :
    ∀ (positions : List (Option KeyPosition)) (next : Nat) (entries : List (Value × Value)),
      Mapping.Unmarked (markEntries outline least positions next entries).1
  | _, _, [] => by
      intro entry member
      cases member
  | positions, next, (key, value) :: rest => by
      intro entry member
      rw [markEntries] at member
      cases name : key.key? with
      | none =>
          simp only [name] at member
          exact unmarked_markEntries outline least _ _ rest entry member
      | some written =>
          simp only [name] at member
          rcases List.mem_cons.mp member with same | later
          · rw [same]
            exact isMarker_key? name
          · exact unmarked_markEntries outline least _ _ rest entry later

end ConfigScan.Yaml.Value
