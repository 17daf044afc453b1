/-
Module: ConfigScan.Proofs.Yaml.Seeking
Purpose: When a value that is searched for in the source gets lines at all: it must hold a mapping
  with a key, and the search must meet a key line.
Main exports: Value.seeksKey, Value.mark_of_not_found, Value.mark_ne_unmarked
-/
import ConfigScan.Proofs.Yaml.KeyPositions

namespace ConfigScan.Yaml

namespace Outline

theorem findKeys_of_not_found {least : Nat} {column : Option Nat} {lines : Outline}
    (notFound : findKey least column lines = none) (flags : List Bool) :
    (findKeys least column flags lines).filterMap id = [] := by
  induction flags with
  | nil => rfl
  | cons flag rest inductionHypothesis =>
      cases flag with
      | false => exact inductionHypothesis
      | true =>
          rw [findKeys, notFound]
          simp

theorem findKeys_of_no_line (least : Nat) (column : Option Nat) (lines : Outline)
    {flags : List Bool} (noLine : flags.any id = false) :
    (findKeys least column flags lines).filterMap id = [] := by
  induction flags with
  | nil => rfl
  | cons flag rest inductionHypothesis =>
      cases flag with
      | false => exact inductionHypothesis noLine
      | true => cases noLine

theorem findKeys_of_found {least : Nat} {column : Option Nat} {lines : Outline}
    {position : KeyPosition} {later : Outline}
    (found : findKey least column lines = some (position, later)) {flags : List Bool}
    (hasLine : flags.any id = true) :
    ((findKeys least column flags lines).filterMap id).head? = some position := by
  induction flags with
  | nil => cases hasLine
  | cons flag rest inductionHypothesis =>
      cases flag with
      | false => exact inductionHypothesis hasLine
      | true =>
          rw [findKeys, found]
          rfl

/-- Lines that the search passes make no difference to the search for all keys. -/
theorem findKeys_append_of_passes {least : Nat} {column : Option Nat} {front : Outline}
    (passed : ∀ line ∈ front, passes least column line = true) (back : Outline)
    (flags : List Bool) :
    findKeys least column flags (front ++ back) =
      findKeys least column flags back := by
  induction flags with
  | nil => rfl
  | cons flag rest inductionHypothesis =>
      cases flag with
      | false => rw [findKeys, inductionHypothesis, findKeys]
      | true => rw [findKeys, findKey_append_of_passes passed, findKeys]

theorem findKeys_cons_of_passes {least : Nat} {column : Option Nat} {line : OutlineLine}
    (passed : passes least column line = true) (rest : Outline) (flags : List Bool) :
    findKeys least column flags (line :: rest) = findKeys least column flags rest := by
  have single : ∀ other ∈ [line], passes least column other = true := by simpa using passed
  exact findKeys_append_of_passes single rest flags

end Outline

namespace Value

mutual

/-- To search for the value is to search for a key: it is a mapping with a key, or a sequence that
    holds one outside of other mappings. -/
def seeksKey : Value → Bool
  | .tagged _ value => value.seeksKey
  | .seq items => seeksKeyItems items
  | .map entries => entries.any fun e => e.1.key?.isSome
  | .null | .bool _ | .int _ | .float _ | .str _ => false

/-- To search for the items is to search for a key. -/
def seeksKeyItems : List Value → Bool
  | [] => false
  | item :: rest => item.seeksKey || seeksKeyItems rest

end

/-- No key is searched for a scalar. -/
theorem seeksKey_of_key? : ∀ {value : Value}, value.key?.isSome = true → value.seeksKey = false
  | .null, _ => rfl
  | .bool _, _ => rfl
  | .int _, _ => rfl
  | .float _, _ => rfl
  | .str _, _ => rfl
  | .tagged _ value, scalar => by
      have inner : value.key?.isSome = true := scalar
      rw [seeksKey]
      exact seeksKey_of_key? inner
  | .seq _, scalar => by cases scalar
  | .map _, scalar => by cases scalar

variable {outline : Outline} {least next : Nat}

mutual

/-- A value for which no key is searched, or none is found, gets no lines and uses none. -/
theorem mark_of_not_found : ∀ value : Value,
    (value.seeksKey = true → (outline.startingAt next).findKey least none = none) →
      mark outline least true next value = (value.unmarked, next)
  | .null, _ => rfl
  | .bool _, _ => rfl
  | .int _, _ => rfl
  | .float _, _ => rfl
  | .str _, _ => rfl
  | .tagged _ value, notFound => by
      rw [mark, unmarked]
      exact mark_of_not_found value notFound
  | .seq items, notFound => by
      rw [mark, markItems_of_not_found items notFound]
      rfl
  | .map entries, notFound => by
      apply mark_map_of_unplaced
      cases sought : (Value.map entries).seeksKey with
      | true => exact Outline.findKeys_of_not_found (notFound sought) _
      | false =>
          apply Outline.findKeys_of_no_line
          rw [List.any_map]
          exact sought

/-- Items for which no key is searched, or none is found, get no lines and use none. -/
theorem markItems_of_not_found : ∀ items : List Value,
    (seeksKeyItems items = true → (outline.startingAt next).findKey least none = none) →
      markItems outline least true next items = (unmarkedItems items, next)
  | [], _ => rfl
  | item :: rest, notFound => by
      have inItem := mark_of_not_found item fun sought =>
        notFound (by rw [seeksKeyItems, sought, Bool.true_or])
      have inRest := markItems_of_not_found rest fun sought =>
        notFound (by rw [seeksKeyItems, sought, Bool.or_true])
      rw [markItems, inItem]
      simp only [inRest]
      rfl

end

mutual

/-- A value for which a key is searched and found gets lines. -/
theorem mark_ne_unmarked (found : ((outline.startingAt next).findKey least none).isSome = true) :
    ∀ value : Value, value.seeksKey = true →
      (mark outline least true next value).1 ≠ value.unmarked
  | .tagged _ value, sought => by
      rw [mark, unmarked]
      exact mark_ne_unmarked found value sought
  | .seq items, sought => by
      rw [mark, unmarked]
      intro same
      exact markItems_ne_unmarked found items sought (Node.seq.inj same)
  | .map entries, sought => by
      obtain ⟨⟨first, later⟩, isFirst⟩ := Option.isSome_iff_exists.mp found
      have hasKey : (entries.map fun e => e.1.key?.isSome).any id = true := by
        rw [List.any_map]
        exact sought
      have head : ((keyPositions outline least next entries).filterMap id).head? = some first :=
        Outline.findKeys_of_found isFirst hasKey
      cases tail : ((keyPositions outline least next entries).filterMap id).getLast? with
      | none =>
          rw [List.getLast?_eq_none_iff] at tail
          rw [tail] at head
          cases head
      | some last =>
          rw [mark_map_of_placed head tail, unmarked]
          intro same
          have noMarker := unmarked_unmarkedEntries entries
          rw [← Node.map.inj same] at noMarker
          have isMarker := noMarker (.startLine, Mapping.lineValue (first.line + 1))
            (by simp [Mapping.withLines])
          cases isMarker

/-- Items for which a key is searched and found get lines. -/
theorem markItems_ne_unmarked
    (found : ((outline.startingAt next).findKey least none).isSome = true) :
    ∀ items : List Value, seeksKeyItems items = true →
      (markItems outline least true next items).1 ≠ unmarkedItems items
  | item :: rest, sought => by
      rw [markItems, unmarkedItems]
      intro same
      obtain ⟨sameItem, sameRest⟩ := List.cons.inj same
      cases inItem : item.seeksKey with
      | true => exact mark_ne_unmarked found item inItem sameItem
      | false =>
          have skipped : mark outline least true next item = (item.unmarked, next) :=
            mark_of_not_found item (by simp [inItem])
          rw [skipped] at sameRest
          have inRest : seeksKeyItems rest = true := by
            rw [seeksKeyItems, inItem, Bool.false_or] at sought
            exact sought
          exact markItems_ne_unmarked found rest inRest sameRest

end

end Value

end ConfigScan.Yaml
