/-
Module: ConfigScan.Proofs.Yaml.Shape
Purpose: Which mappings of a document carry lines, and which lines, is a matter of the shape of its
  value and of the source. The keys and the scalars in it, and its tags, have no say.
Main exports: Value.isScalar, Value.SameShape, Value.mark_of_sameShape,
  Value.node_alike_of_sameShape
-/
import ConfigScan.Proofs.Document.Alike
import ConfigScan.Proofs.Yaml.KeyPositions

namespace ConfigScan.Yaml.Value

/-- A value that is no collection, once its tags are removed. -/
def isScalar : Value → Bool
  | .tagged _ value => value.isScalar
  | .seq _ | .map _ => false
  | _ => true

mutual

/-- Two values have the same shape: but for their tags both are scalars, or sequences of equal
    length, or mappings of equal size, and the same holds below. -/
inductive SameShape : Value → Value → Prop where
  | scalar {value other : Value} (isScalar : value.isScalar = true)
      (otherScalar : other.isScalar = true) : SameShape value other
  | tagged (tag : String) {value other : Value} (same : SameShape value other) :
      SameShape (.tagged tag value) other
  | otherTagged (tag : String) {value other : Value} (same : SameShape value other) :
      SameShape value (.tagged tag other)
  | seq {items others : List Value} (same : SameShapes items others) :
      SameShape (.seq items) (.seq others)
  | map {entries others : List (Value × Value)} (same : SameEntryShapes entries others) :
      SameShape (.map entries) (.map others)

/-- Items that have the same shapes one by one. -/
inductive SameShapes : List Value → List Value → Prop where
  | nil : SameShapes [] []
  | cons {item other : Value} {items others : List Value} (same : SameShape item other)
      (rest : SameShapes items others) : SameShapes (item :: items) (other :: others)

/-- Entries that have the same shapes one by one: both keys are scalars or neither is. -/
inductive SameEntryShapes : List (Value × Value) → List (Value × Value) → Prop where
  | nil : SameEntryShapes [] []
  | cons {key otherKey value other : Value} {entries others : List (Value × Value)}
      (keys : key.isScalar = otherKey.isScalar) (same : SameShape value other)
      (rest : SameEntryShapes entries others) :
      SameEntryShapes ((key, value) :: entries) ((otherKey, other) :: others)

end

/-- The scalars are the keys of a document. -/
theorem isSome_key? : ∀ value : Value, value.key?.isSome = value.isScalar
  | .null => rfl
  | .bool _ => rfl
  | .int _ => rfl
  | .float _ => rfl
  | .str _ => rfl
  | .seq _ => rfl
  | .map _ => rfl
  | .tagged _ value => isSome_key? value

/-- The node of a scalar is one, and it uses no lines. -/
theorem mark_of_isScalar (outline : Outline) (least next : Nat) (locate : Bool) :
    ∀ {value : Value}, value.isScalar = true →
      (mark outline least locate next value).1.isScalar = true ∧
        (mark outline least locate next value).2 = next
  | .null, _ => ⟨rfl, rfl⟩
  | .bool _, _ => ⟨rfl, rfl⟩
  | .int n, _ => by
      rw [mark, intNode]
      split <;> exact ⟨rfl, rfl⟩
  | .float _, _ => ⟨rfl, rfl⟩
  | .str _, _ => ⟨rfl, rfl⟩
  | .tagged _ value, isScalar => by
      rw [mark]
      exact mark_of_isScalar outline least next locate isScalar
  | .seq _, isScalar => by cases isScalar
  | .map _, isScalar => by cases isScalar

/-- The same keys can have lines. -/
theorem SameEntryShapes.isSome_keys : ∀ {entries others : List (Value × Value)},
    SameEntryShapes entries others →
      (entries.map fun e => e.1.key?.isSome) = others.map fun e => e.1.key?.isSome
  | _, _, .nil => rfl
  | _, _, .cons keys _ rest => by
      rw [List.map_cons, List.map_cons, rest.isSome_keys, isSome_key?, isSome_key?, keys]

/-- Entries with alike values stay alike when both keys are kept or both are left out. -/
theorem alikeEntries_of_keys {key otherKey : Value} (keys : key.isScalar = otherKey.isScalar)
    {node other : Node} (alike : Node.Alike node other) {entries others : Mapping}
    (rest : Node.AlikeEntries entries others) :
    Node.AlikeEntries
      (match key.key? with
        | some name => (name, node) :: entries
        | none => entries)
      (match otherKey.key? with
        | some name => (name, other) :: others
        | none => others) := by
  rw [← isSome_key?, ← isSome_key?] at keys
  cases name : key.key? with
  | none =>
      cases otherName : otherKey.key? with
      | none => exact rest
      | some otherWritten =>
          rw [name, otherName] at keys
          cases keys
  | some written =>
      cases otherName : otherKey.key? with
      | none =>
          rw [name, otherName] at keys
          cases keys
      | some otherWritten =>
          exact .entry (isMarker_key? name) (isMarker_key? otherName) alike rest

variable (outline : Outline)

theorem markItems_cons (least next : Nat) (locate : Bool) (item : Value) (rest : List Value) :
    markItems outline least locate next (item :: rest) =
      ((mark outline least locate next item).1 ::
          (markItems outline least locate (mark outline least locate next item).2 rest).1,
        (markItems outline least locate (mark outline least locate next item).2 rest).2) := rfl

mutual

/-- Values of one shape are marked alike and use the same lines. -/
theorem mark_of_sameShape : ∀ (least next : Nat) (locate : Bool) {value other : Value},
    SameShape value other →
      Node.Alike (mark outline least locate next value).1 (mark outline least locate next other).1 ∧
        (mark outline least locate next value).2 = (mark outline least locate next other).2
  | least, next, locate, _, _, .scalar isScalar otherScalar => by
      obtain ⟨nodeScalar, stays⟩ := mark_of_isScalar outline least next locate isScalar
      obtain ⟨otherNodeScalar, otherStays⟩ :=
        mark_of_isScalar outline least next locate otherScalar
      exact ⟨.scalar nodeScalar otherNodeScalar, stays.trans otherStays.symm⟩
  | least, next, locate, _, _, .tagged _ same => by
      rw [mark]
      exact mark_of_sameShape least next locate same
  | least, next, locate, _, _, .otherTagged tag same => by
      have untagged := mark_of_sameShape least next locate same
      rw [mark.eq_def outline least locate next (.tagged tag _)]
      exact untagged
  | least, next, locate, _, _, .seq same => by
      obtain ⟨alike, stays⟩ := markItems_of_sameShapes least next locate same
      rw [mark, mark]
      exact ⟨.seq alike, stays⟩
  | least, next, locate, _, _, .map same => by
      -- the places of the keys depend on no more than which keys are scalars
      rw [mark, mark, same.isSome_keys]
      generalize (if locate = true then
        (outline.startingAt next).findKeys least none _ else []) = positions
      obtain ⟨alike, stays⟩ := markEntries_of_sameShapes least next positions same
      dsimp only
      split
      · rw [stays]
        exact ⟨.map (alike.withLines _ _), rfl⟩
      · exact ⟨.map alike, stays⟩

theorem markItems_of_sameShapes : ∀ (least next : Nat) (locate : Bool) {items others : List Value},
    SameShapes items others →
      Node.AlikeItems (markItems outline least locate next items).1
          (markItems outline least locate next others).1 ∧
        (markItems outline least locate next items).2 =
          (markItems outline least locate next others).2
  | _, _, _, _, _, .nil => ⟨.nil, rfl⟩
  | least, next, locate, _, _, .cons same rest => by
      obtain ⟨alike, stays⟩ := mark_of_sameShape least next locate same
      rw [markItems_cons, markItems_cons, ← stays]
      obtain ⟨restAlike, restStays⟩ := markItems_of_sameShapes least _ locate rest
      exact ⟨.cons alike restAlike, restStays⟩

theorem markEntries_of_sameShapes : ∀ (least next : Nat) (positions : List (Option KeyPosition))
    {entries others : List (Value × Value)}, SameEntryShapes entries others →
      Node.AlikeEntries (markEntries outline least positions next entries).1
          (markEntries outline least positions next others).1 ∧
        (markEntries outline least positions next entries).2 =
          (markEntries outline least positions next others).2
  | _, _, _, _, _, .nil => ⟨.nil, rfl⟩
  | least, next, positions, _, _, .cons keys same rest => by
      cases head : positions.head?.join with
      | none =>
          obtain ⟨alike, _⟩ := mark_of_sameShape least next false same
          obtain ⟨restAlike, restStays⟩ :=
            markEntries_of_sameShapes least next positions.tail rest
          rw [mark_unlocated, mark_unlocated] at alike
          rw [markEntries_cons_of_unplaced head, markEntries_cons_of_unplaced head]
          exact ⟨alikeEntries_of_keys keys alike restAlike, restStays⟩
      | some position =>
          obtain ⟨later, rfl⟩ : ∃ later, positions = some position :: later := by
            cases positions with
            | nil => cases head
            | cons first later => exact ⟨later, congrArg (· :: later) head⟩
          obtain ⟨alike, stays⟩ :=
            mark_of_sameShape (position.column + 1) (position.line + 1) (!position.inline) same
          rw [markEntries_cons_of_placed, markEntries_cons_of_placed, ← stays]
          obtain ⟨restAlike, restStays⟩ := markEntries_of_sameShapes least _ later rest
          exact ⟨alikeEntries_of_keys keys alike restAlike, restStays⟩

end

/-- Lines depend on the shape of a value and not on its spelling. Whatever the source, the documents
    of two values of the same shape have the same line markers at the same places: the same mappings
    carry lines, and these are the same. -/
theorem node_alike_of_sameShape {value other : Value} (same : SameShape value other)
    (lines : List (List Char)) :
    Node.Alike (value.node lines) (other.node lines) ∧
      (value.node lines).spans [] = (other.node lines).spans [] := by
  have alike : Node.Alike (value.node lines) (other.node lines) :=
    (mark_of_sameShape (Outline.ofLines lines) 0 0 true same).1
  exact ⟨alike, alike.spans_eq []⟩

/-- Keys in hexadecimal digits, in quotes and under a tag get the lines of those that they could be
    written as, and so does a mapping under a tag. -/
theorem node_alike_of_respelled :
    let value : Value := .map [(.int 16, .seq [.map [(.str "a", .null)]]), (.seq [], .null),
      (.str "b", .tagged "!t" (.map [(.str "on", .int 1)]))]
    let other : Value := .map [(.str "0x10", .seq [.map [(.tagged "!k" (.bool true), .str "x")]]),
      (.map [], .null), (.null, .map [(.float (.ofInt 2), .null)])]
    let lines := ["0x10:".toList, "- a:".toList, "\"b\":".toList, "  !t on: 1".toList]
    SameShape value other ∧
      (value.node lines).spans [] = [⟨[], 1, 4⟩, ⟨[0, 0], 2, 2⟩, ⟨[1], 4, 4⟩] ∧
      Node.Alike (value.node lines) (other.node lines) := by
  intro value other lines
  have same : SameShape value other :=
    .map (.cons rfl (.seq (.cons (.map (.cons rfl (.scalar rfl rfl) .nil)) .nil))
      (.cons rfl (.scalar rfl rfl)
        (.cons rfl (.tagged _ (.map (.cons rfl (.scalar rfl rfl) .nil))) .nil)))
  exact ⟨same, by decide +kernel, (node_alike_of_sameShape same lines).1⟩

end ConfigScan.Yaml.Value
