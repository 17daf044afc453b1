/-
Module: ConfigScan.Proofs.Document.Alike
Purpose: Documents whose mappings carry the same lines at the same places, whatever their keys and
  scalars are.
Main exports: Node.Alike, Node.AlikeEntries.withLines, Node.Alike.spans_eq
-/
import ConfigScan.Proofs.Document.Spans

namespace ConfigScan.Node

/-- A node that is no collection. -/
def isScalar : Node → Bool
  | .seq _ | .map _ => false
  | _ => true

mutual

/-- Two nodes are built alike, and their mappings carry the same lines. -/
inductive Alike : Node → Node → Prop where
  | scalar {node other : Node} (isScalar : node.isScalar = true)
      (otherScalar : other.isScalar = true) : Alike node other
  | seq {items others : List Node} (alike : AlikeItems items others) :
      Alike (.seq items) (.seq others)
  | map {entries others : List (Key × Node)} (alike : AlikeEntries entries others) :
      Alike (.map entries) (.map others)

/-- Items that are alike one by one. -/
inductive AlikeItems : List Node → List Node → Prop where
  | nil : AlikeItems [] []
  | cons {node other : Node} {items others : List Node} (alike : Alike node other)
      (rest : AlikeItems items others) : AlikeItems (node :: items) (other :: others)

/-- Entries that are alike one by one: the same line marker with the same line, or any two keys that
    are no markers over values that are alike. -/
inductive AlikeEntries : List (Key × Node) → List (Key × Node) → Prop where
  | nil : AlikeEntries [] []
  | marker {key : Key} {line : Node} {entries others : List (Key × Node)}
      (isMarker : key.isMarker = true) (rest : AlikeEntries entries others) :
      AlikeEntries ((key, line) :: entries) ((key, line) :: others)
  | entry {key otherKey : Key} {node other : Node} {entries others : List (Key × Node)}
      (ordinary : key.isMarker = false) (otherOrdinary : otherKey.isMarker = false)
      (alike : Alike node other) (rest : AlikeEntries entries others) :
      AlikeEntries ((key, node) :: entries) ((otherKey, other) :: others)

end

/-- The same lines behind entries that are alike. -/
theorem AlikeEntries.withLines : ∀ {entries others : Mapping}, AlikeEntries entries others →
    ∀ first last : Nat, AlikeEntries (entries.withLines first last) (others.withLines first last)
  | _, _, .nil, _, _ => .marker rfl (.marker rfl .nil)
  | _, _, .marker isMarker rest, first, last => .marker isMarker (rest.withLines first last)
  | _, _, .entry ordinary otherOrdinary alike rest, first, last =>
      .entry ordinary otherOrdinary alike (rest.withLines first last)

/-! ### The lines that they carry -/

theorem spans_of_isScalar {node : Node} (isScalar : node.isScalar = true) (address : List Nat) :
    node.spans address = [] := by
  cases node with
  | seq items => cases isScalar
  | map entries => cases isScalar
  | _ => rfl

/-- A look-up of a marker sees the same line. -/
theorem AlikeEntries.get?_marker {marker : Key} (isMarker : marker.isMarker = true)
    {entries others : Mapping} (alike : AlikeEntries entries others) :
    entries.get? marker = others.get? marker := by
  have notMarker : ∀ {key : Key}, key.isMarker = false → key ≠ marker := by
    rintro key ordinary rfl
    rw [isMarker] at ordinary
    cases ordinary
  induction entries generalizing others with
  | nil =>
      cases alike
      rfl
  | cons entry rest inductionHypothesis =>
      obtain ⟨key, node⟩ := entry
      cases alike with
      | marker _ later =>
          have sameLater := inductionHypothesis later
          by_cases same : key = marker
          · simp [Mapping.get?, same]
          · simpa [Mapping.get?, same] using sameLater
      | entry ordinary otherOrdinary _ later =>
          simpa [Mapping.get?, notMarker ordinary, notMarker otherOrdinary] using
            inductionHypothesis later

theorem AlikeEntries.lineRange?_eq {entries others : Mapping}
    (alike : AlikeEntries entries others) : entries.lineRange? = others.lineRange? := by
  rw [Mapping.lineRange?, Mapping.lineRange?, Mapping.startLine?, Mapping.startLine?,
    Mapping.endLine?, Mapping.endLine?, alike.get?_marker rfl, alike.get?_marker rfl]

mutual

/-- The same mappings carry lines, the same ones. -/
theorem Alike.spans_eq (address : List Nat) : ∀ {node other : Node}, Alike node other →
    node.spans address = other.spans address
  | _, _, .scalar isScalar otherScalar => by
      rw [spans_of_isScalar isScalar, spans_of_isScalar otherScalar]
  | _, _, .seq alike => by
      rw [spans, spans]
      exact alike.spans_eq address 0
  | _, _, .map alike => by
      rw [spans, spans, alike.lineRange?_eq, alike.spans_eq address 0]

theorem AlikeItems.spans_eq (address : List Nat) (index : Nat) :
    ∀ {items others : List Node}, AlikeItems items others →
      itemSpans address index items = itemSpans address index others
  | _, _, .nil => rfl
  | _, _, .cons alike rest => by
      rw [itemSpans, itemSpans, alike.spans_eq, rest.spans_eq]

theorem AlikeEntries.spans_eq (address : List Nat) (index : Nat) :
    ∀ {entries others : List (Key × Node)}, AlikeEntries entries others →
      entrySpans address index entries = entrySpans address index others
  | _, _, .nil => rfl
  | _, _, .marker _ rest => by
      rw [entrySpans, entrySpans, rest.spans_eq]
  | _, _, .entry _ _ alike rest => by
      rw [entrySpans, entrySpans, alike.spans_eq, rest.spans_eq]

end

end ConfigScan.Node
