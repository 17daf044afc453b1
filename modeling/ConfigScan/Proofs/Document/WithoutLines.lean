/-
Module: ConfigScan.Proofs.Document.WithoutLines
Purpose: A document without its line markers: what is left when they are erased, and the form of a
  mapping whose markers stand behind all its other entries.
Main exports: Node.withoutLines, Mapping.LinesLast, Mapping.Trailing, Mapping.get?_withoutLines,
  Node.get?_withoutLines
-/
import ConfigScan.Proofs.Document.Spans

namespace ConfigScan

namespace Node

mutual

/-- The node without the line markers of its mappings. -/
def withoutLines : Node → Node
  | .null => .null
  | .bool value => .bool value
  | .int value => .int value
  | .float value => .float value
  | .str text => .str text
  | .seq items => .seq (itemsWithoutLines items)
  | .map entries => .map (entriesWithoutLines entries)

/-- The items without the line markers in them. -/
def itemsWithoutLines : List Node → List Node
  | [] => []
  | item :: rest => item.withoutLines :: itemsWithoutLines rest

/-- The entries that are no line markers, without the line markers in their values. -/
def entriesWithoutLines : List (Key × Node) → List (Key × Node)
  | [] => []
  | (key, node) :: rest =>
      if key.isMarker then entriesWithoutLines rest
      else (key, node.withoutLines) :: entriesWithoutLines rest

end

end Node

namespace Mapping

open Node

theorem entriesWithoutLines_append (front back : Mapping) :
    entriesWithoutLines (front ++ back) =
      entriesWithoutLines front ++ entriesWithoutLines back := by
  induction front with
  | nil => rfl
  | cons entry rest inductionHypothesis =>
      obtain ⟨key, node⟩ := entry
      rw [List.cons_append, entriesWithoutLines, entriesWithoutLines, inductionHypothesis]
      split <;> rfl

/-- The other keys stay, in their order. -/
theorem keys_entriesWithoutLines (entries : Mapping) :
    keys (entriesWithoutLines entries) = entries.keys.filter (!·.isMarker) := by
  induction entries with
  | nil => rfl
  | cons entry rest inductionHypothesis =>
      obtain ⟨key, node⟩ := entry
      rw [entriesWithoutLines]
      cases marker : key.isMarker with
      | true => simpa [keys, marker] using inductionHypothesis
      | false => simpa [keys, marker] using inductionHypothesis

/-- A look-up of any other key sees the same entry. -/
theorem get?_withoutLines (entries : Mapping) {key : Key} (ordinary : key.isMarker = false) :
    get? (entriesWithoutLines entries) key = (entries.get? key).map Node.withoutLines := by
  induction entries with
  | nil => rfl
  | cons entry rest inductionHypothesis =>
      obtain ⟨other, node⟩ := entry
      by_cases same : other = key
      · subst same
        simp [entriesWithoutLines, ordinary, get?]
      · have skipped : get? ((other, node) :: rest) key = get? rest key := by
          simp [get?, same]
        rw [skipped, ← inductionHypothesis, entriesWithoutLines]
        split
        · rfl
        · simp [get?, same]

/-- The entries have no line markers among them, or one start and one end marker behind all the
    others. -/
def LinesLast (entries : Mapping) : Prop :=
  entries.Unmarked ∨
    ∃ (own : Mapping) (start stop : Node), own.Unmarked ∧
      entries = own ++ [(.startLine, start), (.endLine, stop)]

/-- What marking puts behind the entries of a mapping: nothing, or a start and an end marker. -/
inductive Trailing : Mapping → Prop where
  | none : Trailing []
  | lines (first last : Nat) :
      Trailing [(.startLine, lineValue first), (.endLine, lineValue last)]

namespace Trailing

variable {entries lines : Mapping}

theorem linesLast (trailing : Trailing lines) (unmarked : entries.Unmarked) :
    LinesLast (entries ++ lines) := by
  cases trailing with
  | none =>
      rw [List.append_nil]
      exact Or.inl unmarked
  | lines first last => exact Or.inr ⟨entries, _, _, unmarked, rfl⟩

/-- What marking puts behind the entries is erased with the lines. -/
theorem erased (trailing : Trailing lines) :
    entriesWithoutLines (entries ++ lines) = entriesWithoutLines entries := by
  rw [entriesWithoutLines_append]
  cases trailing <;> exact List.append_nil _

/-- Markers hold no mapping. -/
theorem not_within (trailing : Trailing lines) {key : Key} {node : Node}
    (member : (key, node) ∈ lines) {held : Mapping} : ¬ Node.Within (.map held) node := by
  intro within
  cases trailing with
  | none => cases member
  | lines first last =>
      simp only [List.mem_cons, List.not_mem_nil, or_false] at member
      rcases member with same | same <;> cases same <;> cases within

end Trailing

end Mapping

namespace Node

theorem str?_withoutLines (node : Node) : node.withoutLines.str? = node.str? := by
  cases node <;> rfl

theorem mapping?_withoutLines (node : Node) :
    node.withoutLines.mapping? = node.mapping?.map entriesWithoutLines := by
  cases node <;> rfl

/-- The value under a string key is the same but for its lines. -/
theorem get?_withoutLines (node : Node) (key : String) :
    node.withoutLines.get? key = (node.get? key).map withoutLines := by
  rw [get?, get?, mapping?_withoutLines]
  cases node.mapping? with
  | none => rfl
  | some entries => exact Mapping.get?_withoutLines entries rfl

end Node

end ConfigScan
