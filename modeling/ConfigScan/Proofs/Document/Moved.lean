/-
Module: ConfigScan.Proofs.Document.Moved
Purpose: The document that comes of moving lines in the source: every line marker holds the new
  number of its line, and all else is as it was.
Main exports: Node.moveLines, Node.moveEntries_withLines, Span.move, Node.spans_moveLines
-/
import ConfigScan.Proofs.Document.Spans

namespace ConfigScan

namespace Node

/-- The number in a line marker after a move: `place` gives the number of lines in front of a line
    from the number of those that were there before. -/
def moveLine (place : Nat → Nat) (node : Node) : Node :=
  node.line?.elim node fun number => Mapping.lineValue (place (number - 1) + 1)

mutual

/-- The node with the new numbers of its lines. -/
def moveLines (place : Nat → Nat) : Node → Node
  | .null => .null
  | .bool value => .bool value
  | .int value => .int value
  | .float value => .float value
  | .str text => .str text
  | .seq items => .seq (moveItems place items)
  | .map entries => .map (moveEntries place entries)

/-- The items with the new numbers of their lines. -/
def moveItems (place : Nat → Nat) : List Node → List Node
  | [] => []
  | item :: rest => item.moveLines place :: moveItems place rest

/-- The entries of a mapping with the new numbers of their lines. -/
def moveEntries (place : Nat → Nat) : List (Key × Node) → List (Key × Node)
  | [] => []
  | (key, node) :: rest =>
      (key, if key.isMarker then node.moveLine place else node.moveLines place) ::
        moveEntries place rest

end

variable (place : Nat → Nat)

theorem moveLine_lineValue {number : Nat} (small : number < 2 ^ 63) :
    (Mapping.lineValue number).moveLine place = Mapping.lineValue (place (number - 1) + 1) := by
  rw [Mapping.lineValue_of_lt small]
  rfl

theorem moveEntries_append (front back : Mapping) :
    moveEntries place (front ++ back) = moveEntries place front ++ moveEntries place back := by
  induction front with
  | nil => rfl
  | cons entry rest inductionHypothesis =>
      obtain ⟨key, node⟩ := entry
      rw [List.cons_append, moveEntries, inductionHypothesis, moveEntries, List.cons_append]

theorem moveEntries_cons {key : Key} (name : key.isMarker = false) (node : Node) (rest : Mapping) :
    moveEntries place ((key, node) :: rest) =
      (key, node.moveLines place) :: moveEntries place rest := by
  rw [moveEntries, name, if_neg Bool.false_ne_true]

/-- The lines of a mapping move with the lines that they are. -/
theorem moveEntries_withLines (entries : Mapping) {first last : Nat} (firstSmall : first < 2 ^ 63)
    (lastSmall : last < 2 ^ 63) :
    moveEntries place (entries.withLines first last) =
      Mapping.withLines (moveEntries place entries) (place (first - 1) + 1)
        (place (last - 1) + 1) := by
  rw [Mapping.withLines, moveEntries_append, Mapping.withLines]
  simp only [moveEntries, Key.isMarker, if_true, moveLine_lineValue place firstSmall,
    moveLine_lineValue place lastSmall]

theorem unmarked_moveEntries {entries : Mapping} (unmarked : entries.Unmarked) :
    Mapping.Unmarked (moveEntries place entries) := by
  induction entries with
  | nil => exact unmarked
  | cons entry rest inductionHypothesis =>
      obtain ⟨key, node⟩ := entry
      intro moved member
      rw [moveEntries] at member
      rcases List.mem_cons.mp member with same | later
      · rw [same]
        exact unmarked (key, node) List.mem_cons_self
      · exact inductionHypothesis
          (fun other inRest => unmarked other (List.mem_cons_of_mem _ inRest)) moved later

end Node

/-! ### The lines of moved mappings -/

/-- The lines of a mapping after a move. -/
def Span.move (place : Nat → Nat) (span : Span) : Span :=
  { span with first := place (span.first - 1) + 1, last := place (span.last - 1) + 1 }

/-- The markers of a mapping hold whole numbers. -/
theorem Mapping.MarkedUpTo.marker_int {bound : Nat} {entries : Mapping}
    (marked : entries.MarkedUpTo bound) {key : Key} {node : Node} (member : (key, node) ∈ entries)
    (marker : key.isMarker = true) : ∃ n, node = .int n := by
  cases marked with
  | unmarked unmarked =>
      have name := unmarked _ member
      rw [marker] at name
      cases name
  | withLines unmarked =>
      rcases List.mem_append.mp member with own | appended
      · have name := unmarked _ own
        rw [marker] at name
        cases name
      · simp only [List.mem_cons, List.not_mem_nil, or_false] at appended
        rcases appended with same | same <;> cases same <;> exact ⟨_, rfl⟩

namespace Node

theorem spans_moveLine_int (place : Nat → Nat) (n : Int) (address : List Nat) :
    (moveLine place (.int n)).spans address = [] := by
  cases n <;> rfl

variable {place : Nat → Nat} {bound : Nat}

theorem lineRange?_moveEntries (small : bound < 2 ^ 63) (stays : ∀ n, place n + 1 < 2 ^ 63)
    {entries : Mapping} (marked : entries.MarkedUpTo bound) :
    Mapping.lineRange? (moveEntries place entries) =
      entries.lineRange?.map fun range => (place (range.1 - 1) + 1, place (range.2 - 1) + 1) := by
  cases marked with
  | unmarked unmarked =>
      rw [Mapping.lineRange?_of_unmarked unmarked,
        Mapping.lineRange?_of_unmarked (unmarked_moveEntries place unmarked)]
      rfl
  | withLines unmarked first_le last_le =>
      have firstSmall := Nat.lt_of_le_of_lt first_le small
      have lastSmall := Nat.lt_of_le_of_lt last_le small
      rw [Mapping.lineRange?_withLines unmarked firstSmall lastSmall,
        moveEntries_withLines place _ firstSmall lastSmall,
        Mapping.lineRange?_withLines (unmarked_moveEntries place unmarked) (stays _) (stays _)]
      rfl

mutual

/-- After a move the same mappings carry lines, the moved ones. -/
theorem spans_moveLines (small : bound < 2 ^ 63) (stays : ∀ n, place n + 1 < 2 ^ 63)
    (address : List Nat) :
    ∀ node : Node, (∀ entries, Within (.map entries) node → Mapping.MarkedUpTo bound entries) →
      (node.moveLines place).spans address = (node.spans address).map (Span.move place)
  | .null, _ => rfl
  | .bool _, _ => rfl
  | .int _, _ => rfl
  | .float _, _ => rfl
  | .str _, _ => rfl
  | .seq items, marked => by
      rw [moveLines, spans, spans]
      exact itemSpans_moveItems small stays address 0 items
        fun item member entries within => marked entries (.item member within)
  | .map entries, marked => by
      have own := marked entries .here
      rw [moveLines, spans, spans, lineRange?_moveEntries small stays own, List.map_append,
        entrySpans_moveEntries small stays address 0 entries
          (fun key node member isMarker => own.marker_int member isMarker)
          fun key node member entries within => marked entries (.entry member within)]
      cases Mapping.lineRange? entries <;> rfl

/-- After a move the same items carry lines. -/
theorem itemSpans_moveItems (small : bound < 2 ^ 63) (stays : ∀ n, place n + 1 < 2 ^ 63)
    (address : List Nat) (index : Nat) :
    ∀ items : List Node,
      (∀ item ∈ items, ∀ entries, Within (.map entries) item →
        Mapping.MarkedUpTo bound entries) →
      itemSpans address index (moveItems place items) =
        (itemSpans address index items).map (Span.move place)
  | [], _ => rfl
  | item :: rest, marked => by
      rw [moveItems, itemSpans, itemSpans, List.map_append,
        spans_moveLines small stays (address ++ [index]) item (marked item List.mem_cons_self),
        itemSpans_moveItems small stays address (index + 1) rest
          fun other member => marked other (List.mem_cons_of_mem _ member)]

/-- After a move the same values of entries carry lines. -/
theorem entrySpans_moveEntries (small : bound < 2 ^ 63) (stays : ∀ n, place n + 1 < 2 ^ 63)
    (address : List Nat) (index : Nat) :
    ∀ entries : List (Key × Node),
      (∀ key node, (key, node) ∈ entries → key.isMarker = true → ∃ n, node = .int n) →
      (∀ key node, (key, node) ∈ entries → ∀ others, Within (.map others) node →
        Mapping.MarkedUpTo bound others) →
      entrySpans address index (moveEntries place entries) =
        (entrySpans address index entries).map (Span.move place)
  | [], _, _ => rfl
  | (key, node) :: rest, markers, marked => by
      rw [moveEntries, entrySpans, entrySpans, List.map_append,
        entrySpans_moveEntries small stays address (index + 1) rest
          (fun other value member => markers other value (List.mem_cons_of_mem _ member))
          fun other value member => marked other value (List.mem_cons_of_mem _ member)]
      congr 1
      cases isMarker : key.isMarker with
      | true =>
          obtain ⟨n, rfl⟩ := markers key node List.mem_cons_self isMarker
          rw [if_pos rfl, spans_moveLine_int]
          rfl
      | false =>
          rw [if_neg Bool.false_ne_true]
          exact spans_moveLines small stays (address ++ [index]) node
            (marked key node List.mem_cons_self)

end

end Node

end ConfigScan
