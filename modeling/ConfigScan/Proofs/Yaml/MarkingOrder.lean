/-
Module: ConfigScan.Proofs.Yaml.MarkingOrder
Purpose: The lines that a document gets follow its own order. The search for a value never goes
  back and never past the line of the next key, so a mapping starts behind all that ended before it.
Main exports: Value.mark_between, Value.mark_eq_unmarked_of_spans, Value.node_between,
  Value.spans_node_pairwise
-/
import ConfigScan.Proofs.Document.Spans
import ConfigScan.Proofs.Yaml.KeyPositions

namespace ConfigScan.Yaml.Value

mutual

/-- Without lines there are no spans. -/
theorem spans_unmarked (address : List Nat) : ∀ value : Value, value.unmarked.spans address = []
  | .null => rfl
  | .bool _ => rfl
  | .int n => by
      rw [unmarked, intNode]
      split <;> rfl
  | .float _ => rfl
  | .str _ => rfl
  | .tagged _ value => by
      rw [unmarked]
      exact spans_unmarked address value
  | .seq items => by
      rw [unmarked, Node.spans]
      exact itemSpans_unmarkedItems address 0 items
  | .map entries => by
      rw [unmarked, Node.spans, Mapping.lineRange?_of_unmarked (unmarked_unmarkedEntries entries)]
      exact entrySpans_unmarkedEntries address 0 entries

/-- Items without lines have no spans. -/
theorem itemSpans_unmarkedItems (address : List Nat) (index : Nat) :
    ∀ items : List Value, Node.itemSpans address index (unmarkedItems items) = []
  | [] => rfl
  | item :: rest => by
      rw [unmarkedItems, Node.itemSpans, spans_unmarked (address ++ [index]) item,
        itemSpans_unmarkedItems address (index + 1) rest]
      rfl

/-- Entries without lines have no spans. -/
theorem entrySpans_unmarkedEntries (address : List Nat) (index : Nat) :
    ∀ entries : List (Value × Value),
      Node.entrySpans address index (unmarkedEntries entries) = []
  | [] => rfl
  | (key, value) :: rest => by
      cases name : key.key? with
      | none =>
          simp only [unmarkedEntries, name]
          exact entrySpans_unmarkedEntries address index rest
      | some written =>
          simp only [unmarkedEntries, name]
          rw [Node.entrySpans, spans_unmarked (address ++ [index]) value,
            entrySpans_unmarkedEntries address (index + 1) rest]
          rfl

end

/-! ### The search goes forward -/

variable {outline : Outline}

mutual

/-- What a search from the line `next` finds in front of a fence lies between where it starts and
    where it ends, and it ends in front of the fence. -/
theorem mark_between (wellFormed : outline.WellFormed) {least limit next : Nat}
    (fence : outline.Fence least limit) (next_le : next ≤ limit) (small : limit < 2 ^ 63)
    (locate : Bool) (address : List Nat) :
    ∀ value : Value,
      next ≤ (mark outline least locate next value).2 ∧
        (mark outline least locate next value).2 ≤ limit ∧
        Spans.Between address next (mark outline least locate next value).2
          ((mark outline least locate next value).1.spans address)
  | .null => ⟨Nat.le_refl _, next_le, .nil⟩
  | .bool _ => ⟨Nat.le_refl _, next_le, .nil⟩
  | .int n => by
      refine ⟨Nat.le_refl _, next_le, ?_⟩
      have noSpans := spans_unmarked address (.int n)
      rw [unmarked] at noSpans
      rw [mark, noSpans]
      exact .nil
  | .float _ => ⟨Nat.le_refl _, next_le, .nil⟩
  | .str _ => ⟨Nat.le_refl _, next_le, .nil⟩
  | .tagged _ value => by
      rw [mark]
      exact mark_between wellFormed fence next_le small locate address value
  | .seq items => by
      rw [mark, Node.spans]
      exact markItems_between wellFormed fence next_le small locate address 0 items
  | .map entries => by
      cases locate with
      | false =>
          rw [mark_unlocated, spans_unmarked]
          exact ⟨Nat.le_refl _, next_le, .nil⟩
      | true =>
          rcases mark_map_inversion wellFormed fence next_le entries with
            unplaced | ⟨column, stop, least_le, ladder, first_le_stop, stop_lt, placed⟩
          · rw [unplaced, spans_unmarked]
            exact ⟨Nat.le_refl _, next_le, .nil⟩
          · have next_le_first := ladder.le_firstLine next_le
            obtain ⟨forward, upper, between⟩ :=
              markEntries_between wellFormed (fence.mono (Nat.le_succ_of_le least_le))
                next_le small ladder least address 0 entries
            rw [placed, Node.spans_withLines (unmarked_markEntries outline least _ next entries)
              address (by omega) (by omega)]
            refine ⟨by omega, by omega, ?_⟩
            exact (between.widen (Nat.le_refl _) (Nat.le_max_left _ _)).cons
              (by omega) (by omega) (Nat.le_max_right _ _)

/-- Items follow each other between where the search starts and where it ends. -/
theorem markItems_between (wellFormed : outline.WellFormed) {least limit next : Nat}
    (fence : outline.Fence least limit) (next_le : next ≤ limit) (small : limit < 2 ^ 63)
    (locate : Bool) (address : List Nat) (index : Nat) :
    ∀ items : List Value,
      next ≤ (markItems outline least locate next items).2 ∧
        (markItems outline least locate next items).2 ≤ limit ∧
        Spans.Between address next (markItems outline least locate next items).2
          (Node.itemSpans address index (markItems outline least locate next items).1)
  | [] => ⟨Nat.le_refl _, next_le, .nil⟩
  | item :: rest => by
      obtain ⟨forward, upper, between⟩ :=
        mark_between wellFormed fence next_le small locate (address ++ [index]) item
      obtain ⟨restForward, restUpper, restBetween⟩ :=
        markItems_between wellFormed fence upper small locate address (index + 1) rest
      rw [markItems]
      exact ⟨Nat.le_trans forward restForward, restUpper,
        between.shorten.append restBetween forward restForward⟩

/-- The values of a mapping follow each other, each behind its key and in front of the next. -/
theorem markEntries_between (wellFormed : outline.WellFormed) {column limit next : Nat}
    (fence : outline.Fence (column + 1) limit) (next_le : next ≤ limit) (small : limit < 2 ^ 63)
    {positions : List (Option KeyPosition)}
    (ladder : outline.Ladder column limit next positions) (least : Nat) (address : List Nat)
    (index : Nat) :
    ∀ entries : List (Value × Value),
      next ≤ (markEntries outline least positions next entries).2 ∧
        (markEntries outline least positions next entries).2 ≤ limit ∧
        Spans.Between address (Outline.firstLine limit positions + 1)
          (markEntries outline least positions next entries).2
          (Node.entrySpans address index (markEntries outline least positions next entries).1)
  | [] => ⟨Nat.le_refl _, next_le, .nil⟩
  | (key, value) :: rest => by
      cases positions with
      | nil =>
          have others := fun index =>
            markEntries_between wellFormed fence next_le small ladder least address index rest
          rw [markEntries_cons_of_unplaced rfl]
          refine ⟨(others 0).1, (others 0).2.1, ?_⟩
          cases key.key? with
          | none => exact (others index).2.2
          | some name =>
              simp only [Node.entrySpans, spans_unmarked, List.nil_append]
              exact (others (index + 1)).2.2
      | cons position positions =>
          cases position with
          | none =>
              have later : outline.Ladder column limit next positions := ladder
              have others := fun index =>
                markEntries_between wellFormed fence next_le small later least address index rest
              rw [markEntries_cons_of_unplaced rfl]
              refine ⟨(others 0).1, (others 0).2.1, ?_⟩
              cases key.key? with
              | none => exact (others index).2.2
              | some name =>
                  simp only [Node.entrySpans, spans_unmarked, List.nil_append]
                  exact (others (index + 1)).2.2
          | some position =>
              obtain ⟨next_le_line, line_lt, sameColumn, _, later⟩ := ladder
              -- the value is searched up to the line of the next key, and no further
              have inFront := later.le_firstLine line_lt
              have valueFence := later.fence fence
              rw [← sameColumn] at valueFence
              obtain ⟨forward, upper, between⟩ :=
                mark_between wellFormed valueFence inFront
                  (Nat.lt_of_le_of_lt later.firstLine_le small) (!position.inline)
                  (address ++ [index]) value
              have others := fun index =>
                markEntries_between wellFormed fence
                  (Nat.le_trans upper later.firstLine_le) small (later.restart upper) least
                  address index rest
              rw [markEntries_cons_of_placed]
              refine ⟨by have := (others 0).1; omega, (others 0).2.1, ?_⟩
              have behind := fun index =>
                (others index).2.2.widen (Nat.le_succ_of_le upper) (Nat.le_refl _)
              cases key.key? with
              | none =>
                  refine (behind index).widen ?_ (Nat.le_refl _)
                  exact forward
              | some name =>
                  exact between.shorten.append (behind (index + 1)) forward (others 0).1

end

mutual

/-- A value none of whose mappings gets lines is as if it had not been searched for. -/
theorem mark_eq_unmarked_of_spans (wellFormed : outline.WellFormed) {limit : Nat}
    (fence : outline.Fence least limit) (small : limit < 2 ^ 63) (locate : Bool)
    (address : List Nat) : ∀ {next : Nat} (_ : next ≤ limit) (value : Value),
      (mark outline least locate next value).1.spans address = [] →
        (mark outline least locate next value).1 = value.unmarked
  | _, _, .null, _ => rfl
  | _, _, .bool _, _ => rfl
  | _, _, .int _, _ => rfl
  | _, _, .float _, _ => rfl
  | _, _, .str _, _ => rfl
  | _, next_le, .tagged _ value, noSpans => by
      rw [mark] at noSpans ⊢
      exact mark_eq_unmarked_of_spans wellFormed fence small locate address next_le value noSpans
  | _, next_le, .seq items, noSpans => by
      rw [mark] at noSpans ⊢
      simp only [Node.spans] at noSpans
      simp only [unmarked, markItems_eq_unmarked_of_spans wellFormed fence small locate address 0
        next_le items noSpans]
  | next, next_le, .map entries, noSpans => by
      cases locate with
      | false => rw [mark_unlocated]
      | true =>
          rcases mark_map_inversion wellFormed fence next_le entries with
            unplaced | ⟨column, stop, _, ladder, _, stop_lt, placed⟩
          · rw [unplaced]
          · have first_le := ladder.firstLine_le
            rw [placed, Node.spans_withLines (unmarked_markEntries outline least _ next entries)
              address (by omega) (by omega)] at noSpans
            cases noSpans

/-- Items none of whose mappings gets lines are as if they had not been searched for. -/
theorem markItems_eq_unmarked_of_spans (wellFormed : outline.WellFormed) {limit : Nat}
    (fence : outline.Fence least limit) (small : limit < 2 ^ 63) (locate : Bool)
    (address : List Nat) (index : Nat) : ∀ {next : Nat} (_ : next ≤ limit) (items : List Value),
      Node.itemSpans address index (markItems outline least locate next items).1 = [] →
        (markItems outline least locate next items).1 = unmarkedItems items
  | _, _, [], _ => rfl
  | _, next_le, item :: rest, noSpans => by
      obtain ⟨_, upper, _⟩ :=
        mark_between wellFormed fence next_le small locate (address ++ [index]) item
      rw [markItems] at noSpans ⊢
      obtain ⟨itemSpans, restSpans⟩ := List.append_eq_nil_iff.mp noSpans
      simp only [unmarkedItems,
        mark_eq_unmarked_of_spans wellFormed fence small locate (address ++ [index]) next_le item
          itemSpans,
        markItems_eq_unmarked_of_spans wellFormed fence small locate address (index + 1) upper rest
          restSpans]

end

/-! ### Whole documents -/

/-- The lines that a document gets are lines of the source, in the order of the document. -/
theorem node_between (value : Value) {lines : List (List Char)} (small : lines.length < 2 ^ 63) :
    Spans.Between [] 0 lines.length ((value.node lines).spans []) := by
  have fence : (Outline.ofLines lines).Fence 0 lines.length :=
    Or.inl fun _ member => Outline.index_lt_length member
  obtain ⟨_, upper, between⟩ :=
    mark_between (Outline.wellFormed_ofLines lines) fence (Nat.zero_le _) small true [] value
  exact between.widen (Nat.le_refl _) upper

/-- Of two mappings with lines, the one that comes first in the document starts on an earlier
    line, and it ends before the other one starts unless it holds that. The value and the lines
    need not belong together. A list of lines in memory has fewer than `2 ^ 63` members. -/
theorem spans_node_pairwise (value : Value) {lines : List (List Char)}
    (small : lines.length < 2 ^ 63) :
    ((value.node lines).spans []).Pairwise Span.Precedes :=
  (node_between value small).ordered

/-- A list of two mappings, the first of which holds one more. -/
theorem spans_node_pairwise_nested :
    let value : Value := .seq
      [.map [(.str "a", .map [(.str "b", .null)]), (.str "c", .null)], .map [(.str "d", .null)]]
    let lines := ["- a:".toList, "    b:".toList, "  c:".toList, "- d:".toList]
    lines.length < 2 ^ 63 ∧
      (value.node lines).spans [] = [⟨[0], 1, 3⟩, ⟨[0, 0], 2, 2⟩, ⟨[1], 4, 4⟩] ∧
      ((value.node lines).spans []).Pairwise Span.Precedes :=
  ⟨by decide, by decide +kernel, spans_node_pairwise _ (by decide)⟩

end ConfigScan.Yaml.Value
