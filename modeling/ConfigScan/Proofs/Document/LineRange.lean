/-
Module: ConfigScan.Proofs.Document.LineRange
Purpose: Which lines a node has by its markers, said of its entries: the first marker of each kind
  counts, if its value is a line number. Markers that were appended as words of 64 bits are read
  back as far as they are less than `2 ^ 63`.
Main exports: Mapping.FirstReads, Node.Locates, Node.locates_iff, Node.IsSmall,
  Node.Locates.lt_of_isSmall, Node.locates_withLines_iff
-/
import ConfigScan.Proofs.Document.Spans
import Mathlib.Algebra.Group.Int.Defs

namespace ConfigScan

/-! ### The first entry of a marker -/

/-- The first entry with this key has the integer `n`, which is not negative, for its value. -/
def Mapping.FirstReads (entries : Mapping) (key : Key) (n : Nat) : Prop :=
  ∃ front back, entries = front ++ (key, .int n) :: back ∧ ∀ entry ∈ front, entry.1 ≠ key

theorem Node.line?_eq_some_iff {node : Node} {n : Nat} : node.line? = some n ↔ node = .int n := by
  constructor
  · intro line
    cases node with
    | int value =>
        cases value with
        | ofNat m =>
            cases line
            rfl
        | negSucc m => cases line
    | _ => cases line
  · rintro rfl
    rfl

namespace Mapping

variable {entries : Mapping} {key : Key} {n : Nat}

theorem firstReads_iff :
    entries.FirstReads key n ↔ (entries.get? key).bind Node.line? = some n := by
  constructor
  · rintro ⟨front, back, rfl, notBefore⟩
    have found : (front ++ (key, .int n) :: back).find? (·.1 == key) = some (key, .int n) := by
      rw [List.find?_eq_some_iff_append]
      refine ⟨by simp, front, back, rfl, fun entry member => ?_⟩
      simp [notBefore entry member]
    rw [get?, found]
    exact Node.line?_eq_some_iff.mpr rfl
  · intro read
    obtain ⟨value, hasKey, isLine⟩ := Option.bind_eq_some_iff.mp read
    obtain ⟨⟨ownKey, ownValue⟩, found, rfl⟩ := Option.map_eq_some_iff.mp hasKey
    obtain ⟨isKey, front, back, rfl, notBefore⟩ := List.find?_eq_some_iff_append.mp found
    rw [beq_iff_eq] at isKey
    subst isKey
    have isInt : ownValue = .int n := Node.line?_eq_some_iff.mp isLine
    rw [isInt]
    exact ⟨front, back, rfl, fun entry member => by simpa using notBefore entry member⟩

/-- A word of 64 bits is kept as an integer of 64 bits, which is negative from `2 ^ 63` on. -/
theorem lineValue_eq_int_iff {word : Nat} (isWord : word < 2 ^ 64) :
    lineValue word = .int n ↔ n = word ∧ word < 2 ^ 63 := by
  have isRemainder : (word : Int) % UInt64.size = word := by
    apply Int.emod_eq_of_lt (Int.natCast_nonneg word)
    simp only [UInt64.size]
    omega
  rw [lineValue, Int.bmod_def, isRemainder, Node.int.injEq]
  simp only [UInt64.size]
  by_cases small : word < 2 ^ 63
  · rw [if_pos (by omega)]
    omega
  · rw [if_neg (by omega)]
    omega

variable {start stop : Nat}

theorem firstReads_startLine_withLines (unmarked : entries.Unmarked) (isWord : start < 2 ^ 64)
    (stop : Nat) :
    (entries.withLines start stop).FirstReads .startLine n ↔ n = start ∧ start < 2 ^ 63 := by
  have own : get? [(.startLine, lineValue start), (.endLine, lineValue stop)] .startLine =
      some (lineValue start) := rfl
  rw [firstReads_iff, withLines, get?_append_of_unmarked unmarked rfl, own, Option.bind_some,
    Node.line?_eq_some_iff, lineValue_eq_int_iff isWord]

theorem firstReads_endLine_withLines (unmarked : entries.Unmarked) (start : Nat)
    (isWord : stop < 2 ^ 64) :
    (entries.withLines start stop).FirstReads .endLine n ↔ n = stop ∧ stop < 2 ^ 63 := by
  have own : get? [(.startLine, lineValue start), (.endLine, lineValue stop)] .endLine =
      some (lineValue stop) := rfl
  rw [firstReads_iff, withLines, get?_append_of_unmarked unmarked rfl, own, Option.bind_some,
    Node.line?_eq_some_iff, lineValue_eq_int_iff isWord]

end Mapping

/-! ### The lines of a node -/

namespace Node

/-- The markers of a node give it these lines: those of a mapping, or of a sequence the start of its
    first and the end of its last item, if both are mappings. -/
inductive Locates : Node → Nat → Nat → Prop where
  | map {entries : Mapping} {first last : Nat} (start : entries.FirstReads .startLine first)
      (stop : entries.FirstReads .endLine last) : Locates (.map entries) first last
  | seq {items : List Node} {head tail : Mapping} {first last : Nat}
      (isHead : items.head? = some (.map head)) (isTail : items.getLast? = some (.map tail))
      (start : head.FirstReads .startLine first) (stop : tail.FirstReads .endLine last) :
      Locates (.seq items) first last

variable {node : Node} {first last : Nat}

theorem locates_iff : node.Locates first last ↔ node.lineRange? = some (first, last) := by
  constructor
  · intro locates
    cases locates with
    | map start stop =>
        simp [lineRange?, Mapping.lineRange?, Mapping.startLine?, Mapping.endLine?,
          Mapping.firstReads_iff.mp start, Mapping.firstReads_iff.mp stop]
    | seq isHead isTail start stop =>
        simp [lineRange?, isHead, isTail, mapping?, Mapping.startLine?, Mapping.endLine?,
          Mapping.firstReads_iff.mp start, Mapping.firstReads_iff.mp stop]
  · intro range
    cases node with
    | map entries =>
        simp only [lineRange?, Mapping.lineRange?, bind, Option.bind_eq_some_iff] at range
        obtain ⟨_, start, _, stop, same⟩ := range
        cases same
        exact .map (Mapping.firstReads_iff.mpr start) (Mapping.firstReads_iff.mpr stop)
    | seq items =>
        obtain ⟨head, tail, isHead, isTail, start, stop⟩ := lineRange?_seq range
        exact .seq isHead isTail (Mapping.firstReads_iff.mpr start)
          (Mapping.firstReads_iff.mpr stop)
    | _ => cases range

/-- All integers in a node are integers of 64 bits. -/
def IsSmall (node : Node) : Prop :=
  ∀ value, Within (.int value) node → -2 ^ 63 ≤ value ∧ value < 2 ^ 63

theorem lt_of_firstReads {entries : Mapping} {key : Key} {n : Nat} (small : node.IsSmall)
    (within : Within (.map entries) node) (reads : entries.FirstReads key n) : n < 2 ^ 63 := by
  obtain ⟨front, back, rfl, _⟩ := reads
  have inside : Within (.int n) (.map (front ++ (key, .int n) :: back)) :=
    .entry (List.mem_append_right _ List.mem_cons_self) .here
  have bounds := small n (inside.trans within)
  omega

/-- Then its lines are so small that the line behind them has a number as well. -/
theorem Locates.lt_of_isSmall (locates : node.Locates first last) (small : node.IsSmall) :
    first < 2 ^ 63 ∧ last < 2 ^ 63 := by
  cases locates with
  | map start stop => exact ⟨lt_of_firstReads small .here start, lt_of_firstReads small .here stop⟩
  | seq isHead isTail start stop =>
      exact ⟨lt_of_firstReads small (.item (List.mem_of_mem_head? isHead) .here) start,
        lt_of_firstReads small (.item (List.mem_of_getLast? isTail) .here) stop⟩

/-- Lines that were appended to entries without markers. -/
theorem locates_withLines_iff {entries : Mapping} {start stop : Nat} (unmarked : entries.Unmarked)
    (startWord : start < 2 ^ 64) (stopWord : stop < 2 ^ 64) :
    (Node.map (entries.withLines start stop)).Locates first last ↔
      (first = start ∧ start < 2 ^ 63) ∧ last = stop ∧ stop < 2 ^ 63 := by
  rw [← Mapping.firstReads_startLine_withLines unmarked startWord stop,
    ← Mapping.firstReads_endLine_withLines unmarked start stopWord]
  constructor
  · intro locates
    cases locates with
    | map reads stops => exact ⟨reads, stops⟩
  · rintro ⟨reads, stops⟩
    exact .map reads stops

end Node

end ConfigScan
