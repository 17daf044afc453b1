/-
Module: ConfigScan.Proofs.Document.Markers
Purpose: Line markers read back from the mapping that they were appended to.
Main exports: Mapping.Unmarked, Mapping.lineValue_inj, Mapping.startLine?_withLines,
  Mapping.endLine?_withLines, Mapping.lineRange?_of_unmarked, Mapping.MarkedUpTo
-/
import ConfigScan.Document.Basic
import Mathlib.Algebra.Group.Nat.Defs

namespace ConfigScan.Mapping

/-- None of the entries is a line marker. -/
def Unmarked (entries : Mapping) : Prop := ∀ entry ∈ entries, entry.1.isMarker = false

/-- A line number below `2 ^ 63` is kept as it is. -/
theorem lineValue_of_lt {n : Nat} (small : n < 2 ^ 63) : lineValue n = .int (.ofNat n) := by
  have kept : Int.bmod (n : Int) UInt64.size = n := by
    apply Int.bmod_eq_of_le <;> simp only [UInt64.size] <;> omega
  rw [lineValue, kept]
  rfl

/-- Line numbers below `2 ^ 64` stay apart. -/
theorem lineValue_inj {m n : Nat} (mSmall : m < 2 ^ 64) (nSmall : n < 2 ^ 64)
    (same : lineValue m = lineValue n) : m = n := by
  have bmodEq : Int.bmod (m : Int) UInt64.size = Int.bmod (n : Int) UInt64.size :=
    Node.int.inj same
  have emodEq := Int.bmod_eq_bmod_iff_bmod_sub_eq_zero.mp bmodEq
  have divides := Int.dvd_of_bmod_eq_zero emodEq
  simp only [UInt64.size] at divides
  omega

/-- The lines and the entries that they were appended to are read off a mapping. -/
theorem withLines_inj {entries others : Mapping} {first last otherFirst otherLast : Nat}
    (same : entries.withLines first last = others.withLines otherFirst otherLast) :
    entries = others ∧ lineValue first = lineValue otherFirst ∧
      lineValue last = lineValue otherLast := by
  rw [withLines, withLines] at same
  obtain ⟨sameEntries, sameMarkers⟩ := List.append_inj' same (by simp)
  obtain ⟨sameFirst, sameOthers⟩ := List.cons.inj sameMarkers
  obtain ⟨sameLast, _⟩ := List.cons.inj sameOthers
  exact ⟨sameEntries, (Prod.mk.inj sameFirst).2, (Prod.mk.inj sameLast).2⟩

/-- Behind entries without markers, a look-up of a marker sees what is appended. -/
theorem get?_append_of_unmarked {entries : Mapping} (unmarked : entries.Unmarked) {key : Key}
    (marker : key.isMarker = true) (more : Mapping) :
    get? (entries ++ more) key = get? more key := by
  have missed : entries.find? (·.1 == key) = none := by
    rw [List.find?_eq_none]
    intro entry member same
    have equal : entry.1 = key := by simpa using same
    have noMarker := unmarked entry member
    rw [equal, marker] at noMarker
    cases noMarker
  simp [get?, missed]

theorem get?_of_unmarked {entries : Mapping} (unmarked : entries.Unmarked) {key : Key}
    (marker : key.isMarker = true) : get? entries key = none := by
  have appended := get?_append_of_unmarked unmarked marker []
  rw [List.append_nil] at appended
  rw [appended]
  rfl

theorem startLine?_of_unmarked {entries : Mapping} (unmarked : entries.Unmarked) :
    entries.startLine? = none := by
  rw [startLine?, get?_of_unmarked unmarked rfl]
  rfl

theorem endLine?_of_unmarked {entries : Mapping} (unmarked : entries.Unmarked) :
    entries.endLine? = none := by
  rw [endLine?, get?_of_unmarked unmarked rfl]
  rfl

theorem lineRange?_of_unmarked {entries : Mapping} (unmarked : entries.Unmarked) :
    entries.lineRange? = none := by
  simp [lineRange?, startLine?_of_unmarked unmarked]

theorem startLine?_withLines {entries : Mapping} (unmarked : entries.Unmarked) {first : Nat}
    (small : first < 2 ^ 63) (last : Nat) :
    (withLines entries first last).startLine? = some first := by
  rw [startLine?, withLines, get?_append_of_unmarked unmarked rfl, lineValue_of_lt small]
  rfl

theorem endLine?_withLines {entries : Mapping} (unmarked : entries.Unmarked) (first : Nat)
    {last : Nat} (small : last < 2 ^ 63) :
    (withLines entries first last).endLine? = some last := by
  rw [endLine?, withLines, get?_append_of_unmarked unmarked rfl, lineValue_of_lt small]
  rfl

theorem lineRange?_withLines {entries : Mapping} (unmarked : entries.Unmarked) {first last : Nat}
    (firstSmall : first < 2 ^ 63) (lastSmall : last < 2 ^ 63) :
    (withLines entries first last).lineRange? = some (first, last) := by
  simp [lineRange?, startLine?_withLines unmarked firstSmall,
    endLine?_withLines unmarked first lastSmall]

/-- The entries carry no lines, or a pair of lines up to `bound` behind all the others. -/
inductive MarkedUpTo (bound : Nat) : Mapping → Prop where
  | unmarked {entries : Mapping} (unmarked : entries.Unmarked) : MarkedUpTo bound entries
  | withLines {entries : Mapping} {first last : Nat} (unmarked : entries.Unmarked)
      (first_le : first ≤ bound) (last_le : last ≤ bound) :
      MarkedUpTo bound (withLines entries first last)

/-- A mapping with a start line has an end line too. -/
theorem MarkedUpTo.lineRange?_of_startLine? {bound first : Nat} {entries : Mapping}
    (marked : MarkedUpTo bound entries) (small : bound < 2 ^ 63)
    (start : entries.startLine? = some first) :
    ∃ last, entries.lineRange? = some (first, last) := by
  cases marked with
  | unmarked unmarked =>
      rw [startLine?_of_unmarked unmarked] at start
      cases start
  | withLines unmarked first_le last_le =>
      rw [startLine?_withLines unmarked (Nat.lt_of_le_of_lt first_le small)] at start
      cases start
      exact ⟨_, lineRange?_withLines unmarked (Nat.lt_of_le_of_lt first_le small)
        (Nat.lt_of_le_of_lt last_le small)⟩

/-- A mapping with an end line has a start line too. -/
theorem MarkedUpTo.lineRange?_of_endLine? {bound last : Nat} {entries : Mapping}
    (marked : MarkedUpTo bound entries) (small : bound < 2 ^ 63)
    (stop : entries.endLine? = some last) : ∃ first, entries.lineRange? = some (first, last) := by
  cases marked with
  | unmarked unmarked =>
      rw [endLine?_of_unmarked unmarked] at stop
      cases stop
  | withLines unmarked first_le last_le =>
      rw [endLine?_withLines unmarked _ (Nat.lt_of_le_of_lt last_le small)] at stop
      cases stop
      exact ⟨_, lineRange?_withLines unmarked (Nat.lt_of_le_of_lt first_le small)
        (Nat.lt_of_le_of_lt last_le small)⟩

end ConfigScan.Mapping
