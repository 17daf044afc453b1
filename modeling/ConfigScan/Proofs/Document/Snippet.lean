/-
Module: ConfigScan.Proofs.Document.Snippet
Purpose: The lines that a snippet of a source has.
Main exports: RawLine.number_getElem_ofText, RawLine.snippet_infix, RawLine.exists_mem_snippet,
  RawLine.around, RawLine.snippet_eq_around
-/
import ConfigScan.Document.Source
import Mathlib.Data.List.Infix

namespace ConfigScan.RawLine

theorem length_numberFrom (first : Nat) (lines : List (List Char)) :
    (numberFrom first lines).length = lines.length := by
  induction lines generalizing first with
  | nil => rfl
  | cons line rest inductionHypothesis =>
      rw [numberFrom, List.length_cons, List.length_cons, inductionHypothesis]

theorem length_ofText (text : String) : (ofText text).length = (Text.lines text.toList).length :=
  length_numberFrom 1 _

theorem number_getElem_numberFrom (first : Nat) (lines : List (List Char)) (i : Nat)
    (inside : i < (numberFrom first lines).length) :
    (numberFrom first lines)[i].number = first + i := by
  induction lines generalizing first i with
  | nil => simp [numberFrom] at inside
  | cons line rest inductionHypothesis =>
      cases i with
      | zero => rfl
      | succ i =>
          have restInside : i < (numberFrom (first + 1) rest).length := by
            simpa [numberFrom] using inside
          have step := inductionHypothesis (first + 1) i restInside
          simp only [numberFrom, List.getElem_cons_succ]
          omega

/-- The line at each place of a source has the number of that place, counted from one. -/
theorem number_getElem_ofText {text : String} {i : Nat} (inside : i < (ofText text).length) :
    (ofText text)[i].number = i + 1 := by
  have numbered := number_getElem_numberFrom 1 _ i inside
  simp only [ofText]
  omega

/-- A snippet is a run of lines of its source. -/
theorem snippet_infix (lines : List RawLine) (first last : Nat) :
    snippet lines first last <:+: lines := by
  have suffix : snippet lines first last <:+ lines.take (last + 1) := List.drop_suffix _ _
  exact suffix.isInfix.trans (List.take_prefix _ _).isInfix

/-- A snippet has every line of its source between the lines that it was asked for. -/
theorem exists_mem_snippet {text : String} {first last n : Nat} (positive : 1 ≤ n)
    (first_le : first ≤ n) (le_last : n ≤ last) (inside : n ≤ (ofText text).length) :
    ∃ line ∈ snippet (ofText text) first last, line.number = n := by
  have place : n - 1 < (ofText text).length := by omega
  refine ⟨(ofText text)[n - 1], ?_, by rw [number_getElem_ofText place]; omega⟩
  rw [snippet, List.mem_drop_iff_getElem]
  refine ⟨n - 1 - (first - 2), ?_, ?_⟩
  · rw [List.length_take]
    omega
  · rw [List.getElem_take]
    congr 1
    omega

/-- The lines of a file from one before `first` to one after `last`, told by their places, which are
    counted from one. -/
def around (lines : List RawLine) (first last : Nat) : List RawLine :=
  ((lines.zipIdx 1).filter fun line => first ≤ line.2 + 1 ∧ line.2 ≤ last + 1).map (·.1)

/-- Of lines that are counted from `place`, those from `start` on and before `stop`. -/
theorem map_filter_zipIdx (lines : List RawLine) (place start stop : Nat) :
    ((lines.zipIdx place).filter fun line => start ≤ line.2 ∧ line.2 < stop).map (·.1) =
      (lines.take (stop - place)).drop (start - place) := by
  induction lines generalizing place with
  | nil => simp
  | cons line rest inductionHypothesis =>
      rw [List.zipIdx_cons, List.filter_cons]
      -- lines are passed over up to `start` and taken from there up to `stop`
      rcases Nat.lt_or_ge place stop with before | behind
      · obtain ⟨more, more_eq⟩ : ∃ more, stop - place = more + 1 :=
          Nat.exists_eq_add_one_of_ne_zero (by omega)
        have restTake : stop - (place + 1) = more := by omega
        rw [more_eq, List.take_succ_cons]
        rcases Nat.lt_or_ge place start with early | inside
        · obtain ⟨skip, skip_eq⟩ : ∃ skip, start - place = skip + 1 :=
            Nat.exists_eq_add_one_of_ne_zero (by omega)
          have restDrop : start - (place + 1) = skip := by omega
          rw [if_neg (by simp; omega), inductionHypothesis, restTake, restDrop, skip_eq,
            List.drop_succ_cons]
        · have noDrop : start - place = 0 := by omega
          have restNoDrop : start - (place + 1) = 0 := by omega
          rw [if_pos (by simp; omega), List.map_cons, inductionHypothesis, restTake, restNoDrop,
            noDrop]
          rfl
      · have noTake : stop - place = 0 := by omega
        have restNoTake : stop - (place + 1) = 0 := by omega
        rw [if_neg (by simp; omega), inductionHypothesis, noTake, restNoTake, List.take_zero,
          List.take_zero, List.drop_nil, List.drop_nil]

/-- A snippet has exactly the lines around those that it was asked for, whether these are in order
    and in the file or not. -/
theorem snippet_eq_around (lines : List RawLine) (first last : Nat) :
    snippet lines first last = around lines first last := by
  have places : around lines first last =
      ((lines.zipIdx 1).filter fun line => first - 1 ≤ line.2 ∧ line.2 < last + 2).map (·.1) := by
    rw [around]
    congr 2
    funext line
    rw [decide_eq_decide]
    omega
  rw [places, map_filter_zipIdx, snippet]
  rfl

end ConfigScan.RawLine
