/-
Module: ConfigScan.Proofs.Text.Runs
Purpose: The longest run of characters of a kind at the start of a text, and trimming, which takes
  such a run away at both ends.
Main exports: Text.RunsTo, Text.runsTo_takeWhile, Text.Trims, Text.trims_iff
-/
import ConfigScan.Text.Blank
import Mathlib.Data.List.Basic
import Mathlib.Data.List.TakeWhile

namespace ConfigScan.Text

/-! ### Runs -/

/-- The text is a run of characters of a kind, which goes on as long as it can, and then `rest`. -/
structure RunsTo (kind : Char → Prop) (text run rest : List Char) : Prop where
  text_eq : text = run ++ rest
  all : ∀ c ∈ run, kind c
  stops : ∀ c ∈ rest.head?, ¬ kind c

section Runs

variable {kind : Char → Prop} {passes : Char → Bool} {text run rest : List Char}

theorem runsTo_takeWhile (decides : ∀ c, passes c = true ↔ kind c) (text : List Char) :
    RunsTo kind text (text.takeWhile passes) (text.dropWhile passes) where
  text_eq := List.takeWhile_append_dropWhile.symm
  all := fun c member => (decides c).mp (List.mem_takeWhile_imp member)
  stops := by
    intro c first
    have stopped := List.head?_dropWhile_not passes text
    rw [Option.mem_def.mp first] at stopped
    rw [← decides c]
    exact Bool.eq_false_iff.mp stopped

theorem RunsTo.dropWhile_eq (runs : RunsTo kind text run rest)
    (decides : ∀ c, passes c = true ↔ kind c) : text.dropWhile passes = rest := by
  have passed : ∀ c ∈ run, passes c = true := fun c member => (decides c).mpr (runs.all c member)
  rw [runs.text_eq, List.dropWhile_append_of_pos passed]
  cases rest with
  | nil => rfl
  | cons c more => exact List.dropWhile_cons_of_neg (mt (decides c).mp (runs.stops c rfl))

end Runs

/-! ### Trimming -/

/-- `inner` is the text without the white space at its two ends. -/
structure Trims (text inner : List Char) : Prop where
  between : ∃ left right, text = left ++ inner ++ right ∧
    (∀ c ∈ left, isBlank c = true) ∧ ∀ c ∈ right, isBlank c = true
  starts : ∀ c ∈ inner.head?, ¬ isBlank c = true
  ends : ∀ c ∈ inner.getLast?, ¬ isBlank c = true

variable {text inner : List Char}

theorem Trims.ne_nil (trims : Trims text inner) (visible : inner ≠ []) : text ≠ [] := by
  obtain ⟨left, right, text_eq, _, _⟩ := trims.between
  simp [text_eq, visible]

theorem runsTo_blank (text : List Char) :
    RunsTo (isBlank · = true) text (text.takeWhile isBlank) (text.dropWhile isBlank) :=
  runsTo_takeWhile (fun _ => Iff.rfl) text

theorem trims_trim (text : List Char) : Trims text (trim text) := by
  have front := runsTo_blank text
  have back := runsTo_blank (trimStart text).reverse
  have inner : (trimStart text).reverse.dropWhile isBlank = (trim text).reverse := by
    rw [trim, trimEnd, List.reverse_reverse]
  rw [inner] at back
  have whole :
      trimStart text = trim text ++ ((trimStart text).reverse.takeWhile isBlank).reverse := by
    rw [← List.reverse_inj, List.reverse_append, List.reverse_reverse]
    exact back.text_eq
  refine ⟨⟨_, _, ?_, front.all, fun c member => back.all c (List.mem_reverse.mp member)⟩, ?_, ?_⟩
  · rw [List.append_assoc, ← whole]
    exact front.text_eq
  · intro c first
    refine front.stops c ?_
    rw [← trimStart, whole]
    exact List.mem_head?_append_of_mem_head? first
  · intro c last
    refine back.stops c ?_
    rw [List.head?_reverse]
    exact last

/-- White space in front of something visible is taken away. -/
theorem trimStart_append {left rest : List Char} (blank : ∀ c ∈ left, isBlank c = true)
    (starts : ∀ c ∈ rest.head?, ¬ isBlank c = true) : trimStart (left ++ rest) = rest :=
  RunsTo.dropWhile_eq ⟨rfl, blank, starts⟩ fun _ => Iff.rfl

theorem trimEnd_append {inner right : List Char} (blank : ∀ c ∈ right, isBlank c = true)
    (ends : ∀ c ∈ inner.getLast?, ¬ isBlank c = true) : trimEnd (inner ++ right) = inner := by
  have runs : RunsTo (isBlank · = true) (inner ++ right).reverse right.reverse inner.reverse :=
    ⟨List.reverse_append, fun c member => blank c (List.mem_reverse.mp member),
      fun c first => ends c (by rwa [List.head?_reverse] at first)⟩
  rw [trimEnd, runs.dropWhile_eq fun _ => Iff.rfl, List.reverse_reverse]

/-- Trimming is the one way to take the white space off both ends. -/
theorem trims_iff : Trims text inner ↔ trim text = inner := by
  constructor
  · rintro ⟨⟨left, right, rfl, leftBlank, rightBlank⟩, starts, ends⟩
    rw [trim, List.append_assoc]
    cases inner with
    | nil =>
        have allBlank : ∀ c ∈ left ++ ([] ++ right), isBlank c = true := by
          intro c member
          rcases List.mem_append.mp member with inLeft | inRight
          · exact leftBlank c inLeft
          · exact rightBlank c inRight
        rw [trimStart, List.dropWhile_eq_nil_iff.mpr allBlank]
        rfl
    | cons c more =>
        have inFront : ∀ d ∈ (c :: more ++ right).head?, ¬ isBlank d = true := starts
        rw [trimStart_append leftBlank inFront, trimEnd_append rightBlank ends]
  · rintro rfl
    exact trims_trim text

end ConfigScan.Text
