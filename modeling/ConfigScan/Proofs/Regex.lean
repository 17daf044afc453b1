/-
Module: ConfigScan.Proofs.Regex
Purpose: What the outcomes of an expression are, construct by construct: a literal text, a greedy
  run of characters of one class, and where the search for the leftmost match ends.
Main exports: Regex.outcomes_spelled, Regex.flatMap_outcomes_many_one, Regex.head?_outcomes_group,
  Regex.findAll_of_matchAt?, Regex.findAll_cons_of_none
-/
import ConfigScan.Proofs.Text.Runs
import ConfigScan.Regex

namespace ConfigScan.Regex

variable {regex first second : Regex} {charClass : CharClass} {m : Match}
variable {c : Char} {rest text : List Char}

/-! ### Construct by construct -/

theorem outcomes_seq (first second : Regex) (m : Match) :
    (seq first second).outcomes m = (first.outcomes m).flatMap second.outcomes := rfl

theorem outcomes_either (preferred other : Regex) (m : Match) :
    (either preferred other).outcomes m = preferred.outcomes m ++ other.outcomes m := rfl

theorem outcomes_optional (inner : Regex) (m : Match) :
    (optional inner).outcomes m = inner.outcomes m ++ [m] := rfl

theorem outcomes_group (number : Nat) (inner : Regex) (m : Match) :
    (group number inner).outcomes m = (inner.outcomes m).map (.keep number m.rest) := rfl

/-! ### Literal texts -/

@[simp] theorem contains_range_self {d : Char} :
    ({ items := [.range c c] } : CharClass).contains d = true ↔ c = d := by
  simp only [CharClass.contains, ClassItem.contains, List.any_cons, List.any_nil, Bool.or_false,
    Bool.bne_false, Bool.and_eq_true, decide_eq_true_eq]
  constructor
  · rintro ⟨low, high⟩
    exact Char.le_antisymm low high
  · rintro rfl
    exact ⟨Char.le_refl c, Char.le_refl c⟩

/-- A literal text is passed where it stands. -/
theorem outcomes_spelled (chars : List Char) (starts : m.rest = chars ++ rest) :
    (spelled chars).outcomes m = [{ m with rest }] := by
  induction chars generalizing m with
  | nil =>
      rw [List.nil_append] at starts
      rw [spelled, outcomes, ← starts]
  | cons c chars inductionHypothesis =>
      rw [List.cons_append] at starts
      simp only [spelled, outcomes, starts, contains_range_self.mpr, if_true, List.flatMap_cons,
        List.flatMap_nil, List.append_nil]
      exact inductionHypothesis rfl

/-- A literal text is in the way of everything else. -/
theorem outcomes_spelled_eq_nil (chars : List Char) (starts : ¬ chars <+: m.rest) :
    (spelled chars).outcomes m = [] := by
  induction chars generalizing m with
  | nil => exact absurd List.nil_prefix starts
  | cons c chars inductionHypothesis =>
      rw [spelled, outcomes, outcomes]
      split
      · rfl
      · next d rest rest_eq =>
          split
          · next same =>
              obtain rfl := contains_range_self.mp same
              rw [rest_eq, List.cons_prefix_cons] at starts
              simp only [List.flatMap_cons, List.flatMap_nil, List.append_nil]
              exact inductionHypothesis fun more => starts ⟨rfl, more⟩
          · rfl

/-- A literal text is passed part by part. -/
theorem outcomes_spelled_append (front back : List Char) (m : Match) :
    (spelled (front ++ back)).outcomes m =
      ((spelled front).outcomes m).flatMap (spelled back).outcomes := by
  induction front generalizing m with
  | nil => exact (List.append_nil _).symm
  | cons c front inductionHypothesis =>
      simp only [List.cons_append, spelled, outcomes, List.flatMap_assoc]
      exact congrArg (List.flatMap · _) (funext inductionHypothesis)

/-! ### One after another -/

/-- What is tried first stays the first outcome as long as one can go on from it. -/
theorem head?_outcomes_seq {after last : Match} (firstly : (first.outcomes m).head? = some after)
    (secondly : (second.outcomes after).head? = some last) :
    ((seq first second).outcomes m).head? = some last := by
  obtain ⟨others, outcomes_eq⟩ := List.head?_eq_some_iff.mp firstly
  rw [outcomes_seq, outcomes_eq, List.flatMap_cons, List.head?_append, secondly]
  rfl

/-! ### Runs of one class -/

theorem outcomes_one_cons (has : charClass.contains c = true) (rest_eq : m.rest = c :: rest) :
    (one charClass).outcomes m = [{ m with rest }] := by
  rw [outcomes, rest_eq]
  exact if_pos has

theorem outcomes_one_eq_nil (stops : ∀ c ∈ m.rest.head?, ¬ charClass.contains c = true) :
    (one charClass).outcomes m = [] := by
  rw [outcomes]
  split
  · rfl
  · next c rest rest_eq =>
      rw [rest_eq] at stops
      exact if_neg (stops c rfl)

/-- A run goes on as long as it can, and then gives back its characters one by one. -/
theorem outcomes_many_one_cons (has : charClass.contains c = true) (rest_eq : m.rest = c :: rest) :
    (many (one charClass)).outcomes m = (many (one charClass)).outcomes { m with rest } ++ [m] := by
  simp [outcomes, rounds, rest_eq, has]

theorem outcomes_many_one_of_stops
    (stops : ∀ c ∈ m.rest.head?, ¬ charClass.contains c = true) :
    (many (one charClass)).outcomes m = [m] := by
  rw [outcomes]
  cases m.rest.length with
  | zero => rfl
  | succ fuel => rw [rounds, outcomes_one_eq_nil stops]; rfl

/-- The longest run is tried first. -/
theorem head?_outcomes_many_one (charClass : CharClass) (m : Match) :
    ((many (one charClass)).outcomes m).head? =
      some { m with rest := m.rest.dropWhile charClass.contains } := by
  obtain ⟨text, groups⟩ := m
  induction text with
  | nil => rfl
  | cons c rest inductionHypothesis =>
      by_cases has : charClass.contains c = true
      · rw [outcomes_many_one_cons has rfl, List.dropWhile_cons_of_pos has, List.head?_append,
          inductionHypothesis]
        rfl
      · rw [outcomes_many_one_of_stops (by rintro _ ⟨⟩; exact has), List.dropWhile_cons_of_neg has]
        rfl

/-- Of a run, only the longest one counts if what follows cannot start with a character of the
    class. -/
theorem flatMap_outcomes_many_one {next : Match → List Match} (m : Match)
    (stuck : ∀ c rest, charClass.contains c = true → next { m with rest := c :: rest } = []) :
    ((many (one charClass)).outcomes m).flatMap next =
      next { m with rest := m.rest.dropWhile charClass.contains } := by
  obtain ⟨text, groups⟩ := m
  induction text with
  | nil => exact List.append_nil _
  | cons c rest inductionHypothesis =>
      by_cases has : charClass.contains c = true
      · rw [outcomes_many_one_cons has rfl, List.dropWhile_cons_of_pos has, List.flatMap_append,
          inductionHypothesis stuck, List.flatMap_cons, stuck c rest has]
        exact List.append_nil _
      · rw [outcomes_many_one_of_stops (by rintro _ ⟨⟩; exact has), List.dropWhile_cons_of_neg has]
        exact List.append_nil _

/-! ### Groups -/

theorem Match.keep_of_append (number : Nat) {start run : List Char}
    (start_eq : start = run ++ m.rest) :
    m.keep number start = { m with groups := (number, run) :: m.groups } := by
  rw [keep, start_eq, List.length_append, Nat.add_sub_cancel, List.take_left]

/-- A group of one character or more of a class takes the longest run of them first. -/
theorem head?_outcomes_group {kind : Char → Prop} {run after : List Char} (number : Nat)
    (decides : ∀ c, charClass.contains c = true ↔ kind c)
    (runs : Text.RunsTo kind m.rest run after) (nonempty : run ≠ []) :
    ((group number (atLeastOne (one charClass))).outcomes m).head? =
      some { rest := after, groups := (number, run) :: m.groups } := by
  obtain ⟨c, more, rfl⟩ := List.exists_cons_of_ne_nil nonempty
  have passes : charClass.contains c = true := (decides c).mpr (runs.all c List.mem_cons_self)
  have longest := runs.dropWhile_eq decides
  have text_eq : m.rest = c :: (more ++ after) := runs.text_eq
  rw [text_eq, List.dropWhile_cons_of_pos passes] at longest
  have first : ((atLeastOne (one charClass)).outcomes m).head? = some { m with rest := after } := by
    rw [atLeastOne, outcomes_seq, outcomes_one_cons passes text_eq, List.flatMap_singleton,
      head?_outcomes_many_one, longest]
  have split : m.rest = (c :: more) ++ ({ m with rest := after } : Match).rest := runs.text_eq
  rw [outcomes_group, List.head?_map, first, Option.map_some, Match.keep_of_append number split]

theorem outcomes_group_eq_nil (number : Nat)
    (stops : ∀ c ∈ m.rest.head?, ¬ charClass.contains c = true) :
    (group number (atLeastOne (one charClass))).outcomes m = [] := by
  rw [outcomes_group, atLeastOne, outcomes_seq, outcomes_one_eq_nil stops]
  rfl

/-! ### Searching -/

theorem matchAt?_eq_none : regex.matchAt? text = none ↔ regex.outcomes { rest := text } = [] :=
  List.head?_eq_none_iff

/-- A match further to the right is found where nothing matches at the front. -/
theorem find?_cons_of_none (nowhere : regex.matchAt? (c :: rest) = none) :
    regex.find? (c :: rest) = regex.find? rest := by
  rw [find?, nowhere]
  rfl

theorem find?_of_matchAt? (found : regex.matchAt? text = some m) : regex.find? text = some m := by
  cases text with
  | nil => exact found
  | cons c rest =>
      rw [find?, found]
      rfl

theorem findAll_cons_of_none {fuel : Nat} (nowhere : regex.matchAt? (c :: rest) = none) :
    regex.findAll fuel (c :: rest) = regex.findAll fuel rest := by
  cases fuel with
  | zero => rfl
  | succ fuel => rw [findAll, findAll, find?_cons_of_none nowhere]

theorem findAll_of_matchAt? {fuel : Nat} (found : regex.matchAt? text = some m) :
    regex.findAll (fuel + 1) text = m :: regex.findAll fuel m.rest := by
  rw [findAll, find?_of_matchAt? found]

end ConfigScan.Regex
