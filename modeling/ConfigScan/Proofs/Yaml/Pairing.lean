/-
Module: ConfigScan.Proofs.Yaml.Pairing
Purpose: The n-th key of a mapping gets the n-th line with a key at the column of the mapping,
  whichever key the line writes.
Main exports: InStep, Outline.columns, Outline.split_of_findKeys, Outline.findKeys_of_inStep,
  Outline.findKeys_of_out_of_step, Value.getElem?_markEntries
-/
import ConfigScan.Proofs.Yaml.MappingLines
import Mathlib.Data.List.Count

namespace ConfigScan.Yaml

/-- The columns of the keys on some lines are in step with a number of keys at a column: as many of
    them are that column, and the first of them is. -/
def InStep (column count : Nat) (columns : List Nat) : Prop :=
  (∀ first ∈ columns.head?, first = column) ∧ columns.count column = count

instance (column count : Nat) (columns : List Nat) : Decidable (InStep column count columns) := by
  unfold InStep
  infer_instance

namespace Outline

/-- The columns of the keys that are written on the lines. -/
def columns (lines : Outline) : List Nat := lines.filterMap fun line => line.key.map (·.column)

theorem columns_append (front back : Outline) :
    columns (front ++ back) = columns front ++ columns back := List.filterMap_append

theorem columns_cons_of_key {line : OutlineLine} {key : KeyLine} (written : line.key = some key)
    (rest : Outline) : columns (line :: rest) = key.column :: columns rest := by
  simp [columns, written]

variable {least column place n : Nat} {outline lines front later : Outline}
  {position : KeyPosition}

/-! ### The line of the n-th key -/

/-- The line that a search finds, and those in front of it. -/
theorem split_of_findKey {sought : Option Nat}
    (found : findKey least sought lines = some (position, later)) :
    ∃ front line key, lines = front ++ line :: later ∧ line.index = position.line ∧
      line.key = some key ∧ key.column = position.column ∧
      (sought.all (· == position.column)) = true ∧
      ∀ other ∈ front, matchesKey sought other = false := by
  induction lines with
  | nil => cases found
  | cons line rest inductionHypothesis =>
      cases ended : outside least sought line with
      | true =>
          rw [findKey_cons_of_outside ended] at found
          cases found
      | false =>
          cases taken : matchesKey sought line with
          | true =>
              simp only [matchesKey, Option.any_eq_true] at taken
              obtain ⟨key, written, same⟩ := taken
              rw [findKey_cons_of_matchesKey ended written same] at found
              cases found
              exact ⟨[], line, key, rfl, rfl, written, rfl, same, by simp⟩
          | false =>
              have passed : passes least sought line = true := by simp [passes, ended, taken]
              rw [findKey_cons_of_passes passed] at found
              obtain ⟨front, target, key, split, index, written, same, all, none⟩ :=
                inductionHypothesis found
              refine ⟨line :: front, target, key, by rw [split]; rfl, index, written, same, all, ?_⟩
              intro other member
              rcases List.mem_cons.mp member with first | inFront
              · rw [first]
                exact taken
              · exact none other inFront

/-- Lines that a search does not take write no key at the column that it looks for. -/
theorem count_columns_of_not_matchesKey {sought : Option Nat}
    (same : sought.all (· == column) = true)
    (none : ∀ line ∈ lines, matchesKey sought line = false) : (columns lines).count column = 0 := by
  rw [List.count_eq_zero]
  intro member
  obtain ⟨line, inLines, columnEq⟩ := List.mem_filterMap.mp member
  obtain ⟨key, written, keyColumn⟩ := Option.map_eq_some_iff.mp columnEq
  have mismatch := none line inLines
  simp [matchesKey, written, keyColumn, same] at mismatch

/-- Lines in front of the first key write none at all. -/
theorem columns_of_not_matchesKey (none : ∀ line ∈ lines, matchesKey none line = false) :
    columns lines = [] := by
  rw [columns, List.filterMap_eq_nil_iff]
  intro line member
  have mismatch := none line member
  cases written : line.key with
  | none => rfl
  | some key => simp [matchesKey, written] at mismatch

/-- The line that is found for a key has as many lines with keys at its column in front of it as
    there are keys in front. -/
theorem split_of_findKeys {sought : Option Nat}
    (first : ∀ found ∈ findKey least sought lines, found.1.column = column)
    (same : sought.all (· == column) = true)
    (taken : (findKeys least sought (List.replicate n true) lines)[place]? =
      some (some position)) :
    position.column = column ∧
      ∃ front line key later, lines = front ++ line :: later ∧ line.index = position.line ∧
        line.key = some key ∧ key.column = column ∧ (columns front).count column = place := by
  induction place generalizing lines sought n with
  | zero =>
      cases n with
      | zero => cases taken
      | succ n =>
          rw [List.replicate_succ, findKeys] at taken
          cases found : findKey least sought lines with
          | none => simp [found] at taken
          | some pair =>
              obtain ⟨_, later⟩ := pair
              simp only [found, List.getElem?_cons_zero, Option.some.injEq] at taken
              subst taken
              obtain ⟨front, line, key, split, index, written, keyColumn, _, none⟩ :=
                split_of_findKey found
              have isColumn := first _ found
              exact ⟨isColumn, front, line, key, later, split, index, written,
                keyColumn.trans isColumn, count_columns_of_not_matchesKey same none⟩
  | succ place inductionHypothesis =>
      cases n with
      | zero => cases taken
      | succ n =>
          rw [List.replicate_succ, findKeys] at taken
          cases found : findKey least sought lines with
          | none =>
              have inRest := List.mem_of_getElem? taken
              simp [found] at inRest
          | some pair =>
              obtain ⟨head, later⟩ := pair
              obtain ⟨front, line, key, split, _, written, keyColumn, _, none⟩ :=
                split_of_findKey found
              have isColumn := first _ found
              simp only [found, List.getElem?_cons_succ] at taken
              rw [isColumn] at taken
              have firstLater : ∀ next ∈ findKey least (some column) later,
                  next.1.column = column := by
                intro next foundNext
                obtain ⟨_, _, _, _, _, _, _, all, _⟩ := split_of_findKey foundNext
                exact (by simpa using all : column = next.1.column).symm
              obtain ⟨positionColumn, behind, target, targetKey, rest, laterSplit, index,
                targetWritten, targetColumn, count⟩ :=
                inductionHypothesis firstLater (by simp) taken
              refine ⟨positionColumn, front ++ line :: behind, target, targetKey, rest, ?_, index,
                targetWritten, targetColumn, ?_⟩
              · rw [split, laterSplit, List.append_assoc, List.cons_append]
              · rw [columns_append, columns_cons_of_key written, List.count_append,
                  count_columns_of_not_matchesKey same none, keyColumn, isColumn,
                  List.count_cons_self, count, Nat.zero_add]

/-! ### The key of the n-th line -/

variable {own : OutlineLine} {key : KeyLine}

/-- A line with a key at the column is found for the key that has as many keys in front of it as the
    line has such lines, when no line up to it ends the search. -/
theorem findKeys_of_indented (written : own.key = some key) (isColumn : key.column = column)
    (front : Outline) : ∀ {n : Nat}, (∀ line ∈ front ++ [own], column ≤ line.indent) →
    (columns front).count column < n →
    (findKeys least (some column) (List.replicate n true)
      (front ++ own :: later))[(columns front).count column]? =
        some (some { line := own.index, column, inline := key.isInline }) := by
  induction front with
  | nil =>
      intro n indented enough
      obtain ⟨n, rfl⟩ := Nat.exists_eq_add_one_of_ne_zero (Nat.ne_of_gt enough)
      have inside : outside least (some column) own = false :=
        decide_eq_false (Nat.not_lt.mpr (indented own List.mem_cons_self))
      subst isColumn
      rw [List.replicate_succ, findKeys, List.nil_append,
        findKey_cons_of_matchesKey inside written (by simp)]
      rfl
  | cons line others inductionHypothesis =>
      intro n indented enough
      have inside : outside least (some column) line = false :=
        decide_eq_false (Nat.not_lt.mpr (indented line List.mem_cons_self))
      have othersIndented : ∀ other ∈ others ++ [own], column ≤ other.indent :=
        fun other member => indented other (List.mem_cons_of_mem _ member)
      cases taken : matchesKey (some column) line with
      | true =>
          simp only [matchesKey, Option.any_eq_true] at taken
          obtain ⟨lineKey, lineWritten, same⟩ := taken
          have lineColumn : column = lineKey.column := by simpa using same
          rw [columns_cons_of_key lineWritten, ← lineColumn, List.count_cons_self] at enough ⊢
          obtain ⟨n, rfl⟩ := Nat.exists_eq_add_one_of_ne_zero (Nat.ne_of_gt
            (Nat.lt_of_le_of_lt (Nat.zero_le _) enough))
          rw [List.replicate_succ, findKeys, List.cons_append,
            findKey_cons_of_matchesKey inside lineWritten same]
          simp only [← lineColumn, List.getElem?_cons_succ]
          exact inductionHypothesis othersIndented (Nat.lt_of_succ_lt_succ enough)
      | false =>
          have passed : passes least (some column) line = true := by simp [passes, inside, taken]
          have noKey : (columns (line :: others)).count column = (columns others).count column := by
            have none : ∀ other ∈ [line], matchesKey (some column) other = false := by
              simpa using taken
            rw [← List.singleton_append, columns_append, List.count_append,
              count_columns_of_not_matchesKey (by simp) none, Nat.zero_add]
          rw [noKey] at enough ⊢
          rw [List.cons_append, findKeys_cons_of_passes passed]
          exact inductionHypothesis othersIndented enough

/-- The same holds when the column is not known yet: the first line with a key must be at the
    column, and it may be indented less than that behind the dash of an item. -/
theorem findKeys_of_split (written : own.key = some key) (isColumn : key.column = column)
    (front : Outline) (deep : ∀ line ∈ front ++ [own], least ≤ line.column)
    (indented : ∀ line ∈ (front ++ [own]).tail, column ≤ line.indent)
    (first : (columns (front ++ [own])).head? = some column)
    (enough : (columns front).count column < n) :
    (findKeys least none (List.replicate n true)
      (front ++ own :: later))[(columns front).count column]? =
        some (some { line := own.index, column, inline := key.isInline }) := by
  induction front with
  | nil =>
      obtain ⟨n, rfl⟩ := Nat.exists_eq_add_one_of_ne_zero (Nat.ne_of_gt enough)
      have inside : outside least none own = false :=
        decide_eq_false (Nat.not_lt.mpr (deep own List.mem_cons_self))
      subst isColumn
      rw [List.replicate_succ, findKeys, List.nil_append,
        findKey_cons_of_matchesKey inside written rfl]
      rfl
  | cons line others inductionHypothesis =>
      have inside : outside least none line = false :=
        decide_eq_false (Nat.not_lt.mpr (deep line List.mem_cons_self))
      have othersIndented : ∀ other ∈ others ++ [own], column ≤ other.indent := indented
      cases lineKey : line.key with
      | some otherKey =>
          rw [List.cons_append, columns_cons_of_key lineKey, List.head?_cons,
            Option.some.injEq] at first
          rw [columns_cons_of_key lineKey, first, List.count_cons_self] at enough ⊢
          obtain ⟨n, rfl⟩ := Nat.exists_eq_add_one_of_ne_zero (Nat.ne_of_gt
            (Nat.lt_of_le_of_lt (Nat.zero_le _) enough))
          rw [List.replicate_succ, findKeys, List.cons_append,
            findKey_cons_of_matchesKey inside lineKey rfl]
          simp only [first, List.getElem?_cons_succ]
          exact findKeys_of_indented written isColumn others othersIndented
            (Nat.lt_of_succ_lt_succ enough)
      | none =>
          have passed : passes least none line = true := by
            simp [passes, inside, matchesKey, lineKey]
          have noKey : ∀ rest, columns (line :: rest) = columns rest := by
            intro rest
            simp [columns, lineKey]
          rw [noKey] at enough ⊢
          rw [List.cons_append, noKey] at first
          rw [List.cons_append, findKeys_cons_of_passes passed]
          exact inductionHypothesis
            (fun other member => deep other (List.mem_cons_of_mem _ member))
            (fun other member => othersIndented other (List.mem_of_mem_tail member)) first enough

/-- A key is found on its own line when the keys in front of that are in step with those in front of
    it. -/
theorem findKeys_of_inStep (written : own.key = some key) (isColumn : key.column = column)
    (front : Outline) (deep : ∀ line ∈ front ++ [own], least ≤ line.column)
    (indented : ∀ line ∈ (front ++ [own]).tail, column ≤ line.indent)
    (inStep : InStep column place (columns front)) (enough : place < n) :
    (findKeys least none (List.replicate n true) (front ++ own :: later))[place]? =
      some (some { line := own.index, column, inline := key.isInline }) := by
  obtain ⟨first, count⟩ := inStep
  rw [← count] at enough ⊢
  apply findKeys_of_split written isColumn front deep indented ?_ enough
  rw [columns_append, columns_cons_of_key written, isColumn, List.head?_append]
  cases head : (columns front).head? with
  | none => rfl
  | some other => rw [first other head, Option.some_or]

/-! ### Two lines of one outline -/

/-- Of two places in lines in order, one is in front of the other, or they are the same. -/
theorem order_of_splits {front front' later' : Outline} {line line' : OutlineLine}
    (sorted : lines.Pairwise fun earlier later => earlier.index < later.index)
    (split : lines = front ++ line :: later) (split' : lines = front' ++ line' :: later') :
    (line.index < line'.index ∧ ∃ between, front' = front ++ line :: between) ∨
      (line = line' ∧ front = front') ∨
      (line'.index < line.index ∧ line ∈ later' ∧
        ∃ between, front = front' ++ line' :: between) := by
  have both := split.symm.trans split'
  rcases List.append_eq_append_iff.mp both with ⟨between, frontEq, rest⟩ | ⟨between, frontEq, rest⟩
  · cases between with
    | nil =>
        rw [List.nil_append] at rest
        rw [List.append_nil] at frontEq
        exact Or.inr (Or.inl ⟨(List.cons.inj rest).1, frontEq.symm⟩)
    | cons first between =>
        obtain ⟨rfl, laterEq⟩ := List.cons.inj rest
        refine Or.inl ⟨?_, between, frontEq⟩
        rw [split] at sorted
        refine (List.pairwise_cons.mp (List.pairwise_append.mp sorted).2.1).1 line' ?_
        rw [laterEq]
        exact List.mem_append_right _ List.mem_cons_self
  · cases between with
    | nil =>
        rw [List.nil_append] at rest
        rw [List.append_nil] at frontEq
        exact Or.inr (Or.inl ⟨(List.cons.inj rest).1.symm, frontEq⟩)
    | cons first between =>
        obtain ⟨rfl, laterEq⟩ := List.cons.inj rest
        have member : line ∈ later' := by
          rw [laterEq]
          exact List.mem_append_right _ List.mem_cons_self
        rw [split'] at sorted
        exact Or.inr (Or.inr ⟨(List.pairwise_cons.mp (List.pairwise_append.mp sorted).2.1).1
          line member, member, between, frontEq⟩)

/-! ### Keys that are not found on their own lines -/

/-- What is found first is no later than any line with a key. It stands at the common column only if
    that is where the first line with a key has it. -/
theorem first_of_findKey (wellFormed : outline.WellFormed) {start : Nat}
    (split : outline.startingAt start = front ++ own :: later) (written : own.key = some key)
    {first : KeyPosition} {rest : Outline}
    (found : findKey least none (outline.startingAt start) = some (first, rest)) :
    (∃ line ∈ front ++ [own], line.index = first.line ∧ line.column = first.column) ∧
      first.line ≤ own.index ∧ (first.column ≠ key.column → first.line < own.index) ∧
      ∀ column ∈ (columns front).head?, column = first.column := by
  have sorted := sorted_startingAt wellFormed start
  obtain ⟨inFront, line, lineKey, lineSplit, index, lineWritten, column, _, none⟩ :=
    split_of_findKey found
  have member : line ∈ outline := by
    refine ((mem_startingAt wellFormed).mp (?_ : line ∈ outline.startingAt start)).1
    rw [lineSplit]
    exact List.mem_append_right _ List.mem_cons_self
  have lineColumn : line.column = first.column :=
    (wellFormed.key_column line member lineKey lineWritten).symm.trans column
  rcases order_of_splits sorted lineSplit split with
    ⟨lt, between, frontEq⟩ | ⟨same, frontEq⟩ | ⟨_, _, between, frontEq⟩
  · refine ⟨⟨line, ?_, index, lineColumn⟩, by omega, fun _ => by omega, ?_⟩
    · rw [frontEq]
      simp
    · intro other head
      rw [frontEq, columns_append, columns_of_not_matchesKey none, List.nil_append,
        columns_cons_of_key lineWritten] at head
      cases head
      exact column
  · refine ⟨⟨line, ?_, index, lineColumn⟩, by rw [← same]; omega, ?_, ?_⟩
    · rw [same]
      exact List.mem_append_right _ List.mem_cons_self
    · intro otherColumn
      rw [same, written] at lineWritten
      cases lineWritten
      exact absurd column.symm otherColumn
    · intro other head
      rw [← frontEq, columns_of_not_matchesKey none] at head
      cases head
  · have passedOver := none own (by rw [frontEq]; simp)
    simp [matchesKey, written] at passedOver

/-- A key whose own line has lines in front of it that are not in step is found in front of that,
    at no lesser column, or on a line with a key behind it, with no line between that is indented
    less. -/
theorem findKeys_of_out_of_step (wellFormed : outline.WellFormed) {start : Nat}
    (split : outline.startingAt start = front ++ own :: later) (written : own.key = some key)
    (isColumn : key.column = column) (deep : ∀ line ∈ front ++ [own], column ≤ line.column)
    (outOfStep : ¬ InStep column place (columns front))
    (taken : (findKeys least none (List.replicate n true) (outline.startingAt start))[place]? =
      some (some position)) :
    (position.line < own.index ∧ column ≤ position.column) ∨
      ∃ line ∈ later, line.index = position.line ∧ (∃ found, line.key = some found ∧
        found.column = column) ∧ outline.Indented column (own.index + 1) (line.index + 1) := by
  have sorted := sorted_startingAt wellFormed start
  cases found : findKey least none (outline.startingAt start) with
  | none =>
      have missed := findKeys_of_not_found found (List.replicate n true)
      rw [List.filterMap_eq_nil_iff] at missed
      exact absurd (missed _ (List.mem_of_getElem? taken)) (Option.some_ne_none position)
  | some pair =>
      obtain ⟨first, rest⟩ := pair
      obtain ⟨⟨firstLine, firstMember, _, firstColumn⟩, first_le, first_lt, firstInFront⟩ :=
        first_of_findKey wellFormed split written found
      have first_deep : column ≤ first.column := firstColumn ▸ deep firstLine firstMember
      have firstEq : ∀ pair ∈ findKey least none (outline.startingAt start),
          pair.1.column = first.column := by
        intro pair isPair
        rw [found] at isPair
        cases isPair
        rfl
      obtain ⟨positionColumn, inFront, line, lineKey, behind, lineSplit, index, lineWritten,
        lineColumn, count⟩ := split_of_findKeys firstEq rfl taken
      have head : ((findKeys least none (List.replicate n true)
          (outline.startingAt start)).filterMap id).head? = some first := by
        refine findKeys_of_found found ?_
        cases n with
        | zero => cases taken
        | succ n => rfl
      have passed := (findKeys_deep wellFormed least _ start head).2.2.2 position
        (List.mem_filterMap.mpr ⟨some position, List.mem_of_getElem? taken, rfl⟩)
      by_cases same : first.column = column
      · rw [same] at lineColumn count positionColumn passed firstInFront
        rcases order_of_splits sorted lineSplit split with
          ⟨lt, _⟩ | ⟨_, frontEq⟩ | ⟨_, member, _⟩
        · exact Or.inl ⟨by omega, by omega⟩
        · rw [frontEq] at count
          exact absurd ⟨firstInFront, count⟩ outOfStep
        · refine Or.inr ⟨line, member, index, ⟨lineKey, lineWritten, lineColumn⟩, ?_⟩
          intro other inOutline lower upper
          exact passed other inOutline (by omega) (by omega)
      · -- the own line is indented less than the key found first, so nothing is found behind it
        refine Or.inl ⟨?_, by omega⟩
        have before := first_lt fun equal => same (equal.trans isColumn)
        have member : own ∈ outline := by
          refine ((mem_startingAt wellFormed).mp (?_ : own ∈ outline.startingAt start)).1
          rw [split]
          exact List.mem_append_right _ List.mem_cons_self
        have indent_le := wellFormed.indent_le own member
        have ownColumn := wellFormed.key_column own member key written
        by_contra tooFar
        have deeper := passed own member (by omega) (by omega)
        omega

end Outline

/-! ### The value of the n-th key -/

namespace Value

variable {outline : Outline} {least next : Nat}

/-- The node of a value whose key has been given a place, or none. -/
def placed (outline : Outline) (value : Value) : Option KeyPosition → Node
  | some position =>
      (mark outline (position.column + 1) (!position.inline) (position.line + 1) value).1
  | none => value.unmarked

/-- Among scalar keys the n-th value is marked from the n-th place on. -/
theorem getElem?_markEntries {key value : Value} : ∀ {entries : List (Value × Value)}
    (_ : ∀ entry ∈ entries, entry.1.key?.isSome = true) {positions : List (Option KeyPosition)}
    {next place : Nat}, entries[place]? = some (key, value) →
    ((markEntries outline least positions next entries).1[place]?).map (·.2) =
      some (placed outline value positions[place]?.join)
  | [], _, _, _, _, found => by cases found
  | (firstKey, firstValue) :: rest, scalars, positions, next, place, found => by
      obtain ⟨name, isName⟩ := Option.isSome_iff_exists.mp (scalars _ List.mem_cons_self)
      have restScalars : ∀ entry ∈ rest, entry.1.key?.isSome = true :=
        fun entry member => scalars entry (List.mem_cons_of_mem _ member)
      simp only at isName
      cases head : positions.head?.join with
      | none =>
          rw [markEntries_cons_of_unplaced head, isName]
          cases place with
          | zero =>
              cases found
              rw [List.head?_eq_getElem?] at head
              rw [head]
              rfl
          | succ place =>
              have later : ((markEntries outline least positions.tail next rest).1[place]?).map
                  (·.2) = some (placed outline value positions.tail[place]?.join) :=
                getElem?_markEntries restScalars found
              rw [List.getElem?_tail] at later
              exact later
      | some position =>
          obtain ⟨others, rfl⟩ : ∃ others, positions = some position :: others := by
            cases positions with
            | nil => cases head
            | cons first others =>
                have isFirst : first = some position := head
                exact ⟨others, by rw [isFirst]⟩
          rw [markEntries_cons_of_placed, isName]
          cases place with
          | zero =>
              cases found
              rfl
          | succ place => exact getElem?_markEntries restScalars found

end Value

end ConfigScan.Yaml
