/-
Module: ConfigScan.Proofs.Yaml.Outline
Purpose: What every outline has in common, and how far the search for keys can reach in one. An
  outline of lines is in order, and no line is searched beyond the first one that stands in front
  of the column asked for.
Main exports: OutlineLine.ofLine, Outline.WellFormed, Outline.wellFormed_ofLines,
  Outline.startingAt_ofLines, Outline.Fence, Outline.findKey_bounds, Outline.lastLine_bounds
-/
import ConfigScan.Yaml.Outline
import Mathlib.Data.List.TakeWhile

namespace ConfigScan.Yaml

/-! ### Columns of a line -/

/-- Passing spaces and dashes never goes back. -/
theorem le_stripDashesFrom (column : Nat) (line : List Char) :
    column ≤ (stripDashesFrom column line).1 := by
  fun_induction stripDashesFrom column line with
  | case1 column rest inductionHypothesis => omega
  | case2 column => simp
  | case3 column rest inductionHypothesis => omega
  | case4 column rest => simp

theorem indent_space (line : List Char) : indent (' ' :: line) = indent line + 1 := by
  simp [indent]

theorem indent_of_ne {c : Char} (notSpace : c ≠ ' ') (line : List Char) :
    indent (c :: line) = 0 := by
  simp [indent, notSpace]

/-- The text behind spaces and dashes does not start in front of the indentation. -/
theorem indent_le_stripDashesFrom (column : Nat) (line : List Char) :
    column + indent line ≤ (stripDashesFrom column line).1 := by
  induction line generalizing column with
  | nil => simp [indent, stripDashesFrom]
  | cons c rest inductionHypothesis =>
      by_cases space : c = ' '
      · subst space
        have step := inductionHypothesis (column + 1)
        rw [stripDashesFrom, indent_space]
        omega
      · rw [indent_of_ne space]
        exact le_stripDashesFrom column (c :: rest)

/-- A key line starts its key where its spaces and dashes end. -/
theorem KeyLine.read?_column {line : List Char} {key : KeyLine}
    (found : KeyLine.read? line = some key) : key.column = (stripDashes line).1 := by
  unfold KeyLine.read? at found
  generalize stripped : stripDashes line = parts at found ⊢
  obtain ⟨column, text⟩ := parts
  cases text with
  | nil => simp at found
  | cons c rest =>
      simp only at found
      split at found
      · cases found
      · simp only [bind, Option.bind_eq_some_iff] at found
        obtain ⟨_, _, _, _, equality⟩ := found
        cases equality
        rfl

/-! ### Outlines of lines -/

/-- What the outline holds of a line with content that has `index` lines in front of it. -/
def OutlineLine.ofLine (index : Nat) (line : List Char) : OutlineLine :=
  { index
    indent := Yaml.indent line
    column := (stripDashes line).1
    isDash := isDashLine line
    isDocumentMarker := Yaml.isDocumentMarker line
    key := KeyLine.read? line }

namespace Outline

@[simp] theorem ofLinesFrom_nil (index : Nat) : ofLinesFrom index [] = [] := rfl

theorem ofLinesFrom_cons_content {line : List Char} (content : isContent line = true)
    (index : Nat) (rest : List (List Char)) :
    ofLinesFrom index (line :: rest) =
      OutlineLine.ofLine index line :: ofLinesFrom (index + 1) rest := by
  simp [ofLinesFrom, content, OutlineLine.ofLine]

theorem ofLinesFrom_cons_blank {line : List Char} (blank : isContent line = false)
    (index : Nat) (rest : List (List Char)) :
    ofLinesFrom index (line :: rest) = ofLinesFrom (index + 1) rest := by
  simp [ofLinesFrom, blank]

theorem ofLinesFrom_append (index : Nat) (front back : List (List Char)) :
    ofLinesFrom index (front ++ back) =
      ofLinesFrom index front ++ ofLinesFrom (index + front.length) back := by
  induction front generalizing index with
  | nil => simp
  | cons line rest inductionHypothesis =>
      have shift : index + (line :: rest).length = index + 1 + rest.length := by
        simp only [List.length_cons]
        omega
      rw [List.cons_append, shift]
      cases content : isContent line with
      | true =>
          rw [ofLinesFrom_cons_content content, ofLinesFrom_cons_content content,
            inductionHypothesis, List.cons_append]
      | false =>
          rw [ofLinesFrom_cons_blank content, ofLinesFrom_cons_blank content,
            inductionHypothesis]

/-- Every line of an outline was made from a line with content at its index. -/
theorem mem_ofLinesFrom {index : Nat} {lines : List (List Char)} {line : OutlineLine}
    (member : line ∈ ofLinesFrom index lines) :
    ∃ text ∈ lines, isContent text = true ∧ line = OutlineLine.ofLine line.index text ∧
      index ≤ line.index ∧ line.index < index + lines.length := by
  induction lines generalizing index with
  | nil => cases member
  | cons first rest inductionHypothesis =>
      have step : line ∈ ofLinesFrom (index + 1) rest →
          ∃ text ∈ first :: rest, isContent text = true ∧
            line = OutlineLine.ofLine line.index text ∧
            index ≤ line.index ∧ line.index < index + (first :: rest).length := by
        intro later
        obtain ⟨text, textMember, content, equality, lower, upper⟩ := inductionHypothesis later
        refine ⟨text, List.mem_cons_of_mem _ textMember, content, equality, by omega, ?_⟩
        simp only [List.length_cons]
        omega
      cases content : isContent first with
      | true =>
          rw [ofLinesFrom_cons_content content] at member
          rcases List.mem_cons.mp member with same | later
          · subst same
            refine ⟨first, List.mem_cons_self, content, rfl, Nat.le_refl _, ?_⟩
            simp [OutlineLine.ofLine]
          · exact step later
      | false =>
          rw [ofLinesFrom_cons_blank content] at member
          exact step member

/-- The lines of an outline are those with content, each with its index. -/
theorem mem_ofLinesFrom_iff {index : Nat} {lines : List (List Char)} {line : OutlineLine} :
    line ∈ ofLinesFrom index lines ↔
      ∃ place text, lines[place]? = some text ∧ isContent text = true ∧
        line = OutlineLine.ofLine (index + place) text := by
  induction lines generalizing index with
  | nil => simp
  | cons first rest inductionHypothesis =>
      have head : (∃ place text, (first :: rest)[place]? = some text ∧ isContent text = true ∧
            line = OutlineLine.ofLine (index + place) text) ↔
          (isContent first = true ∧ line = OutlineLine.ofLine index first) ∨
            ∃ place text, rest[place]? = some text ∧ isContent text = true ∧
              line = OutlineLine.ofLine (index + 1 + place) text := by
        rw [← Nat.or_exists_add_one]
        simp only [List.getElem?_cons_zero, List.getElem?_cons_succ, Nat.add_zero,
          Option.some.injEq, exists_eq_left', Nat.add_assoc, Nat.add_comm 1]
      rw [head]
      cases content : isContent first with
      | true => rw [ofLinesFrom_cons_content content, List.mem_cons, inductionHypothesis]; simp
      | false => rw [ofLinesFrom_cons_blank content, inductionHypothesis]; simp

theorem mem_ofLines_iff {lines : List (List Char)} {line : OutlineLine} :
    line ∈ ofLines lines ↔
      ∃ text, lines[line.index]? = some text ∧ isContent text = true ∧
        line = OutlineLine.ofLine line.index text := by
  rw [ofLines, mem_ofLinesFrom_iff]
  constructor
  · rintro ⟨place, text, found, content, rfl⟩
    exact ⟨text, by simpa [OutlineLine.ofLine] using found, content, by simp [OutlineLine.ofLine]⟩
  · rintro ⟨text, found, content, equality⟩
    exact ⟨line.index, text, found, content, by rwa [Nat.zero_add]⟩

/-- The lines stand in order, and their columns fit together: nothing starts in front of the
    indentation, and a key starts behind the dashes. -/
structure WellFormed (outline : Outline) : Prop where
  sorted : outline.Pairwise fun earlier later => earlier.index < later.index
  indent_le : ∀ line ∈ outline, line.indent ≤ line.column
  key_column : ∀ line ∈ outline, ∀ key, line.key = some key → key.column = line.column

theorem sorted_ofLinesFrom (index : Nat) (lines : List (List Char)) :
    (ofLinesFrom index lines).Pairwise fun earlier later => earlier.index < later.index := by
  induction lines generalizing index with
  | nil => exact List.Pairwise.nil
  | cons line rest inductionHypothesis =>
      cases content : isContent line with
      | true =>
          rw [ofLinesFrom_cons_content content]
          refine List.Pairwise.cons ?_ (inductionHypothesis (index + 1))
          intro later member
          obtain ⟨_, _, _, _, lower, _⟩ := mem_ofLinesFrom member
          simp only [OutlineLine.ofLine]
          omega
      | false =>
          rw [ofLinesFrom_cons_blank content]
          exact inductionHypothesis (index + 1)

/-- The outline of any lines is well formed. -/
theorem wellFormed_ofLines (lines : List (List Char)) : (ofLines lines).WellFormed where
  sorted := sorted_ofLinesFrom 0 lines
  indent_le := by
    intro line member
    obtain ⟨text, _, _, equality, _⟩ := mem_ofLinesFrom member
    rw [equality]
    simpa [OutlineLine.ofLine, stripDashes] using indent_le_stripDashesFrom 0 text
  key_column := by
    intro line member key found
    obtain ⟨text, _, _, equality, _⟩ := mem_ofLinesFrom member
    rw [equality] at found ⊢
    exact KeyLine.read?_column found

/-- Every line of the outline of a list of lines is one of them. -/
theorem index_lt_length {lines : List (List Char)} {line : OutlineLine}
    (member : line ∈ ofLines lines) : line.index < lines.length := by
  obtain ⟨_, _, _, _, _, upper⟩ := mem_ofLinesFrom member
  omega

theorem startingAt_ofLinesFrom (index skipped : Nat) (lines : List (List Char)) :
    (ofLinesFrom index lines).startingAt (index + skipped) =
      ofLinesFrom (index + skipped) (lines.drop skipped) := by
  have keepAll : ∀ (first : Nat) (rest : List (List Char)),
      (ofLinesFrom first rest).startingAt first = ofLinesFrom first rest := by
    intro first rest
    cases outline : ofLinesFrom first rest with
    | nil => rfl
    | cons head tail =>
        have member : head ∈ ofLinesFrom first rest := by simp [outline]
        obtain ⟨_, _, _, _, lower, _⟩ := mem_ofLinesFrom member
        exact List.dropWhile_cons_of_neg (by simpa using lower)
  induction skipped generalizing index lines with
  | zero => simpa using keepAll index lines
  | succ skipped inductionHypothesis =>
      cases lines with
      | nil => rfl
      | cons line rest =>
          have shift : index + (skipped + 1) = index + 1 + skipped := by omega
          rw [shift, List.drop_succ_cons, ← inductionHypothesis (index + 1) rest]
          cases content : isContent line with
          | true =>
              rw [ofLinesFrom_cons_content content]
              have inFront : index < index + 1 + skipped := by omega
              exact List.dropWhile_cons_of_pos (decide_eq_true inFront)
          | false => rw [ofLinesFrom_cons_blank content]

/-- The outline from a line on is the outline of the lines from there on. -/
theorem startingAt_ofLines (lines : List (List Char)) (next : Nat) :
    (ofLines lines).startingAt next = ofLinesFrom next (lines.drop next) := by
  simpa [ofLines] using startingAt_ofLinesFrom 0 next lines

/-! ### Lines in order -/

/-- In an outline in order, a line in front of one of the first lines is one of the first lines. -/
theorem mem_front_of_index_le {front back : Outline} {line other : OutlineLine}
    (sorted : (front ++ back).Pairwise fun earlier later => earlier.index < later.index)
    (member : line ∈ front) (otherMember : other ∈ front ++ back)
    (inFront : other.index ≤ line.index) : other ∈ front := by
  rcases List.mem_append.mp otherMember with early | late
  · exact early
  · have order := (List.pairwise_append.mp sorted).2.2 line member other late
    omega

/-- The lines from an index on are those of the outline that do not stand in front of it. -/
theorem mem_startingAt {outline : Outline} (wellFormed : outline.WellFormed) {next : Nat}
    {line : OutlineLine} :
    line ∈ outline.startingAt next ↔ line ∈ outline ∧ next ≤ line.index := by
  have sorted := wellFormed.sorted
  clear wellFormed
  induction outline with
  | nil => simp [startingAt]
  | cons head tail inductionHypothesis =>
      obtain ⟨headFirst, tailSorted⟩ := List.pairwise_cons.mp sorted
      by_cases early : head.index < next
      · have skip : startingAt (head :: tail) next = startingAt tail next :=
          List.dropWhile_cons_of_pos (decide_eq_true early)
        rw [skip, List.mem_cons]
        constructor
        · intro member
          obtain ⟨inTail, lower⟩ := (inductionHypothesis tailSorted).mp member
          exact ⟨Or.inr inTail, lower⟩
        · rintro ⟨same | inTail, lower⟩
          · subst same
            omega
          · exact (inductionHypothesis tailSorted).mpr ⟨inTail, lower⟩
      · have keep : startingAt (head :: tail) next = head :: tail :=
          List.dropWhile_cons_of_neg (by simpa using early)
        rw [keep]
        constructor
        · intro member
          refine ⟨member, ?_⟩
          rcases List.mem_cons.mp member with same | later
          · subst same
            omega
          · have order := headFirst line later
            omega
        · exact fun both => both.1

theorem sorted_startingAt {outline : Outline} (wellFormed : outline.WellFormed) (next : Nat) :
    (outline.startingAt next).Pairwise fun earlier later => earlier.index < later.index :=
  wellFormed.sorted.sublist (List.dropWhile_sublist _)

/-- What follows a line of an outline in order is the outline from the next index on. -/
theorem startingAt_succ_of_split {outline front later : Outline} {line : OutlineLine}
    (wellFormed : outline.WellFormed) {next : Nat}
    (split : outline.startingAt next = front ++ line :: later) :
    outline.startingAt (line.index + 1) = later := by
  have whole : outline = outline.takeWhile (·.index < next) ++ front ++ line :: later := by
    rw [List.append_assoc, ← split]
    exact List.takeWhile_append_dropWhile.symm
  have sorted := wellFormed.sorted
  rw [whole] at sorted ⊢
  have order := List.pairwise_append.mp sorted
  have inFront : ∀ other ∈ outline.takeWhile (·.index < next) ++ front,
      decide (other.index < line.index + 1) = true := by
    intro other member
    have before := order.2.2 other member line List.mem_cons_self
    exact decide_eq_true (Nat.lt_succ_of_lt before)
  have behind := (List.pairwise_cons.mp order.2.1).1
  have here : decide (line.index < line.index + 1) = true :=
    decide_eq_true (Nat.lt_succ_self _)
  unfold startingAt
  rw [List.dropWhile_append_of_pos inFront, List.dropWhile_cons, if_pos here]
  cases later with
  | nil => rfl
  | cons follower rest =>
      have after := behind follower List.mem_cons_self
      refine List.dropWhile_cons_of_neg ?_
      simp only [decide_eq_true_eq]
      omega

/-! ### The search for one key -/

/-- The line ends the search for a key at `column`, or for a first key at `least` or deeper. -/
def outside (least : Nat) (column : Option Nat) (line : OutlineLine) : Bool :=
  match column with
  | some c => line.indent < c
  | none => line.column < least

/-- The line writes a key that the search takes. -/
def matchesKey (column : Option Nat) (line : OutlineLine) : Bool :=
  line.key.any fun key => column.all (· == key.column)

/-- The search goes on behind the line. -/
def passes (least : Nat) (column : Option Nat) (line : OutlineLine) : Bool :=
  !outside least column line && !matchesKey column line

theorem findKey_cons (least : Nat) (column : Option Nat) (line : OutlineLine) (rest : Outline) :
    findKey least column (line :: rest) =
      if outside least column line then none
      else
        match line.key with
        | some key =>
            if column.all (· == key.column) then
              some ({ line := line.index, column := key.column, inline := key.isInline }, rest)
            else findKey least column rest
        | none => findKey least column rest := by
  cases column <;> rfl

theorem findKey_cons_of_outside {least : Nat} {column : Option Nat} {line : OutlineLine}
    (ended : outside least column line = true) (rest : Outline) :
    findKey least column (line :: rest) = none := by
  rw [findKey_cons, if_pos ended]

theorem findKey_cons_of_passes {least : Nat} {column : Option Nat} {line : OutlineLine}
    (passed : passes least column line = true) (rest : Outline) :
    findKey least column (line :: rest) = findKey least column rest := by
  simp only [passes, Bool.and_eq_true, Bool.not_eq_true'] at passed
  obtain ⟨inside, mismatch⟩ := passed
  rw [findKey_cons, inside]
  cases written : line.key with
  | none => rfl
  | some key =>
      have other : column.all (· == key.column) = false := by
        simpa [matchesKey, written] using mismatch
      simp [other]

theorem findKey_cons_of_matchesKey {least : Nat} {column : Option Nat} {line : OutlineLine}
    {key : KeyLine} (inside : outside least column line = false) (written : line.key = some key)
    (same : column.all (· == key.column) = true) (rest : Outline) :
    findKey least column (line :: rest) =
      some ({ line := line.index, column := key.column, inline := key.isInline }, rest) := by
  rw [findKey_cons, inside, written]
  simp [same]

/-- Lines that the search passes make no difference to it. -/
theorem findKey_append_of_passes {least : Nat} {column : Option Nat} {front : Outline}
    (passed : ∀ line ∈ front, passes least column line = true) (back : Outline) :
    findKey least column (front ++ back) = findKey least column back := by
  induction front with
  | nil => rfl
  | cons line rest inductionHypothesis =>
      rw [List.cons_append, findKey_cons_of_passes (passed line List.mem_cons_self)]
      exact inductionHypothesis fun other member => passed other (List.mem_cons_of_mem _ member)

/-- A key is found on the first line that the search does not pass. -/
theorem findKey_eq_some {least : Nat} {column : Option Nat} {lines later : Outline}
    {position : KeyPosition} (found : findKey least column lines = some (position, later)) :
    ∃ front line key, lines = front ++ line :: later ∧ line.key = some key ∧
      position = { line := line.index, column := key.column, inline := key.isInline } ∧
      column.all (· == key.column) = true ∧
      ∀ other ∈ front ++ [line], outside least column other = false := by
  induction lines with
  | nil => simp [findKey] at found
  | cons line rest inductionHypothesis =>
      cases ended : outside least column line with
      | true =>
          rw [findKey_cons_of_outside ended] at found
          cases found
      | false =>
          cases taken : matchesKey column line with
          | true =>
              simp only [matchesKey, Option.any_eq_true] at taken
              obtain ⟨key, written, same⟩ := taken
              rw [findKey_cons_of_matchesKey ended written same] at found
              cases found
              refine ⟨[], line, key, rfl, written, rfl, same, ?_⟩
              simpa using ended
          | false =>
              have passed : passes least column line = true := by simp [passes, ended, taken]
              rw [findKey_cons_of_passes passed] at found
              obtain ⟨front, target, key, split, written, equality, same, inside⟩ :=
                inductionHypothesis found
              refine ⟨line :: front, target, key, by rw [split]; rfl, written, equality, same, ?_⟩
              intro other member
              rcases List.mem_cons.mp member with first | later
              · rw [first]
                exact ended
              · exact inside other later

/-! ### How far a search reaches -/

/-- Nothing that is searched at `least` or deeper reaches the line `limit`: there are no lines
    from there on, or the line there starts in front of `least`. -/
def Fence (outline : Outline) (least limit : Nat) : Prop :=
  (∀ line ∈ outline, line.index < limit) ∨
    ∃ line ∈ outline, line.index = limit ∧ line.column < least

/-- A search that starts deeper is stopped at the same line. -/
theorem Fence.mono {outline : Outline} {least deeper limit : Nat}
    (fence : outline.Fence least limit) (le : least ≤ deeper) : outline.Fence deeper limit := by
  rcases fence with beyond | ⟨line, member, index, shallow⟩
  · exact Or.inl beyond
  · exact Or.inr ⟨line, member, index, Nat.lt_of_lt_of_le shallow le⟩

/-- The line of a fence ends every search behind it. -/
theorem outside_of_column_lt {outline : Outline} (wellFormed : outline.WellFormed)
    {line : OutlineLine} (member : line ∈ outline) {least : Nat} {column : Option Nat}
    (shallow : line.column < least) (deep : ∀ c ∈ column, least ≤ c) :
    outside least column line = true := by
  cases column with
  | none => exact decide_eq_true shallow
  | some c =>
      have indent_le := wellFormed.indent_le line member
      have least_le := deep c rfl
      refine decide_eq_true ?_
      omega

/-- Where a key can be found: behind the start of the search, in front of its fence, on a line
    that starts at the key's column. The search for the next key goes on behind that line. -/
theorem findKey_bounds {outline later : Outline} (wellFormed : outline.WellFormed)
    {least limit next : Nat} {column : Option Nat} {position : KeyPosition}
    (fence : outline.Fence least limit) (next_le : next ≤ limit)
    (deep : ∀ c ∈ column, least ≤ c)
    (found : findKey least column (outline.startingAt next) = some (position, later)) :
    next ≤ position.line ∧ position.line < limit ∧ least ≤ position.column ∧
      (∀ c ∈ column, c = position.column) ∧
      (∃ line ∈ outline, line.index = position.line ∧ line.column = position.column) ∧
      later = outline.startingAt (position.line + 1) := by
  obtain ⟨front, line, key, split, written, equality, same, inside⟩ := findKey_eq_some found
  have inSearch : line ∈ outline.startingAt next := by simp [split]
  obtain ⟨member, lower⟩ := (mem_startingAt wellFormed).mp inSearch
  have keyColumn := wellFormed.key_column line member key written
  have lineInside := inside line (by simp)
  subst equality
  refine ⟨lower, ?_, ?_, ?_, ⟨line, member, rfl, keyColumn.symm⟩, ?_⟩
  · rcases fence with beyond | ⟨stop, stopMember, stopIndex, shallow⟩
    · exact beyond line member
    · by_contra tooFar
      have reached : stop ∈ front ++ [line] := by
        have sorted := sorted_startingAt wellFormed next
        have whole : front ++ line :: later = (front ++ [line]) ++ later := by simp
        rw [split, whole] at sorted
        have lineMember : line ∈ front ++ [line] := by simp
        refine mem_front_of_index_le sorted lineMember ?_ ?_
        · rw [← whole, ← split, mem_startingAt wellFormed]
          exact ⟨stopMember, by omega⟩
        · simp only at tooFar
          omega
      have ended := outside_of_column_lt wellFormed stopMember shallow deep
      rw [inside stop reached] at ended
      cases ended
  · cases column with
    | none =>
        have atLeast : ¬ line.column < least := by simpa [outside] using lineInside
        simp only
        omega
    | some c =>
        have least_le := deep c rfl
        have equal : c = key.column := by simpa using same
        simp only
        omega
  · intro c isColumn
    cases isColumn
    simpa using same
  · exact (startingAt_succ_of_split wellFormed split).symm

/-- The last line of a mapping is not in front of its last key, and in front of every fence. -/
theorem lastLine_bounds {outline : Outline} (wellFormed : outline.WellFormed)
    {least limit lastKey column : Nat} (fence : outline.Fence least limit)
    (lastKey_lt : lastKey < limit) (least_le : least ≤ column) :
    lastKey ≤ outline.lastLine lastKey column ∧ outline.lastLine lastKey column < limit := by
  unfold lastLine
  simp only
  cases last : ((outline.startingAt (lastKey + 1)).takeWhile
      fun line => !endsMapping column line).getLast? with
  | none => exact ⟨Nat.le_refl _, lastKey_lt⟩
  | some line =>
      have taken := List.mem_of_getLast? last
      have inSearch := (List.takeWhile_subset _) taken
      obtain ⟨member, lower⟩ := (mem_startingAt wellFormed).mp inSearch
      simp only [Option.elim_some]
      refine ⟨by omega, ?_⟩
      rcases fence with beyond | ⟨stop, stopMember, stopIndex, shallow⟩
      · exact beyond line member
      · by_contra tooFar
        have sorted := sorted_startingAt wellFormed (lastKey + 1)
        have stopInSearch : stop ∈ outline.startingAt (lastKey + 1) := by
          rw [mem_startingAt wellFormed]
          exact ⟨stopMember, by omega⟩
        have split := List.takeWhile_append_dropWhile
          (p := fun line => !endsMapping column line) (l := outline.startingAt (lastKey + 1))
        rw [← split] at sorted stopInSearch
        have reached := mem_front_of_index_le sorted taken stopInSearch (by omega)
        have kept := List.mem_takeWhile_imp reached
        have indent_le := wellFormed.indent_le stop stopMember
        have indented : stop.indent < column := by omega
        simp [endsMapping, indented] at kept

/-! ### The search for all keys of a mapping -/

/-- The places of the keys of one mapping: one below the other from the line `next` on, in front
    of the line `limit`, all at one column, each on a line that starts there. -/
def Ladder (outline : Outline) (column limit : Nat) : Nat → List (Option KeyPosition) → Prop
  | _, [] => True
  | next, none :: rest => Ladder outline column limit next rest
  | next, some position :: rest =>
      next ≤ position.line ∧ position.line < limit ∧ position.column = column ∧
        (∃ line ∈ outline, line.index = position.line ∧ line.column = column) ∧
        Ladder outline column limit (position.line + 1) rest

theorem ladder_none {outline : Outline} {column limit next : Nat} (flags : List Bool) :
    outline.Ladder column limit next (flags.map fun _ => none) := by
  induction flags with
  | nil => trivial
  | cons _ _ inductionHypothesis => exact inductionHypothesis

/-- The keys of a mapping are found one below the other at one column. -/
theorem findKeys_ladder {outline : Outline} (wellFormed : outline.WellFormed)
    {least limit next : Nat} (fence : outline.Fence least limit) (next_le : next ≤ limit)
    (column : Option Nat) (deep : ∀ c ∈ column, least ≤ c) (flags : List Bool) :
    ∃ common, least ≤ common ∧ (∀ c ∈ column, c = common) ∧
      outline.Ladder common limit next
        (findKeys least column flags (outline.startingAt next)) := by
  induction flags generalizing next column with
  | nil =>
      cases column with
      | none => exact ⟨least, Nat.le_refl _, by simp, trivial⟩
      | some c => exact ⟨c, deep c rfl, by simp, trivial⟩
  | cons flag rest inductionHypothesis =>
      cases flag with
      | false => exact inductionHypothesis next_le column deep
      | true =>
          simp only [findKeys]
          cases found : findKey least column (outline.startingAt next) with
          | none =>
              cases column with
              | none => exact ⟨least, Nat.le_refl _, by simp, ladder_none rest⟩
              | some c => exact ⟨c, deep c rfl, by simp, ladder_none rest⟩
          | some pair =>
              obtain ⟨position, later⟩ := pair
              obtain ⟨lower, upper, columnDeep, common, onLine, laterEq⟩ :=
                findKey_bounds wellFormed fence next_le deep found
              subst laterEq
              obtain ⟨shared, sharedDeep, sharedEq, ladder⟩ :=
                inductionHypothesis (Nat.succ_le_of_lt upper) (some position.column)
                  (by
                    intro c isColumn
                    cases isColumn
                    exact columnDeep)
              have same : position.column = shared := sharedEq _ rfl
              refine ⟨shared, sharedDeep, ?_, lower, upper, same, ?_, ladder⟩
              · intro c isColumn
                exact (common c isColumn).trans same
              · obtain ⟨line, member, index, lineColumn⟩ := onLine
                exact ⟨line, member, index, lineColumn.trans same⟩

end Outline

end ConfigScan.Yaml
