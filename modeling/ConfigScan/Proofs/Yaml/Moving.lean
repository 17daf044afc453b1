/-
Module: ConfigScan.Proofs.Yaml.Moving
Purpose: The search sees the lines with content and their order, but not how many lines stand
  between them. Where two outlines hold the same lines at different places, the same mappings get
  the same lines.
Main exports: OutlineLine.move, Outline.move_ofLinesFrom, Outline.Stops, Outline.Abreast,
  Outline.findKeys_move, Outline.lastLine_move, Value.mark_move
-/
import ConfigScan.Proofs.Document.Moved
import ConfigScan.Proofs.Yaml.KeyPositions

namespace ConfigScan.Yaml

/-- The line when `place` gives the number of lines in front of it. -/
def OutlineLine.move (place : Nat → Nat) (line : OutlineLine) : OutlineLine :=
  { line with index := place line.index }

/-- The place of a key when its line is moved. -/
def KeyPosition.move (place : Nat → Nat) (position : KeyPosition) : KeyPosition :=
  { position with line := place position.line }

namespace Outline

/-- The lines when `place` gives the number of lines in front of each. -/
abbrev move (place : Nat → Nat) (outline : Outline) : Outline :=
  outline.map (OutlineLine.move place)

/-- The outline of lines is moved with them. -/
theorem move_ofLinesFrom {place : Nat → Nat} {index index' : Nat}
    (shift : ∀ below, place (index + below) = index' + below) (lines : List (List Char)) :
    move place (ofLinesFrom index lines) = ofLinesFrom index' lines := by
  induction lines generalizing index index' with
  | nil => rfl
  | cons line rest inductionHypothesis =>
      have later : move place (ofLinesFrom (index + 1) rest) = ofLinesFrom (index' + 1) rest := by
        refine inductionHypothesis fun below => ?_
        rw [Nat.add_assoc, shift (1 + below), Nat.add_assoc]
      cases content : isContent line with
      | true =>
          have own := shift 0
          rw [move] at later ⊢
          rw [ofLinesFrom_cons_content content, ofLinesFrom_cons_content content, List.map_cons,
            later]
          simp only [OutlineLine.move, OutlineLine.ofLine, Nat.add_zero] at own ⊢
          rw [own]
      | false => rw [ofLinesFrom_cons_blank content, ofLinesFrom_cons_blank content, later]

/-- The first of the lines, if there is one, ends every search at the column `least` or deeper. -/
def Stops (least : Nat) (lines : Outline) : Prop :=
  ∀ line ∈ lines.head?, line.indent < least ∧ line.column < least

theorem Stops.nil (least : Nat) : Stops least [] := by
  intro line member
  cases member

theorem Stops.mono {least deeper : Nat} {lines : Outline} (stops : Stops least lines)
    (le : least ≤ deeper) : Stops deeper lines := by
  intro line member
  obtain ⟨indented, shallow⟩ := stops line member
  exact ⟨Nat.lt_of_lt_of_le indented le, Nat.lt_of_lt_of_le shallow le⟩

theorem Stops.findKey {least : Nat} {column : Option Nat} {lines : Outline}
    (stops : Stops least lines) (deep : ∀ c ∈ column, least ≤ c) :
    findKey least column lines = none := by
  cases lines with
  | nil => rfl
  | cons line rest =>
      obtain ⟨indented, shallow⟩ := stops line rfl
      apply findKey_cons_of_outside
      cases column with
      | none => exact decide_eq_true shallow
      | some c => exact decide_eq_true (Nat.lt_of_lt_of_le indented (deep c rfl))

/-- What still belongs to a mapping in front of lines that stop every search in it. -/
theorem takeWhile_of_stops {least column : Nat} {rest : Outline} (stops : Stops least rest)
    (le : least ≤ column) (left : Outline) :
    ((left ++ rest).takeWhile fun line => !endsMapping column line) =
      left.takeWhile fun line => !endsMapping column line := by
  have stopped : (rest.takeWhile fun line => !endsMapping column line) = [] := by
    cases rest with
    | nil => rfl
    | cons line others =>
        have indented := Nat.lt_of_lt_of_le (stops line rfl).1 le
        apply List.takeWhile_cons_of_neg
        simp [endsMapping, indented]
  rw [List.takeWhile_append, stopped, List.append_nil]
  split
  · next whole =>
      exact ((List.takeWhile_prefix _).eq_of_length whole).symm
  · rfl

/-! ### Two outlines side by side -/

/-- Two searches have the same lines in front of them, `left`, though at different places. Behind
    these come other lines, `rest` and `rest'`. -/
structure Abreast (place : Nat → Nat) (outline outline' rest rest' left : Outline)
    (next next' : Nat) : Prop where
  here : outline.startingAt next = left ++ rest
  there : outline'.startingAt next' = move place left ++ rest'

theorem startingAt_suffix (outline : Outline) {next later : Nat} (le : next ≤ later) :
    outline.startingAt later <:+ outline.startingAt next := by
  induction outline with
  | nil => exact List.suffix_rfl
  | cons line rest inductionHypothesis =>
      by_cases skipped : line.index < next
      · have skippedToo : line.index < later := Nat.lt_of_lt_of_le skipped le
        have first : startingAt (line :: rest) next = startingAt rest next :=
          List.dropWhile_cons_of_pos (decide_eq_true skipped)
        have second : startingAt (line :: rest) later = startingAt rest later :=
          List.dropWhile_cons_of_pos (decide_eq_true skippedToo)
        rw [first, second]
        exact inductionHypothesis
      · have kept : startingAt (line :: rest) next = line :: rest :=
          List.dropWhile_cons_of_neg (by simpa using skipped)
        rw [kept]
        exact List.dropWhile_suffix _

/-- From the later of two places on there are the fewer lines. -/
theorem startingAt_max (outline : Outline) (a b : Nat) :
    outline.startingAt (max a b) =
      if (outline.startingAt a).length ≤ (outline.startingAt b).length then outline.startingAt a
      else outline.startingAt b := by
  rcases Nat.le_total a b with le | le
  · have suffix := outline.startingAt_suffix le
    rw [Nat.max_eq_right le]
    split
    · next short => exact suffix.eq_of_length_le short
    · rfl
  · rw [Nat.max_eq_left le, if_pos (outline.startingAt_suffix le).length_le]

section

variable {place : Nat → Nat} {outline outline' rest rest' left : Outline} {next next' : Nat}

/-- Behind a common line the searches are side by side again. -/
theorem Abreast.behind (wellFormed : outline.WellFormed) (wellFormed' : outline'.WellFormed)
    {front later : Outline} {line : OutlineLine}
    (abreast : Abreast place outline outline' rest rest' (front ++ line :: later) next next') :
    Abreast place outline outline' rest rest' later (line.index + 1) (place line.index + 1) where
  here := by
    have split := abreast.here
    rw [List.append_assoc, List.cons_append] at split
    exact startingAt_succ_of_split wellFormed split
  there := by
    have split := abreast.there
    rw [move, List.map_append, List.map_cons, List.append_assoc, List.cons_append] at split
    exact startingAt_succ_of_split wellFormed' split

/-- Of two places where the searches are side by side, they are so at the later one. -/
theorem Abreast.max {later : Outline} {after after' : Nat}
    (abreast : Abreast place outline outline' rest rest' left next next')
    (behind : Abreast place outline outline' rest rest' later after after') :
    ∃ least, Abreast place outline outline' rest rest' least (max next after)
      (max next' after') := by
  by_cases short : left.length ≤ later.length
  · refine ⟨left, ?_, ?_⟩
    · rw [startingAt_max, abreast.here, behind.here, if_pos (by simpa using short)]
    · rw [startingAt_max, abreast.there, behind.there, if_pos (by simpa using short)]
  · refine ⟨later, ?_, ?_⟩
    · rw [startingAt_max, abreast.here, behind.here, if_neg (by simpa using short)]
    · rw [startingAt_max, abreast.there, behind.there, if_neg (by simpa using short)]

/-! ### Searching both -/

/-- A search that may not go behind the common lines finds nothing on either side, or the same
    common line on both. -/
theorem findKey_move (place : Nat → Nat) {least : Nat} {column : Option Nat}
    (stops : Stops least rest) (stops' : Stops least rest') (deep : ∀ c ∈ column, least ≤ c)
    (left : Outline) :
    (findKey least column (left ++ rest) = none ∧
        findKey least column (move place left ++ rest') = none) ∨
      ∃ front line later key,
        left = front ++ line :: later ∧ line.key = some key ∧
          column.all (· == key.column) = true ∧ outside least column line = false ∧
          findKey least column (left ++ rest) =
            some ({ line := line.index, column := key.column, inline := key.isInline },
              later ++ rest) ∧
          findKey least column (move place left ++ rest') =
            some ({ line := place line.index, column := key.column, inline := key.isInline },
              move place later ++ rest') := by
  induction left with
  | nil => exact Or.inl ⟨stops.findKey deep, stops'.findKey deep⟩
  | cons line others inductionHypothesis =>
      cases ended : outside least column line with
      | true =>
          have endedToo : outside least column (line.move place) = true := ended
          exact Or.inl ⟨findKey_cons_of_outside ended _, findKey_cons_of_outside endedToo _⟩
      | false =>
          have insideToo : outside least column (line.move place) = false := ended
          cases taken : matchesKey column line with
          | true =>
              simp only [matchesKey, Option.any_eq_true] at taken
              obtain ⟨key, written, same⟩ := taken
              have writtenToo : (line.move place).key = some key := written
              exact Or.inr ⟨[], line, others, key, rfl, written, same, ended,
                findKey_cons_of_matchesKey ended written same _,
                findKey_cons_of_matchesKey insideToo writtenToo same _⟩
          | false =>
              have passed : passes least column line = true := by simp [passes, ended, taken]
              have passedToo : passes least column (line.move place) = true := passed
              rw [List.cons_append, findKey_cons_of_passes passed, move, List.map_cons,
                List.cons_append, findKey_cons_of_passes passedToo]
              rcases inductionHypothesis with
                nothing | ⟨front, target, later, key, split, written, same, inside, found, foundToo⟩
              · exact Or.inl nothing
              · exact Or.inr ⟨line :: front, target, later, key, by rw [split]; rfl, written, same,
                  inside, found, foundToo⟩

/-- The place of a key among the common lines: behind it the searches are side by side again. -/
structure Shared (place : Nat → Nat) (outline outline' rest rest' : Outline) (least : Nat)
    (position : KeyPosition) : Prop where
  deep : least ≤ position.column
  onLine : ∃ line ∈ outline, line.index = position.line
  behind : ∃ later, Abreast place outline outline' rest rest' later (position.line + 1)
    (place position.line + 1)

/-- The searches for all keys of a mapping find the same common lines. -/
theorem findKeys_move (wellFormed : outline.WellFormed) (wellFormed' : outline'.WellFormed)
    {least : Nat} (stops : Stops least rest) (stops' : Stops least rest') (flags : List Bool)
    (column : Option Nat) (deep : ∀ c ∈ column, least ≤ c)
    (abreast : Abreast place outline outline' rest rest' left next next') :
    findKeys least column flags (outline'.startingAt next') =
        (findKeys least column flags (outline.startingAt next)).map
          (Option.map (KeyPosition.move place)) ∧
      ∀ position ∈ (findKeys least column flags (outline.startingAt next)).filterMap id,
        Shared place outline outline' rest rest' least position := by
  induction flags generalizing column left next next' with
  | nil => exact ⟨rfl, by simp [findKeys]⟩
  | cons flag others inductionHypothesis =>
      cases flag with
      | false =>
          obtain ⟨same, shared⟩ := inductionHypothesis column deep abreast
          exact ⟨by rw [findKeys, same, findKeys]; rfl, shared⟩
      | true =>
          rw [abreast.here, abreast.there, findKeys, findKeys]
          rcases findKey_move place stops stops' deep left with
            ⟨nothing, nothingToo⟩ | ⟨front, line, later, key, split, written, same, inside, found,
              foundToo⟩
          · rw [nothing, nothingToo]
            refine ⟨by simp, ?_⟩
            intro position member
            simp at member
          · subst split
            have member : line ∈ outline := by
              have inSearch : line ∈ outline.startingAt next := by simp [abreast.here]
              exact ((mem_startingAt wellFormed).mp inSearch).1
            have keyDeep : least ≤ key.column := by
              cases column with
              | none =>
                  rw [wellFormed.key_column line member key written]
                  simpa [outside] using inside
              | some c =>
                  have equal : c = key.column := by simpa using same
                  exact equal ▸ deep c rfl
            have behind := abreast.behind wellFormed wellFormed'
            obtain ⟨sameLater, sharedLater⟩ :=
              inductionHypothesis (some key.column) (by simpa using keyDeep) behind
            rw [behind.here, behind.there] at sameLater
            rw [behind.here] at sharedLater
            rw [found, foundToo]
            simp only [sameLater, List.map_cons, Option.map_some]
            refine ⟨rfl, ?_⟩
            intro position isPosition
            rcases List.mem_cons.mp isPosition with first | isLater
            · subst first
              exact ⟨keyDeep, ⟨line, member, rfl⟩, later, behind⟩
            · exact sharedLater position isLater

/-- A mapping whose last key is on a common line ends on the same common line on both sides. -/
theorem lastLine_move (wellFormed : outline.WellFormed) (wellFormed' : outline'.WellFormed)
    {least : Nat} (stops : Stops least rest) (stops' : Stops least rest') {last : KeyPosition}
    (shared : Shared place outline outline' rest rest' least last) {column : Nat}
    (le : least ≤ column) :
    ∃ stop, outline.lastLine last.line column = stop ∧
      outline'.lastLine (place last.line) column = place stop ∧
      (∃ line ∈ outline, line.index = stop) ∧
      ∃ later, Abreast place outline outline' rest rest' later (stop + 1) (place stop + 1) := by
  obtain ⟨left, behind⟩ := shared.behind
  have kept : (move place left).takeWhile (fun line => !endsMapping column line) =
      move place (left.takeWhile fun line => !endsMapping column line) := by
    rw [move, List.takeWhile_map]
    rfl
  unfold lastLine
  rw [behind.here, behind.there, takeWhile_of_stops stops le, takeWhile_of_stops stops' le, kept]
  simp only [List.getLast?_map]
  cases ended : (left.takeWhile fun line => !endsMapping column line).getLast? with
  | none => exact ⟨_, rfl, rfl, shared.onLine, left, behind⟩
  | some line =>
      have member : line ∈ left := (List.takeWhile_subset _) (List.mem_of_getLast? ended)
      obtain ⟨front, later, split⟩ := List.append_of_mem member
      subst split
      have inSearch : line ∈ outline.startingAt (last.line + 1) := by simp [behind.here]
      exact ⟨_, rfl, rfl, ⟨line, ((mem_startingAt wellFormed).mp inSearch).1, rfl⟩, later,
        behind.behind wellFormed wellFormed'⟩

end

end Outline

/-! ### Marking on both sides -/

namespace Value

mutual

/-- A value without lines stays as it is when lines move. -/
theorem moveLines_unmarked (place : Nat → Nat) :
    ∀ value : Value, value.unmarked.moveLines place = value.unmarked
  | .null => rfl
  | .bool _ => rfl
  | .int n => by
      rw [unmarked, intNode]
      split <;> rfl
  | .float _ => rfl
  | .str _ => rfl
  | .tagged _ value => by
      rw [unmarked]
      exact moveLines_unmarked place value
  | .seq items => by
      rw [unmarked, Node.moveLines, moveItems_unmarkedItems place items]
  | .map entries => by
      rw [unmarked, Node.moveLines, moveEntries_unmarkedEntries place entries]

theorem moveItems_unmarkedItems (place : Nat → Nat) :
    ∀ items : List Value, Node.moveItems place (unmarkedItems items) = unmarkedItems items
  | [] => rfl
  | item :: rest => by
      rw [unmarkedItems, Node.moveItems, moveLines_unmarked place item,
        moveItems_unmarkedItems place rest]

theorem moveEntries_unmarkedEntries (place : Nat → Nat) :
    ∀ entries : List (Value × Value),
      Node.moveEntries place (unmarkedEntries entries) = unmarkedEntries entries
  | [] => rfl
  | (key, value) :: rest => by
      cases name : key.key? with
      | none =>
          simp only [unmarkedEntries, name]
          exact moveEntries_unmarkedEntries place rest
      | some written =>
          simp only [unmarkedEntries, name]
          rw [Node.moveEntries_cons place (isMarker_key? name), moveLines_unmarked place value,
            moveEntries_unmarkedEntries place rest]

end

variable {place : Nat → Nat} {outline outline' rest rest' : Outline}

mutual

/-- A value that is searched for side by side in two outlines gets the same lines, at the places
    that they have in each, and the searches are side by side behind it. -/
theorem mark_move (wellFormed : outline.WellFormed) (wellFormed' : outline'.WellFormed)
    (small : ∀ line ∈ outline, line.index + 1 < 2 ^ 63) {least : Nat}
    (stops : Outline.Stops least rest) (stops' : Outline.Stops least rest') (locate : Bool)
    {left : Outline} {next next' : Nat}
    (abreast : Outline.Abreast place outline outline' rest rest' left next next') :
    ∀ value : Value,
      (mark outline' least locate next' value).1 =
          (mark outline least locate next value).1.moveLines place ∧
        ∃ later, Outline.Abreast place outline outline' rest rest' later
          (mark outline least locate next value).2 (mark outline' least locate next' value).2
  | .null => ⟨rfl, left, abreast⟩
  | .bool _ => ⟨rfl, left, abreast⟩
  | .int n => by
      have same := moveLines_unmarked place (.int n)
      rw [unmarked] at same
      exact ⟨same.symm, left, abreast⟩
  | .float _ => ⟨rfl, left, abreast⟩
  | .str _ => ⟨rfl, left, abreast⟩
  | .tagged _ value => by
      rw [mark, mark]
      exact mark_move wellFormed wellFormed' small stops stops' locate abreast value
  | .seq items => by
      obtain ⟨same, later, behind⟩ :=
        markItems_move wellFormed wellFormed' small stops stops' locate abreast items
      rw [mark, mark]
      exact ⟨by simp only [same, Node.moveLines], later, behind⟩
  | .map entries => by
      cases locate with
      | false =>
          rw [mark_unlocated, mark_unlocated]
          exact ⟨(moveLines_unmarked place _).symm, left, abreast⟩
      | true =>
          obtain ⟨positions, shared⟩ := Outline.findKeys_move wellFormed wellFormed' stops stops'
            (entries.map fun e => e.1.key?.isSome) none (by simp) abreast
          have located : (keyPositions outline' least next' entries).filterMap id =
              ((keyPositions outline least next entries).filterMap id).map
                (KeyPosition.move place) := by
            rw [keyPositions, positions, List.filterMap_map, List.map_filterMap]
            rfl
          obtain ⟨same, later, behind⟩ := markEntries_move wellFormed wellFormed' small stops stops'
            least least abreast _ entries shared
          rw [← positions] at same behind
          cases head : ((keyPositions outline least next entries).filterMap id).head? with
          | none =>
              rw [List.head?_eq_none_iff] at head
              rw [head] at located
              rw [mark_map_of_unplaced head, mark_map_of_unplaced located]
              exact ⟨(moveLines_unmarked place _).symm, left, abreast⟩
          | some first =>
              cases tail : ((keyPositions outline least next entries).filterMap id).getLast? with
              | none =>
                  rw [List.getLast?_eq_none_iff] at tail
                  rw [tail] at head
                  cases head
              | some last =>
                  have firstShared := shared first (List.mem_of_mem_head? head)
                  obtain ⟨stop, stopEq, stopEq', ⟨line, member, index⟩, _, stopBehind⟩ :=
                    Outline.lastLine_move wellFormed wellFormed' stops stops'
                      (shared last (List.mem_of_getLast? tail)) firstShared.deep
                  obtain ⟨firstLine, firstMember, firstIndex⟩ := firstShared.onLine
                  have firstSmall := small firstLine firstMember
                  have stopSmall := small line member
                  rw [firstIndex] at firstSmall
                  rw [index] at stopSmall
                  have head' : ((keyPositions outline' least next' entries).filterMap id).head? =
                      some (first.move place) := by
                    rw [located, List.head?_map, head]
                    rfl
                  have tail' :
                      ((keyPositions outline' least next' entries).filterMap id).getLast? =
                        some (last.move place) := by
                    rw [located, List.getLast?_map, tail]
                    rfl
                  rw [mark_map_of_placed head tail, mark_map_of_placed head' tail', stopEq]
                  simp only [KeyPosition.move, stopEq', same]
                  rw [Node.moveLines, Node.moveEntries_withLines place _ firstSmall stopSmall]
                  exact ⟨rfl, behind.max stopBehind⟩

/-- Items that are searched for side by side get the same lines. -/
theorem markItems_move (wellFormed : outline.WellFormed) (wellFormed' : outline'.WellFormed)
    (small : ∀ line ∈ outline, line.index + 1 < 2 ^ 63) {least : Nat}
    (stops : Outline.Stops least rest) (stops' : Outline.Stops least rest') (locate : Bool)
    {left : Outline} {next next' : Nat}
    (abreast : Outline.Abreast place outline outline' rest rest' left next next') :
    ∀ items : List Value,
      (markItems outline' least locate next' items).1 =
          Node.moveItems place (markItems outline least locate next items).1 ∧
        ∃ later, Outline.Abreast place outline outline' rest rest' later
          (markItems outline least locate next items).2
          (markItems outline' least locate next' items).2
  | [] => ⟨rfl, left, abreast⟩
  | item :: others => by
      obtain ⟨same, _, behind⟩ :=
        mark_move wellFormed wellFormed' small stops stops' locate abreast item
      obtain ⟨sameOthers, later, behindOthers⟩ :=
        markItems_move wellFormed wellFormed' small stops stops' locate behind others
      rw [markItems, markItems]
      exact ⟨by simp only [same, sameOthers, Node.moveItems], later, behindOthers⟩

/-- The values of entries whose keys are on common lines get the same lines. -/
theorem markEntries_move (wellFormed : outline.WellFormed) (wellFormed' : outline'.WellFormed)
    (small : ∀ line ∈ outline, line.index + 1 < 2 ^ 63) {least : Nat}
    (stops : Outline.Stops least rest) (stops' : Outline.Stops least rest') (low low' : Nat)
    {left : Outline} {next next' : Nat}
    (abreast : Outline.Abreast place outline outline' rest rest' left next next')
    (positions : List (Option KeyPosition)) :
    ∀ entries : List (Value × Value),
      (∀ position ∈ positions.filterMap id,
        Outline.Shared place outline outline' rest rest' least position) →
      (markEntries outline' low' (positions.map (Option.map (KeyPosition.move place))) next'
            entries).1 =
          Node.moveEntries place (markEntries outline low positions next entries).1 ∧
        ∃ later, Outline.Abreast place outline outline' rest rest' later
          (markEntries outline low positions next entries).2
          (markEntries outline' low' (positions.map (Option.map (KeyPosition.move place))) next'
            entries).2
  | [], _ => ⟨rfl, left, abreast⟩
  | (key, value) :: others, shared => by
      cases positions with
      | nil =>
          obtain ⟨same, later, behind⟩ := markEntries_move wellFormed wellFormed' small stops stops'
            low low' abreast [] others shared
          rw [List.map_nil] at same behind ⊢
          rw [markEntries_cons_of_unplaced rfl, markEntries_cons_of_unplaced rfl, List.tail_nil]
          refine ⟨?_, later, behind⟩
          cases name : key.key? with
          | none => exact same
          | some written =>
              simp only
              rw [Node.moveEntries_cons place (isMarker_key? name), moveLines_unmarked, same]
      | cons position positions =>
          cases position with
          | none =>
              obtain ⟨same, later, behind⟩ := markEntries_move wellFormed wellFormed' small stops
                stops' low low' abreast positions others shared
              rw [List.map_cons, Option.map_none, markEntries_cons_of_unplaced rfl,
                markEntries_cons_of_unplaced rfl, List.tail_cons, List.tail_cons]
              refine ⟨?_, later, behind⟩
              cases name : key.key? with
              | none => exact same
              | some written =>
                  simp only
                  rw [Node.moveEntries_cons place (isMarker_key? name), moveLines_unmarked, same]
          | some position =>
              have here := shared position List.mem_cons_self
              obtain ⟨_, ahead⟩ := here.behind
              -- a value is searched deeper than its key, so the same lines stop its search
              have le := Nat.le_succ_of_le here.deep
              obtain ⟨same, _, inFront⟩ := mark_move wellFormed wellFormed' small (stops.mono le)
                (stops'.mono le) (!position.inline) ahead value
              obtain ⟨sameOthers, later, behind⟩ := markEntries_move wellFormed wellFormed' small
                stops stops' low low' inFront positions others
                fun other member => shared other (List.mem_cons_of_mem _ member)
              rw [List.map_cons, Option.map_some, markEntries_cons_of_placed,
                markEntries_cons_of_placed]
              refine ⟨?_, later, behind⟩
              cases name : key.key? with
              | none => exact sameOthers
              | some written =>
                  simp only
                  rw [Node.moveEntries_cons place (isMarker_key? name), ← same, ← sameOthers]
                  rfl

end

end Value

end ConfigScan.Yaml
