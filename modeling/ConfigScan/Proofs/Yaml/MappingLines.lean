/-
Module: ConfigScan.Proofs.Yaml.MappingLines
Purpose: What lies between the lines that a mapping gets. It starts on a line with content and ends
  on one, and all lines with content between are indented as deep as its keys at least.
Main exports: Outline.Deep, Outline.Indented, Outline.le_lastLine, Value.MappingLines,
  Value.mark_map_lines, Outline.Holds, Outline.Nests, Value.mark_searched
-/
import ConfigScan.Proofs.Yaml.MarkingOrder
import ConfigScan.Proofs.Yaml.Seeking

namespace ConfigScan.Yaml

namespace Outline

/-- The lines with content from `next` up to but not with `stop` start at `least` or deeper. -/
def Deep (outline : Outline) (least next stop : Nat) : Prop :=
  ∀ line ∈ outline, next ≤ line.index → line.index < stop → least ≤ line.column

/-- The lines with content from `next` up to but not with `stop` are indented by `column` at
    least. -/
def Indented (outline : Outline) (column next stop : Nat) : Prop :=
  ∀ line ∈ outline, next ≤ line.index → line.index < stop → column ≤ line.indent

variable {outline : Outline} {least column next middle stop : Nat}

theorem Deep.trans (front : outline.Deep least next middle)
    (back : outline.Deep least middle stop) : outline.Deep least next stop := by
  intro line member lower upper
  rcases Nat.lt_or_ge line.index middle with early | late
  · exact front line member lower early
  · exact back line member late upper

theorem Deep.mono {deeper : Nat} (deep : outline.Deep deeper next stop) (le : least ≤ deeper) :
    outline.Deep least next stop :=
  fun line member lower upper => Nat.le_trans le (deep line member lower upper)

theorem Deep.of_le (le : stop ≤ next) : outline.Deep least next stop := by
  intro line _ lower upper
  omega

theorem Indented.trans (front : outline.Indented column next middle)
    (back : outline.Indented column middle stop) : outline.Indented column next stop := by
  intro line member lower upper
  rcases Nat.lt_or_ge line.index middle with early | late
  · exact front line member lower early
  · exact back line member late upper

theorem Indented.of_le (le : stop ≤ next) : outline.Indented column next stop := by
  intro line _ lower upper
  omega

theorem Indented.deep (wellFormed : outline.WellFormed)
    (indented : outline.Indented column next stop) : outline.Deep column next stop :=
  fun line member lower upper =>
    Nat.le_trans (indented line member lower upper) (wellFormed.indent_le line member)

/-! ### What a search passes -/

/-- No line that a search has seen when it finds a key is one that ends it. -/
theorem inside_of_findKey (wellFormed : outline.WellFormed) {column : Option Nat}
    {position : KeyPosition} {later : Outline}
    (found : findKey least column (outline.startingAt next) = some (position, later)) :
    next ≤ position.line ∧ later = outline.startingAt (position.line + 1) ∧
      (∃ line ∈ outline, line.index = position.line ∧ line.column = position.column) ∧
      ∀ line ∈ outline, next ≤ line.index → line.index < position.line + 1 →
        outside least column line = false := by
  obtain ⟨front, target, key, split, written, equality, _, inside⟩ := findKey_eq_some found
  have inSearch : target ∈ outline.startingAt next := by simp [split]
  obtain ⟨member, lower⟩ := (mem_startingAt wellFormed).mp inSearch
  subst equality
  refine ⟨lower, (startingAt_succ_of_split wellFormed split).symm,
    ⟨target, member, rfl, (wellFormed.key_column target member key written).symm⟩, ?_⟩
  intro line lineMember lineLower upper
  have sorted := sorted_startingAt wellFormed next
  have seen : line ∈ outline.startingAt next :=
    (mem_startingAt wellFormed).mpr ⟨lineMember, lineLower⟩
  have whole : front ++ target :: later = (front ++ [target]) ++ later := by simp
  rw [split, whole] at sorted seen
  exact inside line (mem_front_of_index_le sorted (by simp) seen (Nat.le_of_lt_succ upper))

/-- Up to each further key of a mapping the lines are indented as deep as its keys. -/
theorem findKeys_indented (wellFormed : outline.WellFormed) (least column : Nat)
    (flags : List Bool) (next : Nat) :
    ∀ position ∈ (findKeys least (some column) flags (outline.startingAt next)).filterMap id,
      outline.Indented column next (position.line + 1) := by
  induction flags generalizing next with
  | nil => simp [findKeys]
  | cons flag rest inductionHypothesis =>
      cases flag with
      | false => exact inductionHypothesis next
      | true =>
          intro position member
          cases found : findKey least (some column) (outline.startingAt next) with
          | none =>
              rw [findKeys_of_not_found found] at member
              cases member
          | some pair =>
              obtain ⟨first, later⟩ := pair
              obtain ⟨lower, laterEq, _, inside⟩ := inside_of_findKey wellFormed found
              have same : some column = some first.column := by
                obtain ⟨_, _, _, _, _, equality, same, _⟩ := findKey_eq_some found
                simpa [equality] using same
              have passed : outline.Indented column next (first.line + 1) := by
                intro line lineMember lineLower upper
                simpa [outside] using inside line lineMember lineLower upper
              simp only [findKeys, found, laterEq, ← same] at member
              rcases List.mem_cons.mp member with isFirst | isLater
              · subst isFirst
                exact passed
              · exact passed.trans (inductionHypothesis (first.line + 1) position isLater)

/-- Up to its first key nothing starts in front of the column asked for, and from there on the lines
    are indented as deep as that key. -/
theorem findKeys_deep (wellFormed : outline.WellFormed) (least : Nat) (flags : List Bool)
    (next : Nat) {first : KeyPosition}
    (head : ((findKeys least none flags (outline.startingAt next)).filterMap id).head? =
      some first) :
    outline.Deep least next (first.line + 1) ∧ next ≤ first.line ∧
      (∃ line ∈ outline, line.index = first.line ∧ line.column = first.column) ∧
      ∀ position ∈ (findKeys least none flags (outline.startingAt next)).filterMap id,
        outline.Indented first.column (first.line + 1) (position.line + 1) := by
  induction flags with
  | nil => cases head
  | cons flag rest inductionHypothesis =>
      cases flag with
      | false => exact inductionHypothesis head
      | true =>
          cases found : findKey least none (outline.startingAt next) with
          | none =>
              rw [findKeys_of_not_found found] at head
              cases head
          | some pair =>
              obtain ⟨position, later⟩ := pair
              obtain ⟨lower, laterEq, onLine, inside⟩ := inside_of_findKey wellFormed found
              simp only [findKeys, found] at head ⊢
              cases head
              refine ⟨?_, lower, onLine, ?_⟩
              · intro line lineMember lineLower upper
                simpa [outside] using inside line lineMember lineLower upper
              · intro other member
                simp only [laterEq] at member
                rcases List.mem_cons.mp member with isFirst | isLater
                · subst isFirst
                  exact .of_le (Nat.le_refl _)
                · exact findKeys_indented wellFormed least _ rest _ other isLater

/-! ### The last line of a mapping -/

/-- In a list in order, nothing is greater than the last member. -/
theorem le_of_getLast? {α : Type} {place : α → Nat} {list : List α} {final member : α}
    (sorted : list.Pairwise fun earlier later => place earlier < place later)
    (last : list.getLast? = some final) (inList : member ∈ list) : place member ≤ place final := by
  obtain ⟨front, whole⟩ := List.getLast?_eq_some_iff.mp last
  rw [whole] at sorted inList
  rcases List.mem_append.mp inList with early | isFinal
  · exact Nat.le_of_lt ((List.pairwise_append.mp sorted).2.2 member early final List.mem_cons_self)
  · rw [List.mem_singleton.mp isFinal]

/-- The last line of a mapping has content, and none in front of it is indented less than the
    keys. -/
theorem lastLine_indented (wellFormed : outline.WellFormed) (lastKey column : Nat) :
    lastKey ≤ outline.lastLine lastKey column ∧
      outline.Indented column (lastKey + 1) (outline.lastLine lastKey column + 1) ∧
      (outline.lastLine lastKey column = lastKey ∨
        ∃ line ∈ outline, line.index = outline.lastLine lastKey column) := by
  unfold lastLine
  simp only
  cases last : ((outline.startingAt (lastKey + 1)).takeWhile
      fun line => !endsMapping column line).getLast? with
  | none => exact ⟨Nat.le_refl _, .of_le (Nat.le_refl _), Or.inl rfl⟩
  | some foot =>
      have taken := List.mem_of_getLast? last
      obtain ⟨member, lower⟩ := (mem_startingAt wellFormed).mp ((List.takeWhile_subset _) taken)
      simp only [Option.elim_some]
      refine ⟨by omega, ?_, Or.inr ⟨foot, member, rfl⟩⟩
      intro line lineMember lineLower upper
      have sorted := sorted_startingAt wellFormed (lastKey + 1)
      have seen : line ∈ outline.startingAt (lastKey + 1) :=
        (mem_startingAt wellFormed).mpr ⟨lineMember, lineLower⟩
      have split := List.takeWhile_append_dropWhile
        (p := fun line => !endsMapping column line) (l := outline.startingAt (lastKey + 1))
      rw [← split] at sorted seen
      have kept := List.mem_takeWhile_imp
        (mem_front_of_index_le sorted taken seen (Nat.le_of_lt_succ upper))
      simp only [endsMapping, Bool.not_eq_true', Bool.or_eq_false_iff,
        decide_eq_false_iff_not] at kept
      omega

/-- A mapping reaches at least as far as no line ends it. -/
theorem le_lastLine (wellFormed : outline.WellFormed) {lastKey column : Nat} {foot : OutlineLine}
    (member : foot ∈ outline) (lower : lastKey < foot.index)
    (stays : ∀ line ∈ outline, lastKey < line.index → line.index ≤ foot.index →
      endsMapping column line = false) :
    foot.index ≤ outline.lastLine lastKey column := by
  have sorted := sorted_startingAt wellFormed (lastKey + 1)
  have seen : foot ∈ outline.startingAt (lastKey + 1) :=
    (mem_startingAt wellFormed).mpr ⟨member, lower⟩
  have split := List.takeWhile_append_dropWhile
    (p := fun line => !endsMapping column line) (l := outline.startingAt (lastKey + 1))
  rw [← split] at sorted seen
  have taken : foot ∈ (outline.startingAt (lastKey + 1)).takeWhile
      fun line => !endsMapping column line := by
    rcases List.mem_append.mp seen with early | late
    · exact early
    · cases dropped : (outline.startingAt (lastKey + 1)).dropWhile
          fun line => !endsMapping column line with
      | nil =>
          rw [dropped] at late
          cases late
      | cons line others =>
          -- the line where the mapping ends is not behind the foot, which rules it out
          have ended := List.head?_dropWhile_not (fun line => !endsMapping column line)
            (outline.startingAt (lastKey + 1))
          rw [dropped] at ended late sorted
          have inSearch : line ∈ outline.startingAt (lastKey + 1) := by
            rw [← split, dropped]
            simp
          obtain ⟨lineMember, lineLower⟩ := (mem_startingAt wellFormed).mp inSearch
          have order : line.index ≤ foot.index := by
            rcases List.mem_cons.mp late with same | later
            · rw [same]
            · have behind := (List.pairwise_append.mp sorted).2.1
              exact Nat.le_of_lt ((List.pairwise_cons.mp behind).1 foot later)
          have kept := stays line lineMember lineLower order
          simp [kept] at ended
  unfold lastLine
  simp only
  cases last : ((outline.startingAt (lastKey + 1)).takeWhile
      fun line => !endsMapping column line).getLast? with
  | none =>
      rw [List.getLast?_eq_none_iff] at last
      rw [last] at taken
      cases taken
  | some final =>
      exact le_of_getLast? (List.pairwise_append.mp sorted).1 last taken

/-- The keys of a mapping that have places stand in order. -/
theorem Ladder.sorted {column limit next : Nat} {positions : List (Option KeyPosition)}
    (ladder : outline.Ladder column limit next positions) :
    (positions.filterMap id).Pairwise fun earlier later => earlier.line < later.line := by
  induction positions generalizing next with
  | nil => exact List.Pairwise.nil
  | cons position rest inductionHypothesis =>
      cases position with
      | none => exact inductionHypothesis ladder
      | some position =>
          obtain ⟨_, line_lt, _, _, later⟩ := ladder
          refine List.Pairwise.cons ?_ (inductionHypothesis later)
          intro other member
          have behind := (later.located member).1
          have ahead := later.le_firstLine line_lt
          omega

/-- The keys of a mapping that have places stand on lines with content. -/
theorem Ladder.onLine {column limit next : Nat} {positions : List (Option KeyPosition)}
    (ladder : outline.Ladder column limit next positions) {position : KeyPosition}
    (member : position ∈ positions.filterMap id) :
    ∃ line ∈ outline, line.index = position.line := by
  induction positions generalizing next with
  | nil => cases member
  | cons head rest inductionHypothesis =>
      cases head with
      | none => exact inductionHypothesis ladder member
      | some head =>
          obtain ⟨_, _, _, ⟨line, onLine, index, _⟩, later⟩ := ladder
          rcases List.mem_cons.mp member with same | isLater
          · subst same
            exact ⟨line, onLine, index⟩
          · exact inductionHypothesis later isLater

/-! ### What ends a mapping -/

/-- Only dashes part the text of a line from its indentation, and a line that starts or ends a
    document is not indented. -/
structure Dashed (outline : Outline) : Prop where
  column_eq : ∀ line ∈ outline, line.isDash = false → line.column = line.indent
  marker : ∀ line ∈ outline, line.isDocumentMarker = true → line.column = 0

/-- A line that is not indented less than the keys of a mapping and starts behind their column does
    not end it. -/
theorem Dashed.endsMapping (dashed : outline.Dashed) {line : OutlineLine} (member : line ∈ outline)
    (indented : column ≤ line.indent) (deep : column < line.column) :
    Outline.endsMapping column line = false := by
  have notMarker : line.isDocumentMarker = false := by
    by_contra marker
    have atStart := dashed.marker line member (by simpa using marker)
    omega
  have notLess : ¬ line.indent < column := Nat.not_lt.mpr indented
  have dash : line.indent = column → line.isDash = true := by
    intro same
    by_contra noDash
    have together := dashed.column_eq line member (by simpa using noDash)
    omega
  by_cases same : line.indent = column
  · simp [Outline.endsMapping, notMarker, same, dash same]
  · simp [Outline.endsMapping, notMarker, notLess, same]

end Outline

theorem stripDashesFrom_of_not_dash (column : Nat) {line : List Char}
    (noDash : isDashLine line = false) :
    (stripDashesFrom column line).1 = column + indent line := by
  induction line generalizing column with
  | nil => rfl
  | cons c rest inductionHypothesis =>
      by_cases space : c = ' '
      · subst space
        have inner : isDashLine rest = false := by simpa [isDashLine] using noDash
        rw [stripDashesFrom, indent_space, inductionHypothesis (column + 1) inner]
        omega
      · rw [indent_of_ne space]
        have start : (c :: rest).dropWhile (· == ' ') = c :: rest :=
          List.dropWhile_cons_of_neg (by simp [space])
        unfold isDashLine at noDash
        rw [start] at noDash
        unfold stripDashesFrom
        split <;> simp_all

theorem stripDashesFrom_of_marker {line : List Char} (marker : isDocumentMarker line = true) :
    (stripDashesFrom 0 line).1 = 0 := by
  simp only [isDocumentMarker, Bool.or_eq_true, List.isPrefixOf_iff_prefix] at marker
  rcases marker with ⟨rest, equality⟩ | ⟨rest, equality⟩ <;> subst equality <;> rfl

/-- The outline of any lines has its columns behind dashes only. -/
theorem Outline.dashed_ofLines (lines : List (List Char)) : (ofLines lines).Dashed where
  column_eq := by
    intro line member noDash
    obtain ⟨text, _, _, equality, _⟩ := mem_ofLinesFrom member
    rw [equality] at noDash ⊢
    have together := stripDashesFrom_of_not_dash 0 noDash
    rwa [Nat.zero_add] at together
  marker := by
    intro line member marker
    obtain ⟨text, _, _, equality, _⟩ := mem_ofLinesFrom member
    rw [equality] at marker ⊢
    exact stripDashesFrom_of_marker marker

/-! ### The lines that a mapping gets -/

namespace Value

variable {outline : Outline}

/-- The keys of a mapping have been found: `first` is the place of the first one, `last` that of the
    last one, and the mapping ends on the line `stop`. -/
structure MappingLines (outline : Outline) (least next : Nat) (entries : List (Value × Value))
    (first last : KeyPosition) (stop : Nat) : Prop where
  next_le : next ≤ first.line
  first_le : first.line ≤ last.line
  last_le : last.line ≤ stop
  least_le : least ≤ first.column
  head : ∃ line ∈ outline, line.index = first.line ∧ line.column = first.column
  foot : ∃ line ∈ outline, line.index = stop
  stop_eq : stop = outline.lastLine last.line first.column
  deep : outline.Deep least next (first.line + 1)
  indented : outline.Indented first.column (first.line + 1) (stop + 1)
  keys : ∀ position ∈ (keyPositions outline least next entries).filterMap id,
    position.column = first.column ∧ position.line ≤ last.line

/-- A mapping that is searched for gets no lines, or those of its keys and all that belongs to
    them. -/
theorem mark_map_lines (wellFormed : outline.WellFormed) {limit : Nat}
    (beyond : ∀ line ∈ outline, line.index < limit) {least next : Nat} (next_le : next ≤ limit)
    (entries : List (Value × Value)) :
    mark outline least true next (.map entries) = ((Value.map entries).unmarked, next) ∨
      ∃ first last stop, MappingLines outline least next entries first last stop ∧
        mark outline least true next (.map entries) =
          (.map (Mapping.withLines
              (markEntries outline least (keyPositions outline least next entries) next entries).1
              (first.line + 1) (stop + 1)),
            max (markEntries outline least (keyPositions outline least next entries) next entries).2
              (stop + 1)) := by
  cases head : ((keyPositions outline least next entries).filterMap id).head? with
  | none => exact Or.inl (mark_map_of_unplaced (List.head?_eq_none_iff.mp head))
  | some first =>
      have fence : outline.Fence least limit := Or.inl beyond
      obtain ⟨column, _, ladder⟩ := keyPositions_ladder wellFormed fence next_le entries
      cases tail : ((keyPositions outline least next entries).filterMap id).getLast? with
      | none =>
          rw [List.getLast?_eq_none_iff.mp tail] at head
          cases head
      | some last =>
          have firstMember := List.mem_of_mem_head? head
          have lastMember := List.mem_of_getLast? tail
          obtain ⟨deep, first_ge, onLine, between⟩ :=
            Outline.findKeys_deep wellFormed least _ next head
          obtain ⟨last_le, behind, foot⟩ :=
            Outline.lastLine_indented wellFormed last.line first.column
          have columns : ∀ position ∈ (keyPositions outline least next entries).filterMap id,
              position.column = column := fun _ member => (ladder.located member).2.2
          obtain ⟨line, member, index, lineColumn⟩ := onLine
          refine Or.inr ⟨first, last, _, ?_, mark_map_of_placed head tail⟩
          exact {
            next_le := first_ge
            first_le := Outline.le_of_getLast? ladder.sorted tail firstMember
            last_le
            least_le := by
              have atLeast := deep line member (by omega) (by omega)
              omega
            head := ⟨line, member, index, lineColumn⟩
            foot := by
              rcases foot with same | isLine
              · rw [same]
                exact ladder.onLine lastMember
              · exact isLine
            stop_eq := rfl
            deep
            indented := (between last lastMember).trans behind
            keys := fun position isKey =>
              ⟨(columns position isKey).trans (columns first firstMember).symm,
                Outline.le_of_getLast? ladder.sorted tail isKey⟩ }

end Value

/-! ### Mappings inside of mappings -/

namespace Outline

variable {outline : Outline}

/-- The lines that a mapping gets have content, and none between is indented less than the first one
    starts, which is at the column `least` or deeper. -/
structure Holds (outline : Outline) (least : Nat) (span : Span) : Prop where
  order : span.first ≤ span.last
  head : ∃ line ∈ outline, line.index + 1 = span.first ∧ least ≤ line.column ∧
    outline.Indented line.column span.first span.last
  foot : ∃ line ∈ outline, line.index + 1 = span.last

theorem Holds.mono {least deeper : Nat} {span : Span} (holds : outline.Holds deeper span)
    (le : least ≤ deeper) : outline.Holds least span where
  order := holds.order
  head := by
    obtain ⟨line, member, index, deep, indented⟩ := holds.head
    exact ⟨line, member, index, Nat.le_trans le deep, indented⟩
  foot := holds.foot

/-- A mapping ends inside of one that holds it exactly when no line up to its own first one is
    indented less than the keys of that. -/
def Nests (outline : Outline) (outer inner : Span) : Prop :=
  outer.address <+: inner.address →
    (inner.last ≤ outer.last ↔ ∃ head ∈ outline, head.index + 1 = outer.first ∧
      outline.Indented head.column outer.first inner.first)

/-- Two lines of an outline with as many lines in front of them are one. -/
theorem eq_of_index_eq (wellFormed : outline.WellFormed) {line other : OutlineLine}
    (member : line ∈ outline) (otherMember : other ∈ outline) (same : line.index = other.index) :
    line = other := by
  have sorted := wellFormed.sorted
  obtain ⟨front, back, split⟩ := List.append_of_mem member
  rw [split] at sorted otherMember
  obtain ⟨_, behind, inFront⟩ := List.pairwise_append.mp sorted
  rcases List.mem_append.mp otherMember with early | late
  · have order := inFront other early line List.mem_cons_self
    omega
  · rcases List.mem_cons.mp late with equal | later
    · exact equal.symm
    · have order := (List.pairwise_cons.mp behind).1 other later
      omega

end Outline

namespace Value

variable {outline : Outline}

/-- Behind the last key of a mapping its values start deeper than the keys, so a mapping in one of
    them can only leave it where the lines in front are indented less. -/
theorem MappingLines.nests (wellFormed : outline.WellFormed) (dashed : outline.Dashed)
    {least next : Nat} {entries : List (Value × Value)} {first last : KeyPosition} {stop : Nat}
    (lines : MappingLines outline least next entries first last stop) {inner : Span}
    (holds : outline.Holds (first.column + 1) inner)
    (deep : outline.Deep (first.column + 1) (last.line + 1) inner.last) (address : List Nat) :
    outline.Nests ⟨address, first.line + 1, stop + 1⟩ inner := by
  intro _
  obtain ⟨next_le, first_le, last_le, least_le, ⟨head, headMember, headIndex, headColumn⟩, _,
    stop_eq, _, indented, _⟩ := lines
  obtain ⟨order, ⟨start, startMember, startIndex, startDeep, startIndented⟩, foot, footMember,
    footIndex⟩ := holds
  simp only
  constructor
  · intro within
    refine ⟨head, headMember, by rw [headIndex], ?_⟩
    intro line member lower upper
    rw [headColumn]
    exact indented line member lower (by omega)
  · rintro ⟨other, otherMember, otherIndex, shallow⟩
    have sameLine : other = head :=
      Outline.eq_of_index_eq wellFormed otherMember headMember (by omega)
    subst sameLine
    rcases Nat.lt_or_ge last.line foot.index with behind | inFront
    · have reached : foot.index ≤ outline.lastLine last.line first.column := by
        refine Outline.le_lastLine wellFormed footMember behind ?_
        intro line member lower upper
        have deeper := deep line member lower (by omega)
        refine dashed.endsMapping member ?_ deeper
        rcases Nat.lt_or_ge line.index inner.first with early | late
        · have shown := shallow line member (by omega) early
          omega
        · have shown := startIndented line member late (by omega)
          omega
      omega
    · omega

/-- What a search from the line `next` has passed when it stands on the line `after`, and the
    mappings that it has found. -/
structure Searched (outline : Outline) (least next after : Nat) (spans : List Span) : Prop where
  deep : outline.Deep least next after
  holds : ∀ span ∈ spans, outline.Holds least span
  nests : spans.Pairwise outline.Nests

theorem Searched.nil {least next : Nat} : Searched outline least next next [] where
  deep := .of_le (Nat.le_refl _)
  holds := by simp
  nests := List.Pairwise.nil

theorem Searched.mono {least deeper next after : Nat} {spans : List Span}
    (searched : Searched outline deeper next after spans) (le : least ≤ deeper) :
    Searched outline least next after spans where
  deep := searched.deep.mono le
  holds := fun span member => (searched.holds span member).mono le
  nests := searched.nests

/-- Two searches, one behind the other, for parts that do not hold each other. -/
theorem Searched.append {least next middle after : Nat} {spans more : List Span}
    (front : Searched outline least next middle spans)
    (back : Searched outline least middle after more)
    (apart : ∀ span ∈ spans, ∀ other ∈ more, ¬ span.address <+: other.address) :
    Searched outline least next after (spans ++ more) where
  deep := front.deep.trans back.deep
  holds := by
    intro span member
    rcases List.mem_append.mp member with early | late
    · exact front.holds span early
    · exact back.holds span late
  nests := List.pairwise_append.mpr ⟨front.nests, back.nests, fun span member other inMore below =>
    absurd below (apart span member other inMore)⟩

/-- A mapping that gets lines, in front of what its values get. -/
theorem MappingLines.searched (wellFormed : outline.WellFormed) (dashed : outline.Dashed)
    {least next after : Nat} {entries : List (Value × Value)} {first last : KeyPosition}
    {stop : Nat} (lines : MappingLines outline least next entries first last stop)
    {spans : List Span} (inside : Searched outline first.column (first.line + 1) after spans)
    (held : ∀ span ∈ spans, outline.Holds (first.column + 1) span ∧
      outline.Deep (first.column + 1) (last.line + 1) span.last) (address : List Nat) :
    Searched outline least next (max after (stop + 1))
      (⟨address, first.line + 1, stop + 1⟩ :: spans) where
  deep := by
    refine lines.deep.trans ?_
    rcases Nat.le_total after (stop + 1) with le | le
    · rw [Nat.max_eq_right le]
      exact (lines.indented.deep wellFormed).mono lines.least_le
    · rw [Nat.max_eq_left le]
      exact inside.deep.mono lines.least_le
  holds := by
    intro span member
    rcases List.mem_cons.mp member with same | inner
    · obtain ⟨head, headMember, headIndex, headColumn⟩ := lines.head
      obtain ⟨foot, footMember, footIndex⟩ := lines.foot
      rw [same]
      have order := lines.first_le
      have reached := lines.last_le
      exact {
        order := by
          simp only
          omega
        head := ⟨head, headMember, by rw [headIndex], headColumn ▸ lines.least_le,
          headColumn ▸ lines.indented⟩
        foot := ⟨foot, footMember, by rw [footIndex]⟩ }
    · exact (inside.holds span inner).mono lines.least_le
  nests := by
    refine List.Pairwise.cons ?_ inside.nests
    intro span member
    obtain ⟨holds, deep⟩ := held span member
    exact lines.nests wellFormed dashed holds deep address

mutual

/-- A search passes lines that start deep enough only, and what it finds nests as the lines are
    indented. -/
theorem mark_searched (wellFormed : outline.WellFormed) (dashed : outline.Dashed) {limit : Nat}
    (beyond : ∀ line ∈ outline, line.index < limit) (small : limit < 2 ^ 63) (least : Nat)
    {next : Nat} (next_le : next ≤ limit) (locate : Bool) (address : List Nat) :
    ∀ value : Value,
      Searched outline least next (mark outline least locate next value).2
        ((mark outline least locate next value).1.spans address)
  | .null => .nil
  | .bool _ => .nil
  | .int n => by
      have noSpans := spans_unmarked address (.int n)
      rw [unmarked] at noSpans
      rw [mark, noSpans]
      exact .nil
  | .float _ => .nil
  | .str _ => .nil
  | .tagged _ value => by
      rw [mark]
      exact mark_searched wellFormed dashed beyond small least next_le locate address value
  | .seq items => by
      rw [mark, Node.spans]
      exact markItems_searched wellFormed dashed beyond small least next_le locate address 0 items
  | .map entries => by
      cases locate with
      | false =>
          rw [mark_unlocated, spans_unmarked]
          exact .nil
      | true =>
          rcases mark_map_lines wellFormed beyond next_le entries with
            unplaced | ⟨first, last, stop, lines, placed⟩
          · rw [unplaced, spans_unmarked]
            exact .nil
          · obtain ⟨foot, footMember, footIndex⟩ := lines.foot
            have stop_lt := beyond foot footMember
            have first_le := lines.first_le
            have last_le := lines.last_le
            have reach : outline.Deep first.column (first.line + 1) (last.line + 1) :=
              fun line member lower upper =>
                lines.indented.deep wellFormed line member lower (by omega)
            obtain ⟨inside, held⟩ := markEntries_searched wellFormed dashed beyond small next_le
              (fun position isKey => by
                obtain ⟨sameColumn, le⟩ := lines.keys position isKey
                exact ⟨sameColumn, le, by omega⟩)
              reach (.of_le (Nat.le_succ_of_le lines.next_le)) least address 0 entries
            rw [placed, Node.spans_withLines (unmarked_markEntries outline least _ next entries)
              address (by omega) (by omega)]
            exact lines.searched wellFormed dashed inside held address

/-- A search for items passes lines that start deep enough only. -/
theorem markItems_searched (wellFormed : outline.WellFormed) (dashed : outline.Dashed)
    {limit : Nat} (beyond : ∀ line ∈ outline, line.index < limit) (small : limit < 2 ^ 63)
    (least : Nat) {next : Nat} (next_le : next ≤ limit) (locate : Bool) (address : List Nat)
    (index : Nat) :
    ∀ items : List Value,
      Searched outline least next (markItems outline least locate next items).2
        (Node.itemSpans address index (markItems outline least locate next items).1)
  | [] => .nil
  | item :: rest => by
      have fence : outline.Fence least limit := Or.inl beyond
      have upper := (mark_between wellFormed fence next_le small locate [] item).2.1
      have front := mark_searched wellFormed dashed beyond small least next_le locate
        (address ++ [index]) item
      have back := markItems_searched wellFormed dashed beyond small least upper locate address
        (index + 1) rest
      rw [markItems]
      refine front.append back ?_
      intro span member other inRest
      obtain ⟨place, le, below⟩ := Node.prefix_of_mem_itemSpans address (index + 1) _ inRest
      exact Node.not_prefix_of_lt le (Node.prefix_of_mem_spans _ _ member) below

/-- A search for the values of entries passes lines that start deep enough only, and it finds
    mappings that start behind the column of the keys. -/
theorem markEntries_searched (wellFormed : outline.WellFormed) (dashed : outline.Dashed)
    {limit : Nat} (beyond : ∀ line ∈ outline, line.index < limit) (small : limit < 2 ^ 63)
    {column base next last : Nat} (next_le : next ≤ limit)
    {positions : List (Option KeyPosition)}
    (keys : ∀ position ∈ positions.filterMap id,
      position.column = column ∧ position.line ≤ last ∧ position.line < limit)
    (reach : outline.Deep column base (last + 1)) (passed : outline.Deep column base next)
    (least : Nat) (address : List Nat) (index : Nat) :
    ∀ entries : List (Value × Value),
      Searched outline column base (markEntries outline least positions next entries).2
          (Node.entrySpans address index (markEntries outline least positions next entries).1) ∧
        ∀ span ∈ Node.entrySpans address index
            (markEntries outline least positions next entries).1,
          outline.Holds (column + 1) span ∧ outline.Deep (column + 1) (last + 1) span.last
  | [] => ⟨⟨passed, by simp [markEntries, Node.entrySpans], .nil⟩,
      by simp [markEntries, Node.entrySpans]⟩
  | (key, value) :: rest => by
      have laterKeys : ∀ position ∈ positions.tail.filterMap id,
          position.column = column ∧ position.line ≤ last ∧ position.line < limit :=
        fun position isKey =>
          keys position ((List.tail_sublist positions).filterMap id |>.subset isKey)
      cases head : positions.head?.join with
      | none =>
          have others := fun index => markEntries_searched wellFormed dashed beyond small next_le
            laterKeys reach passed least address index rest
          rw [markEntries_cons_of_unplaced head]
          cases key.key? with
          | none => exact others index
          | some name =>
              simp only [Node.entrySpans, spans_unmarked, List.nil_append]
              exact others (index + 1)
      | some position =>
          obtain ⟨laterPositions, rfl⟩ : ∃ laterPositions,
              positions = some position :: laterPositions := by
            cases positions with
            | nil => cases head
            | cons first laterPositions =>
                rw [List.head?_cons, Option.join_some] at head
                exact ⟨laterPositions, by rw [head]⟩
          obtain ⟨rfl, le_last, line_lt⟩ := keys position List.mem_cons_self
          have fence : outline.Fence (position.column + 1) limit := Or.inl beyond
          obtain ⟨_, upper, between⟩ := mark_between wellFormed fence line_lt small
            (!position.inline) (address ++ [index]) value
          have inValue := mark_searched wellFormed dashed beyond small (position.column + 1)
            line_lt (!position.inline) (address ++ [index]) value
          have upToKey : outline.Deep position.column base (position.line + 1) :=
            fun line member lower upper => reach line member lower (by omega)
          have upToNext := upToKey.trans (inValue.deep.mono (Nat.le_succ _))
          have others := fun index => markEntries_searched wellFormed dashed beyond small upper
            laterKeys reach upToNext least address index rest
          rw [markEntries_cons_of_placed]
          cases key.key? with
          | none => exact others index
          | some name =>
              obtain ⟨behind, heldBehind⟩ := others (index + 1)
              have heldInValue : ∀ span ∈ Node.spans (address ++ [index]) (mark outline
                  (position.column + 1) (!position.inline) (position.line + 1) value).1,
                  outline.Holds (position.column + 1) span ∧
                    outline.Deep (position.column + 1) (last + 1) span.last := by
                intro span member
                have stop_le := (between.bounds span member).2.2
                exact ⟨inValue.holds span member, fun line isLine lower upper =>
                  inValue.deep line isLine (by omega) (by omega)⟩
              have held : ∀ span ∈ Node.spans (address ++ [index]) (mark outline
                  (position.column + 1) (!position.inline) (position.line + 1) value).1 ++
                    Node.entrySpans address (index + 1) (markEntries outline least laterPositions
                      (mark outline (position.column + 1) (!position.inline) (position.line + 1)
                        value).2 rest).1,
                  outline.Holds (position.column + 1) span ∧
                    outline.Deep (position.column + 1) (last + 1) span.last := by
                intro span member
                rcases List.mem_append.mp member with early | late
                · exact heldInValue span early
                · exact heldBehind span late
              refine ⟨⟨behind.deep, fun span member => (held span member).1.mono (Nat.le_succ _),
                ?_⟩, held⟩
              refine List.pairwise_append.mpr ⟨inValue.nests, behind.nests, ?_⟩
              intro span member other inRest below
              obtain ⟨place, le, otherBelow⟩ :=
                Node.prefix_of_mem_entrySpans address (index + 1) _ inRest
              exact absurd below
                (Node.not_prefix_of_lt le (Node.prefix_of_mem_spans _ _ member) otherBelow)

end

end Value

end ConfigScan.Yaml
