/-
Module: ConfigScan.Proofs.Layout.Hidden
Purpose: Block mappings in which some entries stand behind a question mark, so that no line reads
  as one with their key. The search gives the n-th key the n-th line with a key at the column of the
  mapping, so a key is found on its own line when as many such lines as keys stand in front of it.
  If not, what is found is a line behind the entry or in front of it.
Main exports: Layout.Keyed, Layout.Part, Layout.Parts.InStep, Layout.Parts.inStep_iff_allVisible,
  Layout.Setting, Layout.Setting.place_of_inStep, Layout.Astray, Layout.Setting.astray
-/
import ConfigScan.Proofs.Layout.Exact
import ConfigScan.Proofs.Yaml.Pairing

namespace ConfigScan.Yaml.Layout

/-! ### Entries with any text below -/

/-- An entry of a block mapping at a column: a line with its key, and lines below that lie inside
    the mapping, whatever they hold. -/
structure Keyed (c : Nat) where
  key : WrittenKey
  tail : KeyTail
  value : Value
  below : List (List Char)
  inside : AllInside c below

/-- The line of the key, from its column on. -/
def Keyed.head {c : Nat} (entry : Keyed c) : List Char := keyText entry.key.spelling entry.tail

/-- The key of an entry. -/
def Entry.key : {c : Nat} → Entry c → WrittenKey
  | _, .leaf key _ _ _ => key
  | _, .mapping key _ _ _ _ _ _ => key
  | _, .sequence key _ _ _ _ _ _ => key

/-- What stands behind the colon of an entry. -/
def Entry.tail : {c : Nat} → Entry c → KeyTail
  | _, .leaf _ tail _ _ => tail
  | _, .mapping _ tail _ _ _ _ _ => tail
  | _, .sequence _ tail _ _ _ _ _ => tail

/-- The entry as nothing but the text that it takes. -/
def Entry.keyed {c : Nat} (entry : Entry c) : Keyed c where
  key := entry.key
  tail := entry.tail
  value := entry.value.2
  below := entry.tailLines
  inside := entry.allInside_tailLines (Nat.le_refl c)

theorem Entry.isInline_tail {c : Nat} (entry : Entry c) : entry.tail.isInline = entry.isInline := by
  cases entry with
  | leaf key tail value more => rfl
  | mapping key tail notInline gap inner deeper entries => exact notInline
  | sequence key tail notInline gap inner notShallower items => exact notInline

/-! ### Parts of a mapping -/

/-- A part of a block mapping at a column. It is an entry on a line with its key, or the same entry
    behind a question mark: with any text on the first line, and with any lines below that are not
    indented less. -/
inductive Part (c : Nat) where
  | visible (entry : Keyed c)
  | hidden (entry : Keyed c) (text : List Char) (below : List (List Char))
      (indented : AllContent (fun line => c ≤ indent line) below)

namespace Part

variable {c : Nat}

/-- The entry as it is written without a question mark. -/
def entry : Part c → Keyed c
  | visible entry => entry
  | hidden entry _ _ _ => entry

/-- The part is written without a question mark. -/
def isVisible : Part c → Bool
  | visible _ => true
  | hidden _ _ _ _ => false

/-- The first line, from its column on. -/
def head : Part c → List Char
  | visible entry => entry.head
  | hidden _ text _ _ => '?' :: text

/-- The lines below the first one. -/
def below : Part c → List (List Char)
  | visible entry => entry.below
  | hidden _ _ below _ => below

end Part

/-- The columns of the keys on some lines. -/
def keyColumns (lines : List (List Char)) : List Nat :=
  lines.filterMap fun line =>
    if isContent line then (KeyLine.read? line).map (·.column) else none

/-- The parts of a block mapping at a column, each with the lines without content behind it. -/
abbrev Parts (c : Nat) := List (Part c × Gap)

namespace Parts

variable {c : Nat}

/-- The lines of the parts, with something in front of the first one. -/
def linesWith (lead : List Char) : Parts c → List (List Char)
  | [] => []
  | (part, gap) :: rest =>
      (lead ++ part.head) :: (part.below ++ gap.lines ++ linesWith (spaces c) rest)

/-- What stands in front of a part behind the given ones. -/
def leadBehind (lead : List Char) : Parts c → List Char
  | [] => lead
  | _ :: _ => spaces c

/-- The number of lines of the parts. -/
def height (parts : Parts c) : Nat := (linesWith (spaces c) parts).length

/-- The entries that are written. -/
def values (parts : Parts c) : List (Value × Value) :=
  parts.map fun part => (part.1.entry.key.name, part.1.entry.value)

/-- The parts without question marks. -/
def ordinary (parts : Parts c) : Parts c :=
  parts.map fun part => (.visible part.1.entry, part.2)

/-- All parts are written without question marks. -/
def AllVisible (parts : Parts c) : Prop := ∀ part ∈ parts, part.1.isVisible = true

/-- The lines with keys are in step with the keys: as many lines hold a key at the column of the
    mapping as there are parts, and no deeper one stands in front of them. -/
abbrev InStep (parts : Parts c) : Prop :=
  Yaml.InStep c parts.length (keyColumns (linesWith (spaces c) parts))

theorem allVisible_ordinary (parts : Parts c) : parts.ordinary.AllVisible := by
  intro part member
  obtain ⟨written, _, rfl⟩ := List.mem_map.mp member
  rfl

/-- All keys of the parts are scalars. -/
theorem isSome_keys (parts : Parts c) :
    (parts.values.map fun e => e.1.key?.isSome) = List.replicate parts.length true := by
  rw [values, List.map_map, ← List.map_const']
  exact List.map_congr_left fun part _ => part.1.entry.key.scalar

theorem linesWith_append (lead : List Char) (front back : Parts c) :
    linesWith lead (front ++ back) =
      linesWith lead front ++ linesWith (leadBehind lead front) back := by
  induction front generalizing lead with
  | nil => rfl
  | cons head others inductionHypothesis =>
      obtain ⟨part, gap⟩ := head
      have behind : leadBehind (spaces c) others = spaces c := by cases others <;> rfl
      rw [List.cons_append, linesWith, inductionHypothesis, behind, linesWith, List.cons_append,
        List.append_assoc (part.below ++ gap.lines)]
      rfl

theorem length_linesWith (lead : List Char) (parts : Parts c) :
    (linesWith lead parts).length = parts.height := by
  cases parts with
  | nil => rfl
  | cons head others => rfl

end Parts

/-! ### Lines of parts -/

section

variable {c : Nat} {lead : List Char}

theorem stripDashes_hidden (isLead : IsLead lead) (text : List Char) :
    stripDashes (lead ++ '?' :: text) = (lead.length, '?' :: text) := by
  rw [stripDashes, isLead.stripDashesFrom, Nat.zero_add]
  exact stripDashesFrom_of_ne (by decide) (by decide) _ _

theorem Part.isContent_head (part : Part c) (isLead : IsLead lead) :
    isContent (lead ++ part.head) = true := by
  apply isLead.isContent
  cases part with
  | hidden entry text below indented => exact isContent_cons_visible (by decide) _
  | visible entry => exact isContent_keyText _ _

theorem Part.column_head (part : Part c) (isLead : IsLead lead) :
    (stripDashes (lead ++ part.head)).1 = lead.length := by
  cases part with
  | hidden entry text below indented => rw [Part.head, stripDashes_hidden isLead]
  | visible entry =>
      rw [Part.head, Keyed.head, stripDashes, isLead.stripDashesFrom, stripDashesFrom_keyText,
        Nat.zero_add]

theorem Part.indent_head (part : Part c) : indent (spaces c ++ part.head) = c := by
  cases part with
  | hidden entry text below indented =>
      rw [Part.head, indent_spaces_append, indent_of_ne (by decide), Nat.add_zero]
  | visible entry => exact indent_keyText _ _ _

theorem Part.isDashLine_head (part : Part c) : isDashLine (spaces c ++ part.head) = false := by
  cases part with
  | hidden entry text below indented =>
      unfold isDashLine
      rw [Part.head, dropWhile_spaces_append]
      rfl
  | visible entry => exact isDashLine_keyText _ _ _

/-- The first line of a part holds a key when no question mark stands there. -/
theorem Part.read?_head (part : Part c) (isLead : IsLead lead) :
    (KeyLine.read? (lead ++ part.head)).map (·.column) =
      if part.isVisible then some lead.length else none := by
  cases part with
  | hidden entry text below indented =>
      rw [Part.head, KeyLine.read?, stripDashes_hidden isLead]
      rfl
  | visible entry =>
      rw [Part.head, Keyed.head, read?_keyText isLead]
      rfl

/-- The lines below the first one of a part are indented as deep as the keys. -/
theorem Part.below_indented (part : Part c) :
    AllContent (fun line => c ≤ indent line) part.below := by
  cases part with
  | hidden entry text below indented => exact indented
  | visible entry => exact fun line member content => (entry.inside line member content).indent

/-- All lines of parts are indented as deep as their keys. -/
theorem Parts.indented (parts : Parts c) :
    AllContent (fun line => c ≤ indent line) (linesWith (spaces c) parts) := by
  induction parts with
  | nil =>
      intro line member
      cases member
  | cons head others inductionHypothesis =>
      obtain ⟨part, gap⟩ := head
      rw [linesWith]
      refine .cons (Nat.le_of_eq part.indent_head.symm) ?_
      exact (part.below_indented.append (.of_blank gap.blank)).append inductionHypothesis

/-- The parts of a mapping end the values of those in front of them. -/
theorem Parts.ends (parts : Parts c) {rest : List (List Char)} (ends : Ends c rest) :
    Ends c (linesWith (spaces c) parts ++ rest) := by
  cases parts with
  | nil => exact ends
  | cons head others =>
      obtain ⟨part, gap⟩ := head
      refine .of_line ?_ (part.isContent_head (.spaces c)) _
      simp [endsAt, part.indent_head, part.isDashLine_head]

/-! ### Keys of parts -/

theorem columns_ofLinesFrom (index : Nat) (lines : List (List Char)) :
    Outline.columns (Outline.ofLinesFrom index lines) = keyColumns lines := by
  induction lines generalizing index with
  | nil => rfl
  | cons line rest inductionHypothesis =>
      cases content : isContent line with
      | true =>
          rw [Outline.ofLinesFrom_cons_content content]
          simp only [Outline.columns, keyColumns, List.filterMap_cons, content, if_true,
            OutlineLine.ofLine] at inductionHypothesis ⊢
          rw [inductionHypothesis]
      | false =>
          rw [Outline.ofLinesFrom_cons_blank content, inductionHypothesis]
          simp [keyColumns, content]

theorem keyColumns_append (front back : List (List Char)) :
    keyColumns (front ++ back) = keyColumns front ++ keyColumns back := List.filterMap_append

theorem keyColumns_gap (gap : Gap) : keyColumns gap.lines = [] := by
  rw [keyColumns, List.filterMap_eq_nil_iff]
  intro line member
  simp [gap.blank line member]

/-- The keys on the lines of some parts are those of the first one and those of the others. -/
theorem Parts.keyColumns_cons (isLead : IsLead lead) (part : Part c) (gap : Gap)
    (others : Parts c) :
    keyColumns (linesWith lead ((part, gap) :: others)) =
      (if part.isVisible then [lead.length] else []) ++
        (keyColumns part.below ++ keyColumns (linesWith (spaces c) others)) := by
  have first : keyColumns [lead ++ part.head] = if part.isVisible then [lead.length] else [] := by
    have read := part.read?_head isLead
    simp only [keyColumns, List.filterMap_cons, List.filterMap_nil, part.isContent_head isLead,
      if_true, read]
    cases part.isVisible <;> rfl
  rw [linesWith, ← List.singleton_append, keyColumns_append, first, keyColumns_append,
    keyColumns_append, keyColumns_gap, List.append_nil]

/-- The column of the first key is all that matters of what stands in front of it. -/
theorem Parts.keyColumns_lead (isLead : IsLead lead) (length : lead.length = c)
    (parts : Parts c) :
    keyColumns (linesWith lead parts) = keyColumns (linesWith (spaces c) parts) := by
  cases parts with
  | nil => rfl
  | cons head others =>
      obtain ⟨part, gap⟩ := head
      rw [keyColumns_cons isLead, keyColumns_cons (.spaces c), length, List.length_replicate]

/-- No line below the key of an entry holds a key of the same mapping. -/
theorem Keyed.count_keyColumns (entry : Keyed c) : (keyColumns entry.below).count c = 0 := by
  rw [List.count_eq_zero]
  intro member
  obtain ⟨line, inBelow, columnEq⟩ := List.mem_filterMap.mp member
  cases content : isContent line with
  | false => simp [content] at columnEq
  | true =>
      rw [content, if_pos rfl, Option.map_eq_some_iff] at columnEq
      obtain ⟨key, read, column⟩ := columnEq
      have deeper := (entry.inside line inBelow content).deeper
      rw [← KeyLine.read?_column read, column] at deeper
      exact Nat.lt_irrefl c deeper

/-- Without a question mark every part has one line with a key of the mapping. -/
theorem Parts.count_keyColumns (parts : Parts c)
    (apart : ∀ part ∈ parts, part.1.isVisible = false → (keyColumns part.1.below).count c = 0) :
    (keyColumns (linesWith (spaces c) parts)).count c =
      parts.countP fun part => part.1.isVisible := by
  induction parts with
  | nil => rfl
  | cons head others inductionHypothesis =>
      obtain ⟨part, gap⟩ := head
      have below : (keyColumns part.below).count c = 0 := by
        cases visible : part.isVisible with
        | false => exact apart (part, gap) List.mem_cons_self visible
        | true =>
            cases part with
            | hidden entry text below indented => cases visible
            | visible entry => exact entry.count_keyColumns
      have later := inductionHypothesis fun other member =>
        apart other (List.mem_cons_of_mem _ member)
      rw [keyColumns_cons (.spaces c), List.count_append, List.count_append, below, later,
        Nat.zero_add, List.countP_cons, List.length_replicate, Nat.add_comm]
      cases part.isVisible <;> simp

/-- Where no line behind a question mark reads as one with a key of the mapping, the lines are in
    step with the keys as long as there is no question mark. -/
theorem Parts.inStep_iff_allVisible (parts : Parts c)
    (apart : ∀ part ∈ parts, part.1.isVisible = false → (keyColumns part.1.below).count c = 0) :
    parts.InStep ↔ parts.AllVisible := by
  rw [InStep, Yaml.InStep, count_keyColumns parts apart, List.countP_eq_length, AllVisible,
    and_iff_right_iff_imp]
  intro visible column first
  cases parts with
  | nil => cases first
  | cons head others =>
      obtain ⟨part, gap⟩ := head
      have isFirst : part.isVisible = true := visible (part, gap) List.mem_cons_self
      rw [keyColumns_cons (.spaces c), isFirst, if_pos rfl, List.length_replicate] at first
      cases first
      rfl

theorem Parts.inStep_of_allVisible {parts : Parts c} (visible : parts.AllVisible) :
    parts.InStep := by
  refine (parts.inStep_iff_allVisible ?_).mpr visible
  intro part member hidden
  rw [visible part member] at hidden
  cases hidden

end

/-! ### Whole mappings -/

/-- Where a block mapping at a column stands: the lines before it, what is in front of its first key
    on the line of that, and the lines behind it, which end it. The search for it begins at the
    column `least` on the line `next` and finds nothing in front of it. -/
structure Setting (c : Nat) where
  before : List (List Char)
  lead : List Char
  rest : List (List Char)
  least : Nat
  next : Nat
  isLead : IsLead lead
  length_lead : lead.length = c
  ends : Ends c rest
  least_le : least ≤ c
  next_le : next ≤ before.length
  deep : Deep least (before.drop next)
  noKey : writesKey (before.drop next) = false

/-- The place of a key leads astray from the line of its own part, `own`: it is behind a line that
    ends the part, or it is in front of the part and at no lesser column. -/
def Astray (source : List (List Char)) (c own : Nat) (position : KeyPosition) : Prop :=
  (∃ line ∈ Outline.ofLines source, own < line.index ∧ line.index ≤ position.line ∧
      line.column ≤ c) ∨
    position.line < own ∧ c ≤ position.column

/-- A line that ends a mapping and is not indented less than its keys starts at their column. -/
theorem column_le_of_endsAt {c : Nat} {text : List Char} (ended : endsAt c text = true)
    (indented : c ≤ indent text) : (stripDashes text).1 ≤ c := by
  simp only [endsAt, Bool.or_eq_true, decide_eq_true_eq, Bool.and_eq_true, beq_iff_eq,
    Bool.not_eq_true'] at ended
  rcases ended with (shallow | ⟨same, noDash⟩) | marker
  · omega
  · rw [stripDashes, stripDashesFrom_of_not_dash 0 noDash]
    omega
  · rw [stripDashes, stripDashesFrom_of_marker marker]
    exact Nat.zero_le c

namespace Setting

variable {c : Nat} (setting : Setting c)

/-- The source with a mapping of the given parts in its place. -/
def source (parts : Parts c) : List (List Char) :=
  setting.before ++ (parts.linesWith setting.lead ++ setting.rest)

/-- The outline of the source. -/
abbrev outline (parts : Parts c) : Outline := Outline.ofLines (setting.source parts)

/-- What the search makes of the mapping. -/
def node (parts : Parts c) : Node :=
  (Value.mark (setting.outline parts) setting.least true setting.next (.map parts.values)).1

/-- The places that the search gives to the keys of the mapping. -/
abbrev places (parts : Parts c) : List (Option KeyPosition) :=
  Value.keyPositions (setting.outline parts) setting.least setting.next parts.values

/-- The number of lines in front of a part behind the given ones. -/
def lineBehind (front : Parts c) : Nat := setting.before.length + front.height

/-- What stands in front of a part behind the given ones, on its first line. -/
def leadBehind (front : Parts c) : List Char := front.leadBehind setting.lead

/-- The first line of a part behind the given ones, in the outline. -/
abbrev headLine (front : Parts c) (part : Part c) : OutlineLine :=
  OutlineLine.ofLine (setting.lineBehind front) (setting.leadBehind front ++ part.head)

/-- The outline of the parts in front of another one. -/
abbrev outlineInFront (front : Parts c) : Outline :=
  Outline.ofLinesFrom setting.before.length (front.linesWith setting.lead)

/-- All lines below the first one of a part with the given ones behind it. -/
abbrev linesBelow (part : Part c) (gap : Gap) (back : Parts c) : List (List Char) :=
  part.below ++ (gap.lines ++ (back.linesWith (spaces c) ++ setting.rest))

theorem isLead_leadBehind (front : Parts c) : IsLead (setting.leadBehind front) := by
  cases front with
  | nil => exact setting.isLead
  | cons head others => exact .spaces c

theorem length_leadBehind (front : Parts c) : (setting.leadBehind front).length = c := by
  cases front with
  | nil => exact setting.length_lead
  | cons head others => exact List.length_replicate

/-- The places of the keys are found from the first line of the mapping on. -/
theorem places_eq (parts : Parts c) :
    setting.places parts =
      ((setting.outline parts).startingAt setting.before.length).findKeys setting.least none
        (List.replicate parts.length true) := by
  have skipped := setting.next_le
  have whole : setting.next + (setting.before.drop setting.next).length =
      setting.before.length := by
    rw [List.length_drop]
    omega
  rw [places, Value.keyPositions, parts.isSome_keys, Outline.startingAt_ofLines,
    Outline.startingAt_ofLines, source, List.drop_append_of_le_length skipped, List.drop_left,
    Outline.ofLinesFrom_append,
    Outline.findKeys_append_of_passes (passes_of_writesKey setting.deep setting.noKey), whole]

section

variable (front back : Parts c) (part : Part c) (gap : Gap)

/-- The lines below the first one of a part. -/
theorem drop_lineBehind_succ :
    (setting.source (front ++ (part, gap) :: back)).drop (setting.lineBehind front + 1) =
      setting.linesBelow part gap back := by
  have written : setting.source (front ++ (part, gap) :: back) =
      (setting.before ++
        (front.linesWith setting.lead ++ [setting.leadBehind front ++ part.head])) ++
        setting.linesBelow part gap back := by
    rw [source, Parts.linesWith_append, Parts.linesWith, leadBehind]
    simp only [List.append_assoc, List.cons_append, List.nil_append]
  have length : setting.lineBehind front + 1 =
      (setting.before ++
        (front.linesWith setting.lead ++ [setting.leadBehind front ++ part.head])).length := by
    simp only [lineBehind, List.length_append, List.length_singleton, Parts.length_linesWith,
      Nat.add_assoc]
  rw [written, length, List.drop_left]

/-- The outline of the mapping up to a part, of the first line of that, and from there on. -/
theorem startingAt_split :
    (setting.outline (front ++ (part, gap) :: back)).startingAt setting.before.length =
      setting.outlineInFront front ++ setting.headLine front part ::
        Outline.ofLinesFrom (setting.lineBehind front + 1) (setting.linesBelow part gap back) := by
  have content := part.isContent_head (setting.isLead_leadBehind front)
  rw [leadBehind] at content
  rw [Outline.startingAt_ofLines, source, List.drop_left, Parts.linesWith_append, Parts.linesWith,
    List.append_assoc, Outline.ofLinesFrom_append, Parts.length_linesWith, List.cons_append,
    Outline.ofLinesFrom_cons_content content, List.append_assoc, List.append_assoc]
  rfl

theorem mem_outline_of_split {line : OutlineLine}
    (member : line ∈ setting.outlineInFront front ++ [setting.headLine front part]) :
    line ∈ setting.outline (front ++ (part, gap) :: back) := by
  have inSearch : line ∈ (setting.outline (front ++ (part, gap) :: back)).startingAt
      setting.before.length := by
    rw [startingAt_split, ← List.singleton_append, ← List.append_assoc]
    exact List.mem_append_left _ member
  exact ((Outline.mem_startingAt (Outline.wellFormed_ofLines _)).mp inSearch).1

theorem headLine_mem_outline :
    setting.headLine front part ∈ setting.outline (front ++ (part, gap) :: back) :=
  setting.mem_outline_of_split front back part gap (List.mem_append_right _ List.mem_cons_self)

/-- All lines of a mapping but the first are indented as deep as the keys. -/
theorem indented_front :
    ∀ line ∈ (setting.outlineInFront front ++ [setting.headLine front part]).tail,
      c ≤ line.indent := by
  intro line member
  cases front with
  | nil => cases member
  | cons head others =>
      obtain ⟨headPart, headGap⟩ := head
      have content := headPart.isContent_head setting.isLead
      rw [outlineInFront, Parts.linesWith, Outline.ofLinesFrom_cons_content content,
        List.cons_append, List.tail_cons] at member
      rcases List.mem_append.mp member with inFront | isOwn
      · obtain ⟨text, inLines, shown, equality, _⟩ := Outline.mem_ofLinesFrom inFront
        have indented := (headPart.below_indented.append (.of_blank headGap.blank)).append
          (Parts.indented others)
        rw [equality]
        exact indented text inLines shown
      · rw [List.mem_singleton.mp isOwn]
        exact Nat.le_of_eq part.indent_head.symm

/-- No line of a mapping starts in front of the column of the keys. -/
theorem deep_front :
    ∀ line ∈ setting.outlineInFront front ++ [setting.headLine front part], c ≤ line.column := by
  intro line member
  have indent_le := (Outline.wellFormed_ofLines _).indent_le line
    (setting.mem_outline_of_split front [] part .empty member)
  have indented := setting.indented_front front part
  cases front with
  | nil =>
      rw [List.mem_singleton.mp member]
      exact Nat.le_of_eq ((part.column_head setting.isLead).trans setting.length_lead).symm
  | cons head others =>
      obtain ⟨headPart, headGap⟩ := head
      have content := headPart.isContent_head setting.isLead
      rw [outlineInFront, Parts.linesWith, Outline.ofLinesFrom_cons_content content,
        List.cons_append] at member indented
      rcases List.mem_cons.mp member with isFirst | later
      · rw [isFirst]
        exact Nat.le_of_eq ((headPart.column_head setting.isLead).trans setting.length_lead).symm
      · exact Nat.le_trans (indented line later) indent_le

/-- The keys in front of a part are those of the parts in front of it. -/
theorem columns_front :
    (setting.outlineInFront front).columns = keyColumns (front.linesWith (spaces c)) := by
  rw [columns_ofLinesFrom, Parts.keyColumns_lead setting.isLead setting.length_lead]

end

/-! ### Where a key is found -/

variable {front back : Parts c} {entry : Keyed c} {gap : Gap}

/-- The first line of an entry holds its key. -/
theorem key_headLine (front : Parts c) (entry : Keyed c) :
    ∃ key, (setting.headLine front (.visible entry)).key = some key ∧ key.column = c ∧
      key.isInline = entry.tail.isInline := by
  have read := read?_keyText (setting.isLead_leadBehind front) entry.key.spelling entry.tail
  rw [setting.length_leadBehind] at read
  exact ⟨_, read, rfl, rfl⟩

/-- A key is found on the first line of its entry as long as the lines in front of that are in step
    with the keys. -/
theorem place_of_inStep (inStep : front.InStep) :
    (setting.places (front ++ (.visible entry, gap) :: back))[front.length]? =
      some (some
        { line := setting.lineBehind front, column := c, inline := entry.tail.isInline }) := by
  obtain ⟨key, written, column, inline⟩ := setting.key_headLine front entry
  have deep := setting.deep_front front (.visible entry)
  have enough : front.length < (front ++ (Part.visible entry, gap) :: back).length := by
    rw [List.length_append, List.length_cons]
    omega
  rw [Parts.InStep, ← setting.columns_front front] at inStep
  rw [places_eq, startingAt_split, ← inline]
  exact Outline.findKeys_of_inStep written column _
    (fun line member => Nat.le_trans setting.least_le (deep line member))
    (setting.indented_front front (.visible entry)) inStep enough

/-- Between the first line of an entry and a later line with a key of the same mapping there is one
    that ends the value of the entry. -/
theorem ends_in_front_of_key {line : OutlineLine} {key : KeyLine}
    (behind : line ∈ Outline.ofLinesFrom (setting.lineBehind front + 1)
      (setting.linesBelow (.visible entry) gap back))
    (written : line.key = some key) (column : key.column = c)
    (indented : (setting.outline (front ++ (.visible entry, gap) :: back)).Indented c
      (setting.lineBehind front + 1) (line.index + 1)) :
    ∃ stop ∈ setting.outline (front ++ (.visible entry, gap) :: back),
      setting.lineBehind front < stop.index ∧ stop.index ≤ line.index ∧ stop.column ≤ c := by
  have wellFormed :=
    Outline.wellFormed_ofLines (setting.source (front ++ (.visible entry, gap) :: back))
  have inOutline : ∀ other ∈ Outline.ofLinesFrom (setting.lineBehind front + 1)
      (setting.linesBelow (.visible entry) gap back),
      other ∈ setting.outline (front ++ (.visible entry, gap) :: back) ∧
        setting.lineBehind front + 1 ≤ other.index := by
    intro other member
    rw [← setting.drop_lineBehind_succ front, ← Outline.startingAt_ofLines] at member
    exact (Outline.mem_startingAt wellFormed).mp member
  have keyColumn := wellFormed.key_column line (inOutline line behind).1 key written
  rw [linesBelow, Outline.ofLinesFrom_append] at behind inOutline
  rcases List.mem_append.mp behind with inBelow | later
  · -- the lines of the entry itself hold no key of the mapping
    obtain ⟨text, inText, content, equality, _⟩ := Outline.mem_ofLinesFrom inBelow
    have deeper := (entry.inside text inText content).deeper
    rw [equality] at keyColumn
    simp only [OutlineLine.ofLine] at keyColumn
    omega
  · generalize start : setting.lineBehind front + 1 + (Part.visible entry).below.length = index
      at later inOutline
    have sorted := Outline.sorted_ofLinesFrom index
      (gap.lines ++ (back.linesWith (spaces c) ++ setting.rest))
    cases outline : Outline.ofLinesFrom index
        (gap.lines ++ (back.linesWith (spaces c) ++ setting.rest)) with
    | nil =>
        rw [outline] at later
        cases later
    | cons stop others =>
        obtain ⟨text, isFirst, equality⟩ := head?_ofLinesFrom (by rw [outline]; rfl)
        have ended := (Parts.ends back setting.ends).behind_gap gap text isFirst
        rw [outline] at later sorted inOutline
        have stop_le : stop.index ≤ line.index := by
          rcases List.mem_cons.mp later with same | behindStop
          · rw [same]
          · exact Nat.le_of_lt ((List.pairwise_cons.mp sorted).1 line behindStop)
        obtain ⟨member, below⟩ :=
          inOutline stop (List.mem_append_right _ List.mem_cons_self)
        have deep := indented stop member below (Nat.lt_succ_of_le stop_le)
        rw [equality] at deep
        refine ⟨stop, member, below, stop_le, ?_⟩
        rw [equality]
        exact column_le_of_endsAt ended deep

/-- When the lines in front of an entry are not in step with the keys, its key is not found on its
    first line, but behind it or in front of it. -/
theorem astray (outOfStep : ¬ front.InStep) {position : KeyPosition}
    (taken : (setting.places (front ++ (.visible entry, gap) :: back))[front.length]? =
      some (some position)) :
    Astray (setting.source (front ++ (.visible entry, gap) :: back)) c (setting.lineBehind front)
      position := by
  obtain ⟨key, written, column, _⟩ := setting.key_headLine front entry
  rw [places_eq] at taken
  rw [Parts.InStep, ← setting.columns_front front] at outOfStep
  rcases Outline.findKeys_of_out_of_step (Outline.wellFormed_ofLines _)
      (setting.startingAt_split front back (.visible entry) gap) written column
      (setting.deep_front front (.visible entry)) outOfStep taken with
    early | ⟨line, behind, index, ⟨found, isKey, foundColumn⟩, indented⟩
  · exact Or.inr early
  · left
    rw [← index]
    exact setting.ends_in_front_of_key behind isKey foundColumn indented

end Setting

end ConfigScan.Yaml.Layout
