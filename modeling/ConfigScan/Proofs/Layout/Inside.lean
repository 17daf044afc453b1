/-
Module: ConfigScan.Proofs.Layout.Inside
Purpose: Which lines of a layout lie inside which mapping. All lines of an entry but the first stay
  inside its mapping and start deeper than that, and the line that follows a mapping ends it.
Main exports: Layout.AllContent, Layout.endsAt, Layout.Inside, Layout.Ends,
  Layout.Entry.allInside_tailLines, Layout.Entries.ends, Layout.Items.ends
-/
import ConfigScan.Proofs.Layout.Basic

namespace ConfigScan.Yaml.Layout

/-! ### Key lines and item lines -/

theorem indent_spaces_append (n : Nat) (text : List Char) :
    indent (spaces n ++ text) = n + indent text := by
  induction n with
  | zero => rw [spaces, List.replicate_zero, List.nil_append, Nat.zero_add]
  | succ n inductionHypothesis =>
      rw [spaces, List.replicate_succ, List.cons_append, indent_space, inductionHypothesis]
      omega

theorem dropWhile_spaces_append (n : Nat) (text : List Char) :
    (spaces n ++ text).dropWhile (· == ' ') = text.dropWhile (· == ' ') := by
  rw [List.dropWhile_append_of_pos]
  intro c member
  rw [List.eq_of_mem_replicate member]
  rfl

theorem isDocumentMarker_space (text : List Char) : isDocumentMarker (' ' :: text) = false := by
  rfl

/-- Only a line without indentation starts or ends a document. -/
theorem isDocumentMarker_of_indent_pos {line : List Char} (indented : 0 < indent line) :
    isDocumentMarker line = false := by
  cases line with
  | nil => rfl
  | cons c rest =>
      by_cases space : c = ' '
      · rw [space]
        exact isDocumentMarker_space rest
      · rw [indent_of_ne space] at indented
        exact absurd indented (Nat.lt_irrefl 0)

theorem indent_keyText (n : Nat) (spelling : Spelling) (tail : KeyTail) :
    indent (spaces n ++ keyText spelling tail) = n := by
  obtain ⟨c, rest, equality, allowed, _⟩ := keyText_start spelling tail
  have notSpace : c ≠ ' ' := by
    intro space
    rw [space] at allowed
    exact allowed List.mem_cons_self
  rw [indent_spaces_append, equality, indent_of_ne notSpace, Nat.add_zero]

theorem isDashLine_keyText (n : Nat) (spelling : Spelling) (tail : KeyTail) :
    isDashLine (spaces n ++ keyText spelling tail) = false := by
  obtain ⟨c, rest, equality, allowed, afterDash⟩ := keyText_start spelling tail
  have notSpace : c ≠ ' ' := by
    intro space
    rw [space] at allowed
    exact allowed List.mem_cons_self
  unfold isDashLine
  rw [dropWhile_spaces_append, equality, List.dropWhile_cons_of_neg (by simp [notSpace])]
  by_cases dash : c = '-'
  · obtain ⟨d, others, restEq, dashSpace⟩ := afterDash dash
    rw [dash, restEq]
    simp [dashSpace]
  · simp [dash]

theorem isContent_keyText (spelling : Spelling) (tail : KeyTail) :
    isContent (keyText spelling tail) = true := by
  cases spelling with
  | single key padding => exact isContent_cons_visible (by decide) _
  | double key padding => exact isContent_cons_visible (by decide) _
  | plain key =>
      have visible := key.visible
      rw [isContent_eq] at visible ⊢
      rw [keyText, Spelling.text]
      cases shown : key.text.dropWhile Text.isBlank with
      | nil =>
          rw [shown] at visible
          cases visible
      | cons c rest =>
          rw [shown] at visible
          rw [List.dropWhile_append, shown]
          exact visible

/-- A dash has nothing or a space behind it. -/
theorem dashText_cases (tail : DashTail) :
    dashText tail = ['-'] ∨ ∃ rest, dashText tail = '-' :: ' ' :: rest := by
  obtain ⟨text, apart⟩ := tail
  cases text with
  | nil => exact Or.inl rfl
  | cons c rest =>
      have space : c = ' ' := apart c rfl
      subst space
      exact Or.inr ⟨rest, rfl⟩

theorem indent_dashText (n : Nat) (tail : DashTail) : indent (spaces n ++ dashText tail) = n := by
  rw [indent_spaces_append, dashText, indent_of_ne (by decide), Nat.add_zero]

theorem isDashLine_dashText (n : Nat) (tail : DashTail) :
    isDashLine (spaces n ++ dashText tail) = true := by
  unfold isDashLine
  rw [dropWhile_spaces_append]
  rcases dashText_cases tail with bare | ⟨rest, spaced⟩
  · rw [bare]
    rfl
  · rw [spaced]
    rfl

theorem isDocumentMarker_dashText (n : Nat) (tail : DashTail) :
    isDocumentMarker (spaces n ++ dashText tail) = false := by
  cases n with
  | succ n => exact isDocumentMarker_space _
  | zero =>
      rcases dashText_cases tail with bare | ⟨rest, spaced⟩
      · rw [bare]
        rfl
      · rw [spaced]
        rfl

theorem isContent_dashText (tail : DashTail) : isContent (dashText tail) = true :=
  isContent_cons_visible (by decide) _

/-- What stands behind a dash starts behind the dash. -/
theorem lt_stripDashes_dashText {lead : List Char} (isLead : IsLead lead) (tail : DashTail) :
    lead.length < (stripDashes (lead ++ dashText tail)).1 := by
  rw [stripDashes, isLead.stripDashesFrom, Nat.zero_add]
  rcases dashText_cases tail with bare | ⟨rest, spaced⟩
  · rw [bare]
    exact Nat.lt_succ_self _
  · rw [spaced, stripDashesFrom]
    have forward := le_stripDashesFrom (lead.length + 2) rest
    omega

/-- The first line of entries is that of a key. -/
theorem Entry.head_eq {c : Nat} (entry : Entry c) :
    ∃ spelling tail, entry.head = keyText spelling tail := by
  cases entry <;> exact ⟨_, _, rfl⟩

/-- The first line of entries is that of a key. -/
theorem Entries.head_eq {c : Nat} (entries : Entries c) :
    ∃ spelling tail, entries.head = keyText spelling tail := by
  cases entries with
  | one entry => exact entry.head_eq
  | cons entry gap rest => exact entry.head_eq

/-- The first line of items is that of a dash. -/
theorem Item.head_eq {s : Nat} (item : Item s) : ∃ tail, item.head = dashText tail := by
  cases item with
  | leaf tail value more => exact ⟨tail, rfl⟩
  | beneath tail noKey gap inner deeper block => exact ⟨tail, rfl⟩
  | beside space block =>
      refine ⟨⟨spaces (space + 1) ++ block.head, ?_⟩, rfl⟩
      intro c member
      cases member
      rfl

/-- The first line of items is that of a dash. -/
theorem Items.head_eq {s : Nat} (items : Items s) : ∃ tail, items.head = dashText tail := by
  cases items with
  | one item => exact item.head_eq
  | cons item gap rest => exact item.head_eq

theorem Entries.isContent_head {c : Nat} (entries : Entries c) (n : Nat) :
    isContent (spaces n ++ entries.head) = true := by
  obtain ⟨spelling, tail, equality⟩ := entries.head_eq
  rw [equality, isContent_spaces]
  exact isContent_keyText spelling tail

theorem Items.isContent_head {s : Nat} (items : Items s) (n : Nat) :
    isContent (spaces n ++ items.head) = true := by
  obtain ⟨tail, equality⟩ := items.head_eq
  rw [equality, isContent_spaces]
  exact isContent_dashText tail

theorem Block.isContent_head {c : Nat} (block : Block c) (n : Nat) :
    isContent (spaces n ++ block.head) = true := by
  cases block with
  | mapping entries => exact entries.isContent_head n
  | sequence items => exact items.isContent_head n

/-! ### Lines with content -/

/-- All lines with content have a property. -/
def AllContent (property : List Char → Prop) (lines : List (List Char)) : Prop :=
  ∀ line ∈ lines, isContent line = true → property line

namespace AllContent

variable {property : List Char → Prop}

theorem append {front back : List (List Char)} (inFront : AllContent property front)
    (inBack : AllContent property back) : AllContent property (front ++ back) := by
  intro line member
  rcases List.mem_append.mp member with early | late
  · exact inFront line early
  · exact inBack line late

theorem cons {line : List Char} {rest : List (List Char)} (holds : property line)
    (inRest : AllContent property rest) : AllContent property (line :: rest) := by
  intro other member content
  rcases List.mem_cons.mp member with same | later
  · rw [same]
    exact holds
  · exact inRest other later content

theorem of_blank {lines : List (List Char)} (blank : ∀ line ∈ lines, isContent line = false) :
    AllContent property lines := by
  intro line member content
  rw [blank line member] at content
  cases content

end AllContent

/-! ### Lines inside a mapping -/

/-- The line ends a mapping at `column`, if it has content. -/
def endsAt (column : Nat) (line : List Char) : Bool :=
  indent line < column || (indent line == column && !isDashLine line) || isDocumentMarker line

/-- The line does not end a mapping at `column`, and what it holds behind its dashes stands deeper
    than the keys of that. -/
structure Inside (column : Nat) (line : List Char) : Prop where
  stays : endsAt column line = false
  deeper : column < (stripDashes line).1

/-- All lines with content lie inside a mapping at `column`. -/
abbrev AllInside (column : Nat) (lines : List (List Char)) : Prop :=
  AllContent (Inside column) lines

variable {column : Nat}

theorem Inside.indent {line : List Char} (inside : Inside column line) :
    column ≤ Yaml.indent line := by
  have stays := inside.stays
  simp only [endsAt, Bool.or_eq_false_iff, decide_eq_false_iff_not] at stays
  exact Nat.le_of_not_lt stays.1.1

/-- A line that is indented deeper than the keys lies inside. -/
theorem Inside.of_indent {line : List Char} (deep : column < Yaml.indent line) :
    Inside column line where
  stays := by
    have notMarker := isDocumentMarker_of_indent_pos (Nat.lt_of_le_of_lt (Nat.zero_le _) deep)
    have notLess : ¬ Yaml.indent line < column := Nat.lt_asymm deep
    have notEqual : Yaml.indent line ≠ column := (Nat.ne_of_lt deep).symm
    simp [endsAt, notMarker, notLess, notEqual]
  deeper := by
    have indent_le := indent_le_stripDashesFrom 0 line
    rw [Nat.zero_add] at indent_le
    exact Nat.lt_of_lt_of_le deep indent_le

/-- A line with an item lies inside, even when its dash stands below the keys. -/
theorem Inside.of_dash {s : Nat} (le : column ≤ s) (tail : DashTail) :
    Inside column (spaces s ++ dashText tail) where
  stays := by
    have notLess : ¬ s < column := Nat.not_lt.mpr le
    simp [endsAt, indent_dashText, isDashLine_dashText, isDocumentMarker_dashText, notLess]
  deeper := by
    have behind := lt_stripDashes_dashText (.spaces s) tail
    rw [List.length_replicate] at behind
    exact Nat.lt_of_le_of_lt le behind

theorem Gap.allInside (gap : Gap) : AllInside column gap.lines := .of_blank gap.blank

theorem Continuation.allInside {d : Nat} (more : Continuation d) (le : column ≤ d) :
    AllInside column more.lines := by
  intro line member content
  exact .of_indent (Nat.lt_of_le_of_lt le (more.deeper line member content))

theorem Entries.inside_head {d : Nat} (entries : Entries d) (deeper : column < d) :
    Inside column (spaces d ++ entries.head) := by
  obtain ⟨spelling, tail, equality⟩ := entries.head_eq
  rw [equality]
  apply Inside.of_indent
  rwa [indent_keyText]

theorem Items.inside_head {s : Nat} (items : Items s) (le : column ≤ s) :
    Inside column (spaces s ++ items.head) := by
  obtain ⟨tail, equality⟩ := items.head_eq
  rw [equality]
  exact .of_dash le tail

theorem Block.inside_head {d : Nat} (block : Block d) (deeper : column < d) :
    Inside column (spaces d ++ block.head) := by
  cases block with
  | mapping entries => exact entries.inside_head deeper
  | sequence items => exact items.inside_head (Nat.le_of_lt deeper)

mutual

/-- Entries that stand deeper than a mapping lie inside it. -/
theorem Entries.allInside_tailLines : ∀ {d : Nat} (entries : Entries d), column < d →
    AllInside column entries.tailLines
  | _, .one entry, deeper => by
      rw [Entries.tailLines]
      exact entry.allInside_tailLines (Nat.le_of_lt deeper)
  | _, .cons entry gap rest, deeper => by
      rw [Entries.tailLines]
      apply (entry.allInside_tailLines (Nat.le_of_lt deeper)).append
      apply gap.allInside.append
      exact .cons (rest.inside_head deeper) (rest.allInside_tailLines deeper)

/-- All lines of an entry but the first lie inside the mapping of the entry. -/
theorem Entry.allInside_tailLines : ∀ {d : Nat} (entry : Entry d), column ≤ d →
    AllInside column entry.tailLines
  | _, .leaf _ _ _ more, le => by
      rw [Entry.tailLines]
      exact more.allInside le
  | _, .mapping _ _ _ gap _ deeper entries, le => by
      have below := Nat.lt_of_le_of_lt le deeper
      rw [Entry.tailLines]
      apply gap.allInside.append
      exact .cons (entries.inside_head below) (entries.allInside_tailLines below)
  | _, .sequence _ _ _ gap _ notShallower items, le => by
      have below := Nat.le_trans le notShallower
      rw [Entry.tailLines]
      apply gap.allInside.append
      exact .cons (items.inside_head below) (items.allInside_tailLines below)

/-- Items that stand deeper than the keys of a mapping or below them lie inside it. -/
theorem Items.allInside_tailLines : ∀ {s : Nat} (items : Items s), column ≤ s →
    AllInside column items.tailLines
  | _, .one item, le => by
      rw [Items.tailLines]
      exact item.allInside_tailLines le
  | _, .cons item gap rest, le => by
      rw [Items.tailLines]
      apply (item.allInside_tailLines le).append
      apply gap.allInside.append
      exact .cons (rest.inside_head le) (rest.allInside_tailLines le)

/-- An item that stands deeper than the keys of a mapping or below them lies inside it. -/
theorem Item.allInside_tailLines : ∀ {s : Nat} (item : Item s), column ≤ s →
    AllInside column item.tailLines
  | _, .leaf _ _ more, le => by
      rw [Item.tailLines]
      exact more.allInside le
  | s, .beside space block, le => by
      have below : column < s + space + 2 := by omega
      rw [Item.tailLines]
      exact block.allInside_tailLines below
  | _, .beneath _ _ gap _ deeper block, le => by
      have below := Nat.lt_of_le_of_lt le deeper
      rw [Item.tailLines]
      apply gap.allInside.append
      exact .cons (block.inside_head below) (block.allInside_tailLines below)

/-- A collection that stands deeper than a mapping lies inside it. -/
theorem Block.allInside_tailLines : ∀ {d : Nat} (block : Block d), column < d →
    AllInside column block.tailLines
  | _, .mapping entries, deeper => by
      rw [Block.tailLines]
      exact entries.allInside_tailLines deeper
  | _, .sequence items, deeper => by
      rw [Block.tailLines]
      exact items.allInside_tailLines (Nat.le_of_lt deeper)

end

/-! ### Lines behind a mapping -/

/-- What ends a mapping ends every mapping that stands deeper. -/
theorem endsAt_mono {line : List Char} {deeper : Nat} (le : column ≤ deeper)
    (ended : endsAt column line = true) : endsAt deeper line = true := by
  simp only [endsAt, Bool.or_eq_true, decide_eq_true_eq, Bool.and_eq_true, beq_iff_eq] at ended ⊢
  rcases ended with (shallow | ⟨same, noDash⟩) | marker
  · exact Or.inl (Or.inl (Nat.lt_of_lt_of_le shallow le))
  · rcases Nat.lt_or_eq_of_le le with less | equal
    · exact Or.inl (Or.inl (same ▸ less))
    · exact Or.inl (Or.inr ⟨same.trans equal, noDash⟩)
  · exact Or.inr marker

/-- The first line with content ends a mapping at `column`, if there is any. -/
def Ends (column : Nat) (lines : List (List Char)) : Prop :=
  ∀ line ∈ lines.find? isContent, endsAt column line = true

namespace Ends

theorem mono {lines : List (List Char)} (ends : Ends column lines) {deeper : Nat}
    (le : column ≤ deeper) : Ends deeper lines :=
  fun line member => endsAt_mono le (ends line member)

theorem behind_gap {lines : List (List Char)} (ends : Ends column lines) (gap : Gap) :
    Ends column (gap.lines ++ lines) := by
  have noContent : gap.lines.find? isContent = none := by
    rw [List.find?_eq_none]
    intro line member
    rw [gap.blank line member]
    exact Bool.false_ne_true
  rw [Ends, List.find?_append, noContent]
  exact ends

theorem of_line {line : List Char} (ended : endsAt column line = true)
    (content : isContent line = true) (rest : List (List Char)) :
    Ends column (line :: rest) := by
  intro other member
  rw [List.find?_cons_of_pos content] at member
  cases member
  exact ended

end Ends

/-- The next entries of a mapping end the values in front of them. -/
theorem Entries.ends {c : Nat} (entries : Entries c) (after : List (List Char)) :
    Ends c (entries.lines ++ after) := by
  obtain ⟨spelling, tail, equality⟩ := entries.head_eq
  refine Ends.of_line ?_ (entries.isContent_head c) _
  rw [equality]
  simp [endsAt, indent_keyText, isDashLine_keyText]

/-- The next items of a sequence end the mappings in front of them. -/
theorem Items.ends {s : Nat} (items : Items s) (after : List (List Char)) :
    Ends (s + 1) (items.lines ++ after) := by
  obtain ⟨tail, equality⟩ := items.head_eq
  refine Ends.of_line ?_ (items.isContent_head s) _
  rw [equality]
  simp [endsAt, indent_dashText]

/-- What stands behind the root of a document ends every mapping. -/
theorem Document.back_ends (document : Document) (column : Nat) : Ends column document.back := by
  apply Ends.behind_gap
  cases document.stop with
  | true =>
      have marker : isDocumentMarker "...".toList = true := by decide
      apply Ends.of_line
      · rw [endsAt, marker, Bool.or_true]
      · decide
  | false =>
      have nothing : Ends column [] := by
        intro line member
        cases member
      have atEnd := nothing.behind_gap document.appendix
      rwa [List.append_nil] at atEnd

end ConfigScan.Yaml.Layout
