/-
Module: ConfigScan.Proofs.Layout.TextEnd
Purpose: The last line of a block mapping when the texts of scalars are told from comments. A line
  of a scalar is text even where it begins with a number sign, and the loader takes such a line for
  a comment.
Main exports: Layout.textEnd, Layout.EndsVisibly, Layout.Document.spanned,
  Layout.Document.EndsVisibly, Layout.Document.marked_eq_spanned_iff
-/
import ConfigScan.Proofs.Document.Markers
import ConfigScan.Proofs.Layout.Search

namespace ConfigScan.Yaml.Layout

/-! ### The last line of a text -/

/-- Nothing stands on the line but white space. -/
def isBlankLine (line : List Char) : Bool := line.all Text.isBlank

/-- The number of lines up to the last one that is not blank. -/
def textEnd (lines : List (List Char)) : Nat := (lines.rdropWhile isBlankLine).length

/-- The last of the lines that is not blank does not begin with a number sign, so that it cannot be
    taken for a comment. -/
def EndsVisibly (lines : List (List Char)) : Prop :=
  ∀ line ∈ (lines.rdropWhile isBlankLine).getLast?, isContent line = true

instance (lines : List (List Char)) : Decidable (EndsVisibly lines) :=
  decidable_of_iff ((lines.rdropWhile isBlankLine).getLast?.all isContent = true) <| by
    rw [EndsVisibly]
    cases (lines.rdropWhile isBlankLine).getLast? <;> simp

theorem isContent_of_isBlankLine {line : List Char} (blank : isBlankLine line = true) :
    isContent line = false := by
  have nothing : line.dropWhile Text.isBlank = [] :=
    List.dropWhile_eq_nil_iff.mpr (List.all_eq_true.mp blank)
  rw [isContent_eq, nothing]

/-- The last line with content is the last one that is not blank, unless that one begins with a
    number sign. -/
theorem contentEnd_eq_textEnd_iff (lines : List (List Char)) :
    contentEnd lines = textEnd lines ↔ EndsVisibly lines := by
  induction lines using List.reverseRecOn with
  | nil => simp [contentEnd, textEnd, EndsVisibly]
  | append_singleton front last inductionHypothesis =>
      cases blank : isBlankLine last with
      | true =>
          rw [contentEnd_concat_blank (isContent_of_isBlankLine blank), textEnd, EndsVisibly,
            List.rdropWhile_concat_pos _ _ _ blank]
          exact inductionHypothesis
      | false =>
          rw [textEnd, EndsVisibly, List.rdropWhile_concat_neg _ _ _ (by simp [blank])]
          cases shown : isContent last with
          | true => simp [contentEnd_concat_content shown, shown]
          | false =>
              have shorter := contentEnd_le_length front
              rw [contentEnd_concat_blank shown]
              simp [shown]
              omega

/-! ### The lines that a mapping takes -/

/-- The node of a block mapping whose first key has `line` lines in front of it: it reaches to the
    last of the lines below that is not blank. Comments in the gaps of a mapping all stand in front
    of its last entry, so what is not blank at its end is text. -/
def spannedNode (entries : Mapping) (line : Nat) (below : List (List Char)) : Node :=
  .map (entries.withLines (line + 1) (line + 1 + textEnd below))

mutual

/-- The entries with the lines that every block mapping takes, when `line` lines stand in front. -/
def Entries.spanned (line : Nat) : {c : Nat} → Entries c → Mapping
  | _, .one entry => [entry.spanned line]
  | _, .cons entry gap rest =>
      entry.spanned line :: rest.spanned (line + 1 + entry.tailLines.length + gap.lines.length)

/-- The entry with the lines that every block mapping takes. A leaf has none. -/
def Entry.spanned (line : Nat) : {c : Nat} → Entry c → Key × Node
  | _, .leaf key _ value _ => (key.key, value.unmarked)
  | _, .mapping key _ _ gap _ _ entries =>
      (key.key, spannedNode (entries.spanned (line + 1 + gap.lines.length))
        (line + 1 + gap.lines.length) entries.tailLines)
  | _, .sequence key _ _ gap _ _ items =>
      (key.key, .seq (items.spanned (line + 1 + gap.lines.length)))

/-- The items with the lines that every block mapping takes. -/
def Items.spanned (line : Nat) : {s : Nat} → Items s → List Node
  | _, .one item => [item.spanned line]
  | _, .cons item gap rest =>
      item.spanned line :: rest.spanned (line + 1 + item.tailLines.length + gap.lines.length)

/-- The item with the lines that every block mapping takes. A leaf has none. -/
def Item.spanned (line : Nat) : {s : Nat} → Item s → Node
  | _, .leaf _ value _ => value.unmarked
  | _, .beside _ block => block.spanned line
  | _, .beneath _ _ gap _ _ block => block.spanned (line + 1 + gap.lines.length)

/-- The collection with the lines that every block mapping takes. -/
def Block.spanned (line : Nat) : {c : Nat} → Block c → Node
  | _, .mapping entries => spannedNode (entries.spanned line) line entries.tailLines
  | _, .sequence items => .seq (items.spanned line)

end

/-- The node of a whole document with the lines that every block mapping takes: from its first key
    to the last line of its last entry that is neither blank nor a comment. The lines on which a
    scalar goes on are its text, also where one begins with a number sign. -/
def Document.spanned (document : Document) : Node :=
  match document.root with
  | .leaf value _ => value.unmarked
  | .block block => block.spanned document.front.length

/-! ### Mappings that end in a number sign -/

mutual

/-- No mapping in the values of the entries ends in a line that begins with a number sign. -/
def Entries.EndVisibly : {c : Nat} → Entries c → Prop
  | _, .one entry => entry.EndVisibly
  | _, .cons entry _ rest => entry.EndVisibly ∧ rest.EndVisibly

/-- No mapping in the value of the entry ends in a line that begins with a number sign. -/
def Entry.EndVisibly : {c : Nat} → Entry c → Prop
  | _, .leaf _ _ _ _ => True
  | _, .mapping _ _ _ _ _ _ entries => Layout.EndsVisibly entries.tailLines ∧ entries.EndVisibly
  | _, .sequence _ _ _ _ _ _ items => items.EndVisibly

/-- No mapping in the items ends in a line that begins with a number sign. -/
def Items.EndVisibly : {s : Nat} → Items s → Prop
  | _, .one item => item.EndVisibly
  | _, .cons item _ rest => item.EndVisibly ∧ rest.EndVisibly

/-- No mapping in the item ends in a line that begins with a number sign. -/
def Item.EndVisibly : {s : Nat} → Item s → Prop
  | _, .leaf _ _ _ => True
  | _, .beside _ block => block.EndVisibly
  | _, .beneath _ _ _ _ _ block => block.EndVisibly

/-- No mapping of the collection ends in a line that begins with a number sign. -/
def Block.EndVisibly : {c : Nat} → Block c → Prop
  | _, .mapping entries => Layout.EndsVisibly entries.tailLines ∧ entries.EndVisibly
  | _, .sequence items => items.EndVisibly

end

/-- No block mapping of the document ends in a line that begins with a number sign. -/
def Document.EndsVisibly (document : Document) : Prop :=
  match document.root with
  | .leaf _ _ => True
  | .block block => block.EndVisibly

/-! ### Both nodes -/

/-- The last lines of the two nodes of a mapping agree when the mapping does not end in a number
    sign. -/
theorem mappingNode_eq_spannedNode_iff {entries others : Mapping} {line : Nat}
    {below : List (List Char)} (small : line + 1 + below.length < 2 ^ 64) :
    mappingNode entries line below = spannedNode others line below ↔
      EndsVisibly below ∧ entries = others := by
  have contentSmall := contentEnd_le_length below
  have textSmall : textEnd below ≤ below.length := (List.rdropWhile_prefix _ below).length_le
  rw [← contentEnd_eq_textEnd_iff]
  constructor
  · intro same
    obtain ⟨sameEntries, _, sameLast⟩ := Mapping.withLines_inj (Node.map.inj same)
    have equal := Mapping.lineValue_inj (by omega) (by omega) sameLast
    exact ⟨by omega, sameEntries⟩
  · rintro ⟨sameEnd, rfl⟩
    rw [mappingNode, spannedNode, sameEnd]

mutual

theorem Entries.marked_eq_spanned_iff : ∀ {c : Nat} (entries : Entries c) {line : Nat},
    line + 1 + entries.tailLines.length < 2 ^ 64 →
      (entries.marked line = entries.spanned line ↔ entries.EndVisibly)
  | _, .one entry, line, small => by
      rw [Entries.marked, Entries.spanned, List.cons_eq_cons, Entries.EndVisibly,
        entry.marked_eq_spanned_iff small]
      exact and_iff_left rfl
  | _, .cons entry gap rest, line, small => by
      simp only [Entries.tailLines, List.length_append, List.length_cons] at small
      rw [Entries.marked, Entries.spanned, List.cons_eq_cons, Entries.EndVisibly,
        entry.marked_eq_spanned_iff (by omega), rest.marked_eq_spanned_iff (by omega)]

theorem Entry.marked_eq_spanned_iff : ∀ {c : Nat} (entry : Entry c) {line : Nat},
    line + 1 + entry.tailLines.length < 2 ^ 64 →
      (entry.marked line = entry.spanned line ↔ entry.EndVisibly)
  | _, .leaf _ _ _ _, _, _ => iff_of_true rfl trivial
  | _, .mapping key _ _ gap inner _ entries, line, small => by
      simp only [Entry.tailLines, List.length_append, List.length_cons] at small
      rw [Entry.marked, Entry.spanned, Prod.mk.injEq, Entry.EndVisibly,
        mappingNode_eq_spannedNode_iff (by omega), entries.marked_eq_spanned_iff (by omega)]
      exact and_iff_right rfl
  | _, .sequence key _ _ gap inner _ items, line, small => by
      simp only [Entry.tailLines, List.length_append, List.length_cons] at small
      rw [Entry.marked, Entry.spanned, Prod.mk.injEq, Entry.EndVisibly, Node.seq.injEq,
        items.marked_eq_spanned_iff (by omega)]
      exact and_iff_right rfl

theorem Items.marked_eq_spanned_iff : ∀ {s : Nat} (items : Items s) {line : Nat},
    line + 1 + items.tailLines.length < 2 ^ 64 →
      (items.marked line = items.spanned line ↔ items.EndVisibly)
  | _, .one item, line, small => by
      rw [Items.marked, Items.spanned, List.cons_eq_cons, Items.EndVisibly,
        item.marked_eq_spanned_iff small]
      exact and_iff_left rfl
  | _, .cons item gap rest, line, small => by
      simp only [Items.tailLines, List.length_append, List.length_cons] at small
      rw [Items.marked, Items.spanned, List.cons_eq_cons, Items.EndVisibly,
        item.marked_eq_spanned_iff (by omega), rest.marked_eq_spanned_iff (by omega)]

theorem Item.marked_eq_spanned_iff : ∀ {s : Nat} (item : Item s) {line : Nat},
    line + 1 + item.tailLines.length < 2 ^ 64 →
      (item.marked line = item.spanned line ↔ item.EndVisibly)
  | _, .leaf _ _ _, _, _ => iff_of_true rfl trivial
  | _, .beside _ block, _, small => block.marked_eq_spanned_iff small
  | _, .beneath _ _ gap _ _ block, line, small => by
      simp only [Item.tailLines, List.length_append, List.length_cons] at small
      exact block.marked_eq_spanned_iff (by omega)

theorem Block.marked_eq_spanned_iff : ∀ {c : Nat} (block : Block c) {line : Nat},
    line + 1 + block.tailLines.length < 2 ^ 64 →
      (block.marked line = block.spanned line ↔ block.EndVisibly)
  | _, .mapping entries, line, small => by
      rw [Block.tailLines] at small
      rw [Block.marked, Block.spanned, Block.EndVisibly, mappingNode_eq_spannedNode_iff small,
        entries.marked_eq_spanned_iff small]
  | _, .sequence items, line, small => by
      rw [Block.tailLines] at small
      rw [Block.marked, Block.spanned, Block.EndVisibly, Node.seq.injEq,
        items.marked_eq_spanned_iff small]

end

/-- With comments told from texts nothing changes exactly when no mapping ends in a number sign. -/
theorem Document.marked_eq_spanned_iff (document : Document)
    (small : document.lines.length < 2 ^ 63) :
    document.marked = document.spanned ↔ document.EndsVisibly := by
  rw [Document.lines, List.length_append, List.length_append] at small
  rw [Document.marked, Document.spanned, Document.EndsVisibly]
  cases root : document.root with
  | leaf value lines => exact iff_of_true rfl trivial
  | block block =>
      rw [root, Root.lines, Block.lines, List.length_cons] at small
      exact block.marked_eq_spanned_iff (by omega)

end ConfigScan.Yaml.Layout
