/-
Module: ConfigScan.Proofs.Layout.Retold
Purpose: The texts of a document replaced by others that take as many lines. That changes the lines
  of no mapping exactly when no text stands in front of a mapping of its sequence and no mapping
  ends with one.
Main exports: Layout.Contents, Layout.Document.retold, Layout.Document.KeepsLines,
  Layout.Document.keepsLines_iff
-/
import ConfigScan.Proofs.Layout.Disturbed
import ConfigScan.Proofs.Layout.Texts
import ConfigScan.Proofs.Yaml.MarkingOrder

namespace ConfigScan.Yaml.Layout

/-! ### Other contents -/

/-- What the texts of a document are replaced with: the end of the first line and the value of a
    text by the number of lines in front of it, and its further lines by the column of its item and
    the number of lines in front of each. -/
structure Contents where
  tail : Nat → DashTail
  noKey : ∀ index, KeyLine.read? (dashText (tail index)) = none
  value : Nat → String
  line : Nat → Nat → List Char
  deeper : ∀ column index, isContent (line column index) = true →
    column < indent (line column index)

namespace Contents

/-- Some lines of a text that belongs to an item at a column. -/
def lines (contents : Contents) (column index count : Nat) : List (List Char) :=
  (List.range' index count).map (contents.line column)

theorem length_lines (contents : Contents) (column index count : Nat) :
    (contents.lines column index count).length = count := by
  rw [lines, List.length_map, List.length_range']

/-- The further lines of a text are as many as those that they replace. -/
def more (contents : Contents) {s : Nat} (index : Nat) (old : Continuation s) : Continuation s where
  lines := contents.lines s index old.lines.length
  deeper := by
    intro line member
    obtain ⟨place, _, rfl⟩ := List.mem_map.mp member
    exact contents.deeper s place

end Contents

/-- A leaf takes more than one line. -/
def Continuation.isText {s : Nat} (more : Continuation s) : Bool := !more.lines.isEmpty

variable (contents : Contents)

mutual

/-- The entries with other texts, when `line` lines stand in front. -/
def Entries.retold (line : Nat) : {c : Nat} → Entries c → Entries c
  | _, .one entry => .one (entry.retold line)
  | _, .cons entry gap rest =>
      .cons (entry.retold line) gap
        (rest.retold (line + 1 + entry.tailLines.length + gap.lines.length))

/-- The entry with other texts among the items that it holds. -/
def Entry.retold (line : Nat) : {c : Nat} → Entry c → Entry c
  | _, .leaf key tail value more => .leaf key tail value more
  | _, .mapping key tail notInline gap inner deeper entries =>
      .mapping key tail notInline gap inner deeper
        (entries.retold (line + 1 + gap.lines.length))
  | _, .sequence key tail notInline gap inner notShallower items =>
      .sequence key tail notInline gap inner notShallower
        (items.retold (line + 1 + gap.lines.length))

/-- The items with other texts. -/
def Items.retold (line : Nat) : {s : Nat} → Items s → Items s
  | _, .one item => .one (item.retold line)
  | _, .cons item gap rest =>
      .cons (item.retold line) gap
        (rest.retold (line + 1 + item.tailLines.length + gap.lines.length))

/-- The item with other texts. A scalar on one line stays. -/
def Item.retold (line : Nat) : {s : Nat} → Item s → Item s
  | _, .leaf tail value more =>
      .leaf (if more.isText then contents.tail line else tail)
        (if more.isText then .str (contents.value line) else value)
        (contents.more (line + 1) more)
  | _, .beside space block => .beside space (block.retold line)
  | _, .beneath tail noKey gap inner deeper block =>
      .beneath tail noKey gap inner deeper (block.retold (line + 1 + gap.lines.length))

/-- The collection with other texts. -/
def Block.retold (line : Nat) : {c : Nat} → Block c → Block c
  | _, .mapping entries => .mapping (entries.retold line)
  | _, .sequence items => .sequence (items.retold line)

end

/-- The document with other texts. -/
def Document.retold (document : Document) : Document :=
  match document.root with
  | .leaf _ _ => document
  | .block block => { document with root := .block (block.retold contents document.front.length) }

/-! ### What stays -/

mutual

theorem Entries.length_retold : ∀ {c : Nat} (entries : Entries c) (line : Nat),
    (entries.retold contents line).tailLines.length = entries.tailLines.length
  | _, .one entry, line => entry.length_retold line
  | _, .cons entry gap rest, line => by
      simp only [Entries.retold, Entries.tailLines, List.length_append, List.length_cons,
        entry.length_retold, rest.length_retold]

theorem Entry.length_retold : ∀ {c : Nat} (entry : Entry c) (line : Nat),
    (entry.retold contents line).tailLines.length = entry.tailLines.length
  | _, .leaf _ _ _ _, _ => rfl
  | _, .mapping _ _ _ gap _ _ entries, line => by
      simp only [Entry.retold, Entry.tailLines, List.length_append, List.length_cons,
        entries.length_retold]
  | _, .sequence _ _ _ gap _ _ items, line => by
      simp only [Entry.retold, Entry.tailLines, List.length_append, List.length_cons,
        items.length_retold]

theorem Items.length_retold : ∀ {s : Nat} (items : Items s) (line : Nat),
    (items.retold contents line).tailLines.length = items.tailLines.length
  | _, .one item, line => item.length_retold line
  | _, .cons item gap rest, line => by
      simp only [Items.retold, Items.tailLines, List.length_append, List.length_cons,
        item.length_retold, rest.length_retold]

theorem Item.length_retold : ∀ {s : Nat} (item : Item s) (line : Nat),
    (item.retold contents line).tailLines.length = item.tailLines.length
  | _, .leaf _ _ more, line => contents.length_lines _ _ _
  | _, .beside _ block, line => block.length_retold line
  | _, .beneath _ _ gap _ _ block, line => by
      simp only [Item.retold, Item.tailLines, List.length_append, List.length_cons,
        block.length_retold]

theorem Block.length_retold : ∀ {c : Nat} (block : Block c) (line : Nat),
    (block.retold contents line).tailLines.length = block.tailLines.length
  | _, .mapping entries, line => entries.length_retold line
  | _, .sequence items, line => items.length_retold line

end

mutual

theorem Entries.texts_retold : ∀ {c : Nat} (entries : Entries c) (line : Nat), entries.OfTexts →
    (entries.retold contents line).OfTexts
  | _, .one entry, line, texts => entry.texts_retold line texts
  | _, .cons entry _ rest, line, texts =>
      ⟨entry.texts_retold line texts.1, rest.texts_retold _ texts.2⟩

theorem Entry.texts_retold : ∀ {c : Nat} (entry : Entry c) (line : Nat), entry.OfTexts →
    (entry.retold contents line).OfTexts
  | _, .leaf _ _ _ _, _, scalar => scalar
  | _, .mapping _ _ _ _ _ _ entries, _, texts => entries.texts_retold _ texts
  | _, .sequence _ _ _ _ _ _ items, _, texts => items.texts_retold _ texts

theorem Items.texts_retold : ∀ {s : Nat} (items : Items s) (line : Nat), items.OfTexts →
    (items.retold contents line).OfTexts
  | _, .one item, line, texts => item.texts_retold line texts
  | _, .cons item _ rest, line, texts =>
      ⟨item.texts_retold line texts.1, rest.texts_retold _ texts.2⟩

theorem Item.texts_retold : ∀ {s : Nat} (item : Item s) (line : Nat), item.OfTexts →
    (item.retold contents line).OfTexts
  | _, .leaf tail value more, line, texts => by
      rw [Item.retold, Item.OfTexts]
      cases more.isText with
      | true => exact ⟨rfl, contents.noKey line⟩
      | false => exact texts
  | _, .beside _ block, line, texts => block.texts_retold line texts
  | _, .beneath _ _ _ _ _ block, _, texts => block.texts_retold _ texts

theorem Block.texts_retold : ∀ {c : Nat} (block : Block c) (line : Nat), block.OfTexts →
    (block.retold contents line).OfTexts
  | _, .mapping entries, line, texts => entries.texts_retold line texts
  | _, .sequence items, line, texts => items.texts_retold line texts

end

/-- The lines of all texts are judged as those were that they replace. -/
def Contents.Judged (contents : Contents) (judge judge' : List (List Char) → Bool) : Prop :=
  ∀ column index old, judge (contents.lines column index (List.length old)) = judge' old

section

variable {contents} {judge judge' : List (List Char) → Bool}

mutual

theorem Items.trails_retold (judged : contents.Judged judge judge') :
    ∀ {s : Nat} (items : Items s) (line : Nat) (trailing : Bool),
      (items.retold contents line).trails judge trailing = items.trails judge' trailing
  | _, .one item, line, trailing => item.trails_retold judged line trailing
  | _, .cons item gap rest, line, trailing => by
      rw [Items.retold, Items.trails, item.trails_retold judged, rest.trails_retold judged,
        Items.trails]

theorem Item.trails_retold (judged : contents.Judged judge judge') :
    ∀ {s : Nat} (item : Item s) (line : Nat) (trailing : Bool),
      (item.retold contents line).trails judge trailing = item.trails judge' trailing
  | s, .leaf _ _ more, line, trailing => by
      rw [Item.retold, Item.trails, Item.trails, Contents.more, judged]
  | _, .beside _ block, line, trailing => block.trails_retold judged line trailing
  | _, .beneath _ _ _ _ _ block, _, trailing => block.trails_retold judged _ trailing

theorem Block.trails_retold (judged : contents.Judged judge judge') :
    ∀ {c : Nat} (block : Block c) (line : Nat) (trailing : Bool),
      (block.retold contents line).trails judge trailing = block.trails judge' trailing
  | _, .mapping _, _, _ => rfl
  | _, .sequence items, line, trailing => items.trails_retold judged line trailing

end

mutual

theorem Entries.clear_retold (judged : contents.Judged judge judge') :
    ∀ {c : Nat} (entries : Entries c) (line : Nat),
      (entries.retold contents line).Clear judge ↔ entries.Clear judge'
  | _, .one entry, line => entry.clear_retold judged line
  | _, .cons entry _ rest, line =>
      and_congr (entry.clear_retold judged line) (rest.clear_retold judged _)

theorem Entry.clear_retold (judged : contents.Judged judge judge') :
    ∀ {c : Nat} (entry : Entry c) (line : Nat),
      (entry.retold contents line).Clear judge ↔ entry.Clear judge'
  | _, .leaf _ _ _ _, _ => Iff.rfl
  | _, .mapping _ _ _ _ _ _ entries, _ => entries.clear_retold judged _
  | _, .sequence _ _ _ _ _ _ items, _ => items.clear_retold judged _ false

theorem Items.clear_retold (judged : contents.Judged judge judge') :
    ∀ {s : Nat} (items : Items s) (line : Nat) (trailing : Bool),
      (items.retold contents line).Clear judge trailing ↔ items.Clear judge' trailing
  | _, .one item, line, trailing => item.clear_retold judged line trailing
  | _, .cons item _ rest, line, trailing => by
      rw [Items.retold, Items.Clear, item.trails_retold judged, Items.Clear]
      exact and_congr (item.clear_retold judged line trailing) (rest.clear_retold judged _ _)

theorem Item.clear_retold (judged : contents.Judged judge judge') :
    ∀ {s : Nat} (item : Item s) (line : Nat) (trailing : Bool),
      (item.retold contents line).Clear judge trailing ↔ item.Clear judge' trailing
  | _, .leaf _ _ _, _, _ => Iff.rfl
  | _, .beside _ block, line, trailing => block.clear_retold judged line trailing
  | _, .beneath _ _ _ _ _ block, _, trailing => block.clear_retold judged _ trailing

theorem Block.clear_retold (judged : contents.Judged judge judge') :
    ∀ {c : Nat} (block : Block c) (line : Nat) (trailing : Bool),
      (block.retold contents line).Clear judge trailing ↔ block.Clear judge' trailing
  | _, .mapping entries, line, _ => and_congr_right fun _ => entries.clear_retold judged line
  | _, .sequence items, line, trailing => items.clear_retold judged line trailing

end

end

/-! ### Where a part ends -/

mutual

/-- The last lines of the entries are those of a text. -/
def Entries.endsInText : {c : Nat} → Entries c → Bool
  | _, .one entry => entry.endsInText
  | _, .cons _ _ rest => rest.endsInText

/-- The last lines of the entry are those of a text among items. -/
def Entry.endsInText : {c : Nat} → Entry c → Bool
  | _, .leaf _ _ _ _ => false
  | _, .mapping _ _ _ _ _ _ entries => entries.endsInText
  | _, .sequence _ _ _ _ _ _ items => items.endsInText

/-- The last lines of the items are those of a text. -/
def Items.endsInText : {s : Nat} → Items s → Bool
  | _, .one item => item.endsInText
  | _, .cons _ _ rest => rest.endsInText

/-- The last lines of the item are those of a text. -/
def Item.endsInText : {s : Nat} → Item s → Bool
  | _, .leaf _ _ more => more.isText
  | _, .beside _ block => block.endsInText
  | _, .beneath _ _ _ _ _ block => block.endsInText

/-- The last lines of the collection are those of a text. -/
def Block.endsInText : {c : Nat} → Block c → Bool
  | _, .mapping entries => entries.endsInText
  | _, .sequence items => items.endsInText

end

/-- Where a part of a document ends with other texts, and whether that is in a text: at the same
    place as before, or with the lines of the text. -/
inductive EndsAs : Bool → Nat → (Contents → Nat) → Prop where
  | fixed {place : Nat} {ends : Contents → Nat} (same : ∀ contents, ends contents = place) :
      EndsAs false place ends
  | inText {place : Nat} {ends : Contents → Nat} (front column index count : Nat)
      (positive : 0 < count)
      (same : ∀ contents, ends contents = front + contentEnd (contents.lines column index count)) :
      EndsAs true place ends

theorem EndsAs.behind {inText : Bool} {place : Nat} {ends : Contents → Nat}
    (endsAs : EndsAs inText place ends) (before : Nat) :
    EndsAs inText (before + place) fun contents => before + ends contents := by
  cases endsAs with
  | fixed same => exact .fixed fun contents => by rw [same]
  | inText front column index count positive same =>
      exact .inText (before + front) column index count positive fun contents => by
        rw [same, Nat.add_assoc]

theorem contentEnd_behind {line : List Char} (content : isContent line = true)
    (front between back : List (List Char)) :
    contentEnd (front ++ (between ++ line :: back)) =
      front.length + between.length + 1 + contentEnd back := by
  rw [← List.append_assoc, contentEnd_append_cons content, List.length_append]

mutual

theorem Entries.ends_retold : ∀ {c : Nat} (entries : Entries c) (line : Nat),
    EndsAs entries.endsInText (contentEnd entries.tailLines) fun contents =>
      contentEnd (entries.retold contents line).tailLines
  | _, .one entry, line => entry.ends_retold line
  | c, .cons entry gap rest, line => by
      simp only [Entries.retold, Entries.tailLines, contentEnd_behind (Entries.isContent_head _ c),
        entry.length_retold]
      exact (rest.ends_retold _).behind _

theorem Entry.ends_retold : ∀ {c : Nat} (entry : Entry c) (line : Nat),
    EndsAs entry.endsInText (contentEnd entry.tailLines) fun contents =>
      contentEnd (entry.retold contents line).tailLines
  | _, .leaf _ _ _ _, _ => .fixed fun _ => rfl
  | _, .mapping _ _ _ gap inner _ entries, line => by
      simp only [Entry.retold, Entry.tailLines,
        contentEnd_append_cons (Entries.isContent_head _ inner)]
      exact (entries.ends_retold _).behind _
  | _, .sequence _ _ _ gap inner _ items, line => by
      simp only [Entry.retold, Entry.tailLines,
        contentEnd_append_cons (Items.isContent_head _ inner)]
      exact (items.ends_retold _).behind _

theorem Items.ends_retold : ∀ {s : Nat} (items : Items s) (line : Nat),
    EndsAs items.endsInText (contentEnd items.tailLines) fun contents =>
      contentEnd (items.retold contents line).tailLines
  | _, .one item, line => item.ends_retold line
  | s, .cons item gap rest, line => by
      simp only [Items.retold, Items.tailLines, contentEnd_behind (Items.isContent_head _ s),
        item.length_retold]
      exact (rest.ends_retold _).behind _

theorem Item.ends_retold : ∀ {s : Nat} (item : Item s) (line : Nat),
    EndsAs item.endsInText (contentEnd item.tailLines) fun contents =>
      contentEnd (item.retold contents line).tailLines
  | s, .leaf tail value more, line => by
      simp only [Item.retold, Item.tailLines, Item.endsInText, Contents.more]
      cases lines : more.lines with
      | nil =>
          rw [Continuation.isText, lines]
          exact .fixed fun _ => rfl
      | cons first others =>
          rw [Continuation.isText, lines]
          exact .inText 0 s (line + 1) (first :: others).length (Nat.succ_pos _) fun contents => by
            rw [Nat.zero_add]
  | _, .beside _ block, line => block.ends_retold line
  | _, .beneath _ _ gap inner _ block, line => by
      simp only [Item.retold, Item.tailLines, contentEnd_append_cons (Block.isContent_head _ inner)]
      exact (block.ends_retold _).behind _

theorem Block.ends_retold : ∀ {c : Nat} (block : Block c) (line : Nat),
    EndsAs block.endsInText (contentEnd block.tailLines) fun contents =>
      contentEnd (block.retold contents line).tailLines
  | _, .mapping entries, line => entries.ends_retold line
  | _, .sequence items, line => items.ends_retold line

end

/-! ### The lines of mappings -/

mutual

/-- A mapping in the values of the entries ends in a text. -/
def Entries.holdsEnd : {c : Nat} → Entries c → Bool
  | _, .one entry => entry.holdsEnd
  | _, .cons entry _ rest => entry.holdsEnd || rest.holdsEnd

/-- A mapping in the value of the entry ends in a text. -/
def Entry.holdsEnd : {c : Nat} → Entry c → Bool
  | _, .leaf _ _ _ _ => false
  | _, .mapping _ _ _ _ _ _ entries => entries.endsInText || entries.holdsEnd
  | _, .sequence _ _ _ _ _ _ items => items.holdsEnd

/-- A mapping among the items ends in a text. -/
def Items.holdsEnd : {s : Nat} → Items s → Bool
  | _, .one item => item.holdsEnd
  | _, .cons item _ rest => item.holdsEnd || rest.holdsEnd

/-- A mapping in the item ends in a text. -/
def Item.holdsEnd : {s : Nat} → Item s → Bool
  | _, .leaf _ _ _ => false
  | _, .beside _ block => block.holdsEnd
  | _, .beneath _ _ _ _ _ block => block.holdsEnd

/-- A mapping in the collection ends in a text. -/
def Block.holdsEnd : {c : Nat} → Block c → Bool
  | _, .mapping entries => entries.endsInText || entries.holdsEnd
  | _, .sequence items => items.holdsEnd

end

/-- A mapping of the document ends in a text. -/
def Document.holdsEnd (document : Document) : Bool :=
  match document.root with
  | .leaf _ _ => false
  | .block block => block.holdsEnd

/-- The lines of mappings with other texts, and whether one ends in a text: they are the same as
    before, or one of them ends with the lines of the text. -/
inductive SpansAs : Bool → List Span → (Contents → List Span) → Prop where
  | fixed {old : List Span} {spans : Contents → List Span}
      (same : ∀ contents, spans contents = old) :
      SpansAs false old spans
  | inText {old : List Span} {spans : Contents → List Span} (address : List Nat)
      (first front column index count : Nat) (positive : 0 < count)
      (member : ∀ contents,
        ⟨address, first, front + contentEnd (contents.lines column index count)⟩ ∈ spans contents) :
      SpansAs true old spans

theorem SpansAs.append {inText inText' : Bool} {old old' : List Span}
    {spans spans' : Contents → List Span} (front : SpansAs inText old spans)
    (back : SpansAs inText' old' spans') :
    SpansAs (inText || inText') (old ++ old') fun contents =>
      spans contents ++ spans' contents := by
  cases front with
  | inText address first front column index count positive member =>
      exact .inText address first front column index count positive fun contents =>
        List.mem_append_left _ (member contents)
  | fixed same =>
      cases back with
      | fixed same' => exact .fixed fun contents => by rw [same, same']
      | inText address first front column index count positive member =>
          exact .inText address first front column index count positive fun contents =>
            List.mem_append_right _ (member contents)

/-- A mapping in front of what it holds. -/
theorem SpansAs.mapping {endsInText holdsEnd : Bool} {place : Nat} {ends : Contents → Nat}
    (endsAs : EndsAs endsInText place ends) {old : List Span} {spans : Contents → List Span}
    (inside : SpansAs holdsEnd old spans) (address : List Nat) (first : Nat) :
    SpansAs (endsInText || holdsEnd) (⟨address, first, first + place⟩ :: old) fun contents =>
      ⟨address, first, first + ends contents⟩ :: spans contents := by
  cases endsAs with
  | fixed same =>
      have own : SpansAs false [⟨address, first, first + place⟩] fun contents =>
          [⟨address, first, first + ends contents⟩] := .fixed fun contents => by rw [same]
      exact own.append inside
  | inText front column index count positive same =>
      exact .inText address first (first + front) column index count positive fun contents => by
        rw [same, Nat.add_assoc]
        exact List.mem_cons_self

theorem Entry.isMarker_marked {c : Nat} (entry : Entry c) (line : Nat) :
    (entry.marked line).1.isMarker = false :=
  Value.isMarker_key? (entry.key?_eq line)

theorem Entries.unmarked_marked : ∀ {c : Nat} (entries : Entries c) (line : Nat),
    (entries.marked line).Unmarked
  | _, .one entry, line => by
      intro pair member
      rw [List.mem_singleton.mp member]
      exact entry.isMarker_marked line
  | _, .cons entry gap rest, line => by
      intro pair member
      rcases List.mem_cons.mp member with same | later
      · rw [same]
        exact entry.isMarker_marked line
      · exact rest.unmarked_marked _ pair later

theorem Entries.spans_mappingNode {c : Nat} (entries : Entries c) {line : Nat}
    (small : line + 1 + entries.tailLines.length < 2 ^ 63) (address : List Nat) :
    (mappingNode (entries.marked line) line entries.tailLines).spans address =
      ⟨address, line + 1, line + 1 + contentEnd entries.tailLines⟩ ::
        Node.entrySpans address 0 (entries.marked line) := by
  have le := contentEnd_le_length entries.tailLines
  rw [mappingNode,
    Node.spans_withLines (entries.unmarked_marked line) address (by omega) (by omega)]

theorem entrySpans_cons (address : List Nat) (index : Nat) (entry : Key × Node) (rest : Mapping) :
    Node.entrySpans address index (entry :: rest) =
      entry.2.spans (address ++ [index]) ++ Node.entrySpans address (index + 1) rest := rfl

theorem entrySpans_singleton (address : List Nat) (index : Nat) (entry : Key × Node) :
    Node.entrySpans address index [entry] = entry.2.spans (address ++ [index]) := by
  rw [entrySpans_cons, Node.entrySpans, List.append_nil]

theorem itemSpans_singleton (address : List Nat) (index : Nat) (item : Node) :
    Node.itemSpans address index [item] = item.spans (address ++ [index]) := by
  rw [Node.itemSpans, Node.itemSpans, List.append_nil]

/-- A mapping with other texts. -/
theorem Entries.spansAs_mapping {c : Nat} (entries : Entries c) {line : Nat}
    (small : line + 1 + entries.tailLines.length < 2 ^ 63) (address : List Nat)
    (inside : SpansAs entries.holdsEnd (Node.entrySpans address 0 (entries.marked line))
      fun contents => Node.entrySpans address 0 ((entries.retold contents line).marked line)) :
    SpansAs (entries.endsInText || entries.holdsEnd)
      ((mappingNode (entries.marked line) line entries.tailLines).spans address)
      fun contents => (mappingNode ((entries.retold contents line).marked line) line
        (entries.retold contents line).tailLines).spans address := by
  have smallToo : ∀ contents : Contents,
      line + 1 + (entries.retold contents line).tailLines.length < 2 ^ 63 := by
    intro contents
    rwa [entries.length_retold]
  simp only [entries.spans_mappingNode small, Entries.spans_mappingNode _ (smallToo _)]
  exact .mapping (entries.ends_retold line) inside address (line + 1)

mutual

theorem Entries.spans_retold (address : List Nat) : ∀ {c : Nat} (entries : Entries c)
    (index line : Nat), line + 1 + entries.tailLines.length < 2 ^ 63 →
    SpansAs entries.holdsEnd (Node.entrySpans address index (entries.marked line)) fun contents =>
      Node.entrySpans address index ((entries.retold contents line).marked line)
  | _, .one entry, index, line, small => by
      simp only [Entries.retold, Entries.marked, entrySpans_singleton]
      exact entry.spans_retold (address ++ [index]) line small
  | _, .cons entry gap rest, index, line, small => by
      simp only [Entries.tailLines, List.length_append, List.length_cons] at small
      simp only [Entries.retold, Entries.marked, entrySpans_cons, entry.length_retold]
      exact (entry.spans_retold (address ++ [index]) line (by omega)).append
        (rest.spans_retold address (index + 1) _ (by omega))

theorem Entry.spans_retold (address : List Nat) : ∀ {c : Nat} (entry : Entry c) (line : Nat),
    line + 1 + entry.tailLines.length < 2 ^ 63 →
    SpansAs entry.holdsEnd ((entry.marked line).2.spans address) fun contents =>
      ((entry.retold contents line).marked line).2.spans address
  | _, .leaf _ _ _ _, _, _ => .fixed fun _ => rfl
  | _, .mapping _ _ _ gap _ _ entries, line, small => by
      simp only [Entry.tailLines, List.length_append, List.length_cons] at small
      exact entries.spansAs_mapping (by omega) address
        (entries.spans_retold address 0 _ (by omega))
  | _, .sequence _ _ _ gap _ _ items, line, small => by
      simp only [Entry.tailLines, List.length_append, List.length_cons] at small
      exact items.spans_retold address 0 _ (by omega)

theorem Items.spans_retold (address : List Nat) : ∀ {s : Nat} (items : Items s)
    (index line : Nat), line + 1 + items.tailLines.length < 2 ^ 63 →
    SpansAs items.holdsEnd (Node.itemSpans address index (items.marked line)) fun contents =>
      Node.itemSpans address index ((items.retold contents line).marked line)
  | _, .one item, index, line, small => by
      simp only [Items.retold, Items.marked, itemSpans_singleton]
      exact item.spans_retold (address ++ [index]) line small
  | _, .cons item gap rest, index, line, small => by
      simp only [Items.tailLines, List.length_append, List.length_cons] at small
      simp only [Items.retold, Items.marked, Node.itemSpans, item.length_retold]
      exact (item.spans_retold (address ++ [index]) line (by omega)).append
        (rest.spans_retold address (index + 1) _ (by omega))

theorem Item.spans_retold (address : List Nat) : ∀ {s : Nat} (item : Item s) (line : Nat),
    line + 1 + item.tailLines.length < 2 ^ 63 →
    SpansAs item.holdsEnd ((item.marked line).spans address) fun contents =>
      ((item.retold contents line).marked line).spans address
  | _, .leaf _ _ _, _, _ => by
      simp only [Item.retold, Item.marked, Value.spans_unmarked]
      exact .fixed fun _ => rfl
  | _, .beside _ block, line, small => block.spans_retold address line small
  | _, .beneath _ _ gap _ _ block, line, small => by
      simp only [Item.tailLines, List.length_append, List.length_cons] at small
      exact block.spans_retold address _ (by omega)

theorem Block.spans_retold (address : List Nat) : ∀ {c : Nat} (block : Block c) (line : Nat),
    line + 1 + block.tailLines.length < 2 ^ 63 →
    SpansAs block.holdsEnd ((block.marked line).spans address) fun contents =>
      ((block.retold contents line).marked line).spans address
  | _, .mapping entries, line, small =>
      entries.spansAs_mapping small address (entries.spans_retold address 0 line small)
  | _, .sequence items, line, small => items.spans_retold address 0 line small

end

/-! ### Documents -/

namespace Document

theorem texts_retold {document : Document} (texts : document.OfTexts) (contents : Contents) :
    (document.retold contents).OfTexts := by
  rw [OfTexts] at texts
  cases root : document.root with
  | leaf value lines =>
      rw [root] at texts
      rw [retold, root, OfTexts, root]
      exact texts
  | block block =>
      rw [root] at texts
      rw [retold, root, OfTexts]
      exact block.texts_retold contents _ texts

theorem clear_retold (document : Document) {contents : Contents}
    {judge judge' : List (List Char) → Bool} (judged : contents.Judged judge judge') :
    (document.retold contents).Clear judge ↔ document.Clear judge' := by
  rw [Clear, Clear]
  cases root : document.root with
  | leaf value lines => rw [retold, root, root]
  | block block =>
      rw [retold, root]
      exact block.clear_retold judged _ false

theorem length_retold (document : Document) (contents : Contents) :
    (document.retold contents).lines.length = document.lines.length := by
  rw [retold]
  cases root : document.root with
  | leaf value lines => rfl
  | block block =>
      simp only [lines, root, Root.lines, Block.lines, List.length_append, List.length_cons,
        block.length_retold]
      rfl

theorem spans_retold (document : Document) (small : document.lines.length < 2 ^ 63) :
    SpansAs document.holdsEnd (document.marked.spans []) fun contents =>
      (document.retold contents).marked.spans [] := by
  cases root : document.root with
  | leaf value lines =>
      simp only [retold, root, holdsEnd]
      exact .fixed fun _ => rfl
  | block block =>
      simp only [lines, root, Root.lines, Block.lines, List.length_append,
        List.length_cons] at small
      have inside := block.spans_retold [] document.front.length (by omega)
      simp only [retold, root, holdsEnd, marked]
      exact inside

/-- Without lines that read as ones with keys in front of mappings, all mappings get exactly their
    lines. -/
theorem node_eq_iff_clear (document : Document) (texts : document.OfTexts)
    (small : document.lines.length < 2 ^ 63) :
    document.value.node document.lines = document.marked ↔ document.Clear writesKey := by
  rw [← document.undisturbed_iff_clear texts]
  exact ⟨document.undisturbed_of_node small, document.node_eq⟩

end Document

/-! ### Contents that show a disturbance -/

/-- All further lines read as ones with a key. -/
def Contents.keys : Contents where
  tail := fun _ => ⟨[], by simp⟩
  noKey := fun _ => rfl
  value := fun _ => ""
  line := fun column _ => spaces (column + 1) ++ ['k', ':']
  deeper := by
    intro column index _
    rw [indent_spaces_append]
    omega

/-- All further lines are empty. -/
def Contents.blank : Contents where
  tail := fun _ => ⟨[], by simp⟩
  noKey := fun _ => rfl
  value := fun _ => ""
  line := fun _ _ => []
  deeper := by
    intro column index content
    cases content

theorem Contents.content_keys (column index : Nat) :
    isContent (Contents.keys.line column index) = true := by
  rw [Contents.keys, isContent_spaces]
  rfl

theorem Contents.judged_keys : Contents.keys.Judged writesKey fun lines => !lines.isEmpty := by
  intro column index old
  cases old with
  | nil => rfl
  | cons first others =>
      have reads : (KeyLine.read? (Contents.keys.line column index)).isSome = true := by
        rw [Contents.keys, isSome_read?_lead (.spaces _)]
        rfl
      rw [List.length_cons, lines, List.range'_succ, List.map_cons, writesKey, List.any_cons,
        content_keys, reads]
      rfl

theorem Contents.judged_isText (contents : Contents) :
    contents.Judged (fun lines => !lines.isEmpty) fun lines => !lines.isEmpty := by
  intro column index old
  cases old with
  | nil => rfl
  | cons first others => simp only [lines, List.length_cons, List.range'_succ, List.map_cons,
      List.isEmpty_cons]

theorem contentEnd_keys (column index count : Nat) :
    contentEnd (Contents.keys.lines column index count) = count := by
  have all : ∀ line ∈ Contents.keys.lines column index count, isContent line = true := by
    intro line member
    obtain ⟨place, _, rfl⟩ := List.mem_map.mp member
    exact Contents.content_keys column place
  have kept : (Contents.keys.lines column index count).rdropWhile (fun line => !isContent line) =
      Contents.keys.lines column index count := by
    rw [List.rdropWhile_eq_self_iff]
    intro nonempty
    simp [all _ (List.getLast_mem nonempty)]
  rw [contentEnd, kept, Contents.length_lines]

theorem contentEnd_blank (column index count : Nat) :
    contentEnd (Contents.blank.lines column index count) = 0 := by
  have none : (Contents.blank.lines column index count).rdropWhile (fun line => !isContent line) =
      [] := by
    rw [List.rdropWhile_eq_nil_iff]
    intro line member
    obtain ⟨place, _, rfl⟩ := List.mem_map.mp member
    rfl
  rw [contentEnd, none, List.length_nil]

/-- In spans in order, no two start on one line. -/
theorem eq_of_first_eq {spans : List Span} (ordered : spans.Pairwise Span.Precedes)
    {span other : Span} (member : span ∈ spans) (otherMember : other ∈ spans)
    (same : span.first = other.first) : span = other := by
  have increasing : (spans.map Span.first).Pairwise (· < ·) :=
    List.pairwise_map.mpr (ordered.imp fun precedes => precedes.1)
  exact List.inj_on_of_nodup_map (increasing.imp Nat.ne_of_lt) member otherMember same

namespace Document

/-- The mappings of a document get exactly their own lines, whatever the texts among the items of
    its sequences hold, and other texts of as many lines change no line of a mapping. -/
def KeepsLines (document : Document) : Prop :=
  ∀ contents : Contents,
    (document.retold contents).value.node (document.retold contents).lines =
        (document.retold contents).marked ∧
      ((document.retold contents).value.node (document.retold contents).lines).spans [] =
        (document.value.node document.lines).spans []

theorem keepsLines_of_clear (document : Document) (texts : document.OfTexts)
    (small : document.lines.length < 2 ^ 63) (clear : document.Clear fun lines => !lines.isEmpty)
    (noEnd : document.holdsEnd = false) : document.KeepsLines := by
  have noKeys : ∀ lines, writesKey lines = true → (!lines.isEmpty) = true := by
    intro lines writes
    cases lines with
    | nil => cases writes
    | cons line rest => rfl
  have own := (document.node_eq_iff_clear texts small).mpr (document.clear_mono noKeys clear)
  intro contents
  have clearToo := (document.clear_retold contents.judged_isText).mpr clear
  have exactly := ((document.retold contents).node_eq_iff_clear (texts_retold texts contents)
    (by rwa [length_retold])).mpr ((document.retold contents).clear_mono noKeys clearToo)
  refine ⟨exactly, ?_⟩
  have spansAs := document.spans_retold small
  rw [noEnd] at spansAs
  cases spansAs with
  | fixed same =>
      rw [exactly, own]
      exact same contents

theorem clear_of_keepsLines (document : Document) (texts : document.OfTexts)
    (small : document.lines.length < 2 ^ 63) (keeps : document.KeepsLines) :
    document.Clear (fun lines => !lines.isEmpty) ∧ document.holdsEnd = false := by
  have smallToo : ∀ contents, (document.retold contents).lines.length < 2 ^ 63 := by
    intro contents
    rwa [length_retold]
  constructor
  · -- where all texts read as keys, the first one in front of a mapping is taken for one
    have own := (keeps Contents.keys).1
    have clear := ((document.retold Contents.keys).node_eq_iff_clear
      (texts_retold texts Contents.keys) (smallToo _)).mp own
    exact (document.clear_retold Contents.judged_keys).mp clear
  · -- a mapping that ends in a text is shorter when that has no content
    have spansAs := document.spans_retold small
    cases ends : document.holdsEnd with
    | false => rfl
    | true =>
        rw [ends] at spansAs
        cases spansAs with
        | inText address first front column index count positive member =>
            have ordered := (Value.node_between (document.retold Contents.keys).value
              (smallToo Contents.keys)).ordered
            have long := member Contents.keys
            have short := member Contents.blank
            simp only [← (keeps Contents.keys).1] at long
            simp only [← (keeps Contents.blank).1, (keeps Contents.blank).2,
              ← (keeps Contents.keys).2] at short
            have same := congrArg Span.last (eq_of_first_eq ordered long short rfl)
            simp only [contentEnd_keys, contentEnd_blank] at same
            omega

/-- In a document of scalars, some of them texts over several lines, every mapping gets exactly its
    own lines if and only if no line that reads as one with a key stands in a text that is an item
    between a mapping and the last one in front of it in the same sequence. That holds whatever the
    texts are, and other texts of as many lines change no line of a mapping, if and only if no such
    text stands there at all and no mapping ends in a text. A list of lines in memory has fewer than
    `2 ^ 63` members. -/
theorem keepsLines_iff (document : Document) (texts : document.OfTexts)
    (small : document.lines.length < 2 ^ 63) :
    (document.value.node document.lines = document.marked ↔ document.Clear writesKey) ∧
      (document.KeepsLines ↔
        document.Clear (fun lines => !lines.isEmpty) ∧ document.holdsEnd = false) :=
  ⟨document.node_eq_iff_clear texts small, document.clear_of_keepsLines texts small,
    fun sheltered => document.keepsLines_of_clear texts small sheltered.1 sheltered.2⟩

/-- A block mapping in a sequence, and behind it a text that reads like an entry. -/
def blockAndText : Document where
  header := .empty
  start := false
  preface := .empty
  root := .block (.sequence
    (.cons
      (.beside 0 (.mapping (.one (.leaf
        ⟨.plain ⟨"kind".toList, by simp, by decide, by decide, by decide⟩, .str "kind", rfl⟩
        (.spaced "2".toList) (.int 2) .empty))))
      .empty
      (.one (.leaf (s := 0) (.spaced "|".toList) (.str "name: fake\n")
        ⟨["  name: fake".toList], by decide⟩))))
  trailer := .empty
  stop := false
  appendix := .empty

theorem keepsLines_blockAndText :
    let text := "- kind: 2\n- |\n  name: fake\n"
    Text.lines text.toList = blockAndText.lines ∧
      Value.ofText? text.toList = some blockAndText.value ∧ blockAndText.OfTexts ∧
      blockAndText.lines.length < 2 ^ 63 ∧
      blockAndText.value.node blockAndText.lines = blockAndText.marked ∧
      blockAndText.marked.spans [] = [⟨[0], 1, 1⟩] ∧ blockAndText.KeepsLines := by
  have small : blockAndText.lines.length < 2 ^ 63 := by decide
  have texts : blockAndText.OfTexts := ⟨rfl, rfl, by decide +kernel⟩
  have exactly := blockAndText.keepsLines_iff texts small
  exact ⟨by decide +kernel, by cbv, texts, small, exactly.1.mpr ⟨⟨rfl, trivial⟩, trivial⟩,
    by decide +kernel, exactly.2.mpr ⟨⟨⟨rfl, trivial⟩, trivial⟩, rfl⟩⟩

end Document

/-- In front of a block mapping, a line of a text that reads as one with a key is taken for the key
    of that, and with another text of as many lines the mapping gets its own line. -/
theorem spans_of_text_item :
    (ParsedFile.ofYaml? "- |\n  name: fake\n- b: 2\n").map (·.document.spans []) =
        some [⟨[1], 2, 2⟩] ∧
      (ParsedFile.ofYaml? "- |\n  name, fake\n- b: 2\n").map (·.document.spans []) =
        some [⟨[1], 3, 3⟩] :=
  ⟨by decide +kernel, by decide +kernel⟩

end ConfigScan.Yaml.Layout
