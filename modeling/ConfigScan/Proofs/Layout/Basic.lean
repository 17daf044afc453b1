/-
Module: ConfigScan.Proofs.Layout.Basic
Purpose: Documents as they are written in block style, with all choices of columns, spacing and
  comments: the lines that they take, the value that they stand for, and the node with the lines of
  every block mapping. A part that is not written in block style is a leaf with any value.
Main exports: Layout.Block, Layout.Document, Layout.Document.lines, Layout.Document.value,
  Layout.Document.marked, Layout.Document.OfScalars, Layout.Document.Undisturbed
-/
import ConfigScan.Proofs.Layout.Spelling
import ConfigScan.Proofs.Yaml.Seeking
import Mathlib.Data.List.DropRight

namespace ConfigScan.Yaml.Layout

/-! ### Parts of a document -/

/-- Lines without content, which may stand between any two others. -/
structure Gap where
  lines : List (List Char)
  blank : ∀ line ∈ lines, isContent line = false

/-- No lines at all. -/
def Gap.empty : Gap where
  lines := []
  blank := by simp

/-- The lines that a leaf takes behind its first one, all indented deeper than it stands. -/
structure Continuation (column : Nat) where
  lines : List (List Char)
  deeper : ∀ line ∈ lines, isContent line = true → column < indent line

/-- No lines but the first one. -/
def Continuation.empty {column : Nat} : Continuation column where
  lines := []
  deeper := by simp

/-- A key with a value of its own, which need not be what its spelling reads as. -/
structure WrittenKey where
  spelling : Spelling
  name : Value
  scalar : name.key?.isSome = true

/-- The key in the document. -/
def WrittenKey.key (written : WrittenKey) : Key := written.name.key?.get written.scalar

/-- A value starts behind a colon as a flow collection or an alias. -/
def KeyTail.isInline (tail : KeyTail) : Bool :=
  KeyLine.isInline { column := 0, token := [], value := Text.trim tail.text }

theorem KeyTail.isInline_empty : KeyTail.empty.isInline = false := rfl

mutual

/-- The entries of a block mapping, which all start at one column. -/
inductive Entries : Nat → Type where
  | one {c : Nat} (entry : Entry c) : Entries c
  | cons {c : Nat} (entry : Entry c) (gap : Gap) (rest : Entries c) : Entries c

/-- An entry of a block mapping at a column. A mapping below its key stands deeper than that, a
    sequence may stand at the same column. -/
inductive Entry : Nat → Type where
  | leaf {c : Nat} (key : WrittenKey) (tail : KeyTail) (value : Value) (more : Continuation c) :
      Entry c
  | mapping {c : Nat} (key : WrittenKey) (tail : KeyTail) (notInline : tail.isInline = false)
      (gap : Gap) (inner : Nat) (deeper : c < inner) (entries : Entries inner) : Entry c
  | sequence {c : Nat} (key : WrittenKey) (tail : KeyTail) (notInline : tail.isInline = false)
      (gap : Gap) (inner : Nat) (notShallower : c ≤ inner) (items : Items inner) : Entry c

/-- The items of a block sequence, whose dashes all stand at one column. -/
inductive Items : Nat → Type where
  | one {s : Nat} (item : Item s) : Items s
  | cons {s : Nat} (item : Item s) (gap : Gap) (rest : Items s) : Items s

/-- An item of a block sequence: a leaf, or a block behind some spaces or on later lines. -/
inductive Item : Nat → Type where
  | leaf {s : Nat} (tail : DashTail) (value : Value) (more : Continuation s) : Item s
  | beside {s : Nat} (space : Nat) (block : Block (s + space + 2)) : Item s
  | beneath {s : Nat} (tail : DashTail) (noKey : KeyLine.read? (dashText tail) = none) (gap : Gap)
      (inner : Nat) (deeper : s < inner) (block : Block inner) : Item s

/-- A collection in block style. -/
inductive Block : Nat → Type where
  | mapping {c : Nat} (entries : Entries c) : Block c
  | sequence {c : Nat} (items : Items c) : Block c

end

/-- What a document holds: a leaf on any lines, or a block at any column. -/
inductive Root where
  | leaf (value : Value) (lines : List (List Char))
  | block {column : Nat} (block : Block column)

/-- A document, perhaps with lines that mark its start and its end. -/
structure Document where
  header : Gap
  start : Bool
  preface : Gap
  root : Root
  trailer : Gap
  stop : Bool
  appendix : Gap

/-! ### Lines -/

mutual

/-- The first line, from its column on. -/
def Entries.head : {c : Nat} → Entries c → List Char
  | _, .one entry => entry.head
  | _, .cons entry _ _ => entry.head

/-- The first line, from its column on. -/
def Entry.head : {c : Nat} → Entry c → List Char
  | _, .leaf key tail _ _ => keyText key.spelling tail
  | _, .mapping key tail _ _ _ _ _ => keyText key.spelling tail
  | _, .sequence key tail _ _ _ _ _ => keyText key.spelling tail

/-- The first line, from its column on. -/
def Items.head : {s : Nat} → Items s → List Char
  | _, .one item => item.head
  | _, .cons item _ _ => item.head

/-- The first line, from its column on. -/
def Item.head : {s : Nat} → Item s → List Char
  | _, .leaf tail _ _ => dashText tail
  | _, .beside space block => '-' :: (spaces (space + 1) ++ block.head)
  | _, .beneath tail _ _ _ _ _ => dashText tail

/-- The first line, from its column on. -/
def Block.head : {c : Nat} → Block c → List Char
  | _, .mapping entries => entries.head
  | _, .sequence items => items.head

end

mutual

/-- The lines below the first one. -/
def Entries.tailLines : {c : Nat} → Entries c → List (List Char)
  | _, .one entry => entry.tailLines
  | c, .cons entry gap rest =>
      entry.tailLines ++ (gap.lines ++ (spaces c ++ rest.head) :: rest.tailLines)

/-- The lines below the first one. -/
def Entry.tailLines : {c : Nat} → Entry c → List (List Char)
  | _, .leaf _ _ _ more => more.lines
  | _, .mapping _ _ _ gap inner _ entries =>
      gap.lines ++ (spaces inner ++ entries.head) :: entries.tailLines
  | _, .sequence _ _ _ gap inner _ items =>
      gap.lines ++ (spaces inner ++ items.head) :: items.tailLines

/-- The lines below the first one. -/
def Items.tailLines : {s : Nat} → Items s → List (List Char)
  | _, .one item => item.tailLines
  | s, .cons item gap rest =>
      item.tailLines ++ (gap.lines ++ (spaces s ++ rest.head) :: rest.tailLines)

/-- The lines below the first one. -/
def Item.tailLines : {s : Nat} → Item s → List (List Char)
  | _, .leaf _ _ more => more.lines
  | _, .beside _ block => block.tailLines
  | _, .beneath _ _ gap inner _ block =>
      gap.lines ++ (spaces inner ++ block.head) :: block.tailLines

/-- The lines below the first one. -/
def Block.tailLines : {c : Nat} → Block c → List (List Char)
  | _, .mapping entries => entries.tailLines
  | _, .sequence items => items.tailLines

end

/-- All lines of the entries, at their column. -/
def Entries.lines {c : Nat} (entries : Entries c) : List (List Char) :=
  (spaces c ++ entries.head) :: entries.tailLines

/-- All lines of the items, at their column. -/
def Items.lines {s : Nat} (items : Items s) : List (List Char) :=
  (spaces s ++ items.head) :: items.tailLines

/-- All lines of the block, at its column. -/
def Block.lines {c : Nat} (block : Block c) : List (List Char) :=
  (spaces c ++ block.head) :: block.tailLines

/-- All lines of what the document holds. -/
def Root.lines : Root → List (List Char)
  | .leaf _ own => own
  | .block collection => collection.lines

namespace Document

/-- The lines in front of what the document holds. -/
def front (document : Document) : List (List Char) :=
  document.header.lines ++ ((if document.start then ["---".toList] else []) ++
    document.preface.lines)

/-- The lines behind what the document holds. -/
def back (document : Document) : List (List Char) :=
  document.trailer.lines ++ ((if document.stop then ["...".toList] else []) ++
    document.appendix.lines)

/-- All lines of a document. -/
def lines (document : Document) : List (List Char) :=
  document.front ++ (document.root.lines ++ document.back)

end Document

/-! ### Values -/

mutual

/-- The entries that are written. -/
def Entries.value : {c : Nat} → Entries c → List (Value × Value)
  | _, .one entry => [entry.value]
  | _, .cons entry _ rest => entry.value :: rest.value

/-- The entry that is written. -/
def Entry.value : {c : Nat} → Entry c → Value × Value
  | _, .leaf key _ value _ => (key.name, value)
  | _, .mapping key _ _ _ _ _ entries => (key.name, .map entries.value)
  | _, .sequence key _ _ _ _ _ items => (key.name, .seq items.value)

/-- The items that are written. -/
def Items.value : {s : Nat} → Items s → List Value
  | _, .one item => [item.value]
  | _, .cons item _ rest => item.value :: rest.value

/-- The item that is written. -/
def Item.value : {s : Nat} → Item s → Value
  | _, .leaf _ value _ => value
  | _, .beside _ block => block.value
  | _, .beneath _ _ _ _ _ block => block.value

/-- The collection that is written. -/
def Block.value : {c : Nat} → Block c → Value
  | _, .mapping entries => .map entries.value
  | _, .sequence items => .seq items.value

end

/-- The value of a whole document. -/
def Document.value (document : Document) : Value :=
  match document.root with
  | .leaf value _ => value
  | .block block => block.value

/-! ### Nodes -/

/-- The number of lines up to the last one with content. What has content is what the loader takes
    for it, so a line of a text that begins with a number sign has none. -/
def contentEnd (lines : List (List Char)) : Nat :=
  (lines.rdropWhile fun line => !isContent line).length

/-- The node of a block mapping whose first key has `line` lines in front of it: it reaches to the
    last line with content among those below, as the loader counts content. -/
def mappingNode (entries : Mapping) (line : Nat) (below : List (List Char)) : Node :=
  .map (entries.withLines (line + 1) (line + 1 + contentEnd below))

mutual

/-- The entries with the lines of every block mapping, when `line` lines stand in front. -/
def Entries.marked (line : Nat) : {c : Nat} → Entries c → Mapping
  | _, .one entry => [entry.marked line]
  | _, .cons entry gap rest =>
      entry.marked line :: rest.marked (line + 1 + entry.tailLines.length + gap.lines.length)

/-- The entry with the lines of every block mapping. A leaf has none. -/
def Entry.marked (line : Nat) : {c : Nat} → Entry c → Key × Node
  | _, .leaf key _ value _ => (key.key, value.unmarked)
  | _, .mapping key _ _ gap _ _ entries =>
      (key.key, mappingNode (entries.marked (line + 1 + gap.lines.length))
        (line + 1 + gap.lines.length) entries.tailLines)
  | _, .sequence key _ _ gap _ _ items =>
      (key.key, .seq (items.marked (line + 1 + gap.lines.length)))

/-- The items with the lines of every block mapping. -/
def Items.marked (line : Nat) : {s : Nat} → Items s → List Node
  | _, .one item => [item.marked line]
  | _, .cons item gap rest =>
      item.marked line :: rest.marked (line + 1 + item.tailLines.length + gap.lines.length)

/-- The item with the lines of every block mapping. A leaf has none. -/
def Item.marked (line : Nat) : {s : Nat} → Item s → Node
  | _, .leaf _ value _ => value.unmarked
  | _, .beside _ block => block.marked line
  | _, .beneath _ _ gap _ _ block => block.marked (line + 1 + gap.lines.length)

/-- The collection with the lines of every block mapping. -/
def Block.marked (line : Nat) : {c : Nat} → Block c → Node
  | _, .mapping entries => mappingNode (entries.marked line) line entries.tailLines
  | _, .sequence items => .seq (items.marked line)

end

/-- The node of a whole document with the lines of every block mapping, each up to its last line that
    the loader takes for content. -/
def Document.marked (document : Document) : Node :=
  match document.root with
  | .leaf value _ => value.unmarked
  | .block block => block.marked document.front.length

/-! ### Leaves of scalars -/

/-- One of the lines reads as one with a key. -/
def writesKey (lines : List (List Char)) : Bool :=
  lines.any fun line => isContent line && (KeyLine.read? line).isSome

mutual

/-- All leaves are scalars, and no line of one in a sequence reads as one with a key. -/
def Entries.OfScalars : {c : Nat} → Entries c → Prop
  | _, .one entry => entry.OfScalars
  | _, .cons entry _ rest => entry.OfScalars ∧ rest.OfScalars

/-- All leaves are scalars, and no line of one in a sequence reads as one with a key. -/
def Entry.OfScalars : {c : Nat} → Entry c → Prop
  | _, .leaf _ _ value _ => value.key?.isSome = true
  | _, .mapping _ _ _ _ _ _ entries => entries.OfScalars
  | _, .sequence _ _ _ _ _ _ items => items.OfScalars

/-- All leaves are scalars, and no line of one in a sequence reads as one with a key. -/
def Items.OfScalars : {s : Nat} → Items s → Prop
  | _, .one item => item.OfScalars
  | _, .cons item _ rest => item.OfScalars ∧ rest.OfScalars

/-- All leaves are scalars, and no line of one in a sequence reads as one with a key. -/
def Item.OfScalars : {s : Nat} → Item s → Prop
  | _, .leaf tail value more =>
      value.key?.isSome = true ∧ writesKey (dashText tail :: more.lines) = false
  | _, .beside _ block => block.OfScalars
  | _, .beneath _ _ _ _ _ block => block.OfScalars

/-- All leaves are scalars, and no line of one in a sequence reads as one with a key. -/
def Block.OfScalars : {c : Nat} → Block c → Prop
  | _, .mapping entries => entries.OfScalars
  | _, .sequence items => items.OfScalars

end

/-- All leaves are scalars, and no line of one in a sequence reads as one with a key. -/
def Document.OfScalars (document : Document) : Prop :=
  match document.root with
  | .leaf value _ => value.key?.isSome = true
  | .block block => block.OfScalars

/-! ### Leaves that the search takes for something else -/

/-- A line that reads as one with a key comes before the first line that starts in front of the
    column `least`. -/
def keyAhead (least : Nat) (lines : List (List Char)) : Bool :=
  ((lines.filter isContent).takeWhile fun line => least ≤ (stripDashes line).1).any
    fun line => (KeyLine.read? line).isSome

mutual

/-- A line that reads as one with a key waits behind the last mapping of the items to be searched,
    when one does so in front of them. -/
def Items.waits (waiting : Bool) : {s : Nat} → Items s → Bool
  | _, .one item => item.waits waiting
  | _, .cons item _ rest => rest.waits (item.waits waiting)

/-- A line that reads as one with a key waits behind the last mapping of the item to be searched,
    when one does so in front of it. -/
def Item.waits (waiting : Bool) : {s : Nat} → Item s → Bool
  | _, .leaf tail _ more => waiting || writesKey (dashText tail :: more.lines)
  | _, .beside _ block => block.waits waiting
  | _, .beneath _ _ _ _ _ block => block.waits waiting

/-- A line that reads as one with a key waits behind the last mapping of the collection to be
    searched, when one does so in front of it. -/
def Block.waits (waiting : Bool) : {c : Nat} → Block c → Bool
  | _, .mapping _ => false
  | _, .sequence items => items.waits waiting

end

mutual

/-- No leaf of the entries, in front of the lines `after`, makes the search take a line for another
    one. -/
def Entries.Undisturbed (after : List (List Char)) : {c : Nat} → Entries c → Prop
  | _, .one entry => entry.Undisturbed after
  | _, .cons entry gap rest =>
      entry.Undisturbed (gap.lines ++ (rest.lines ++ after)) ∧ rest.Undisturbed after

/-- A leaf for which a key is searched neither holds a line that reads as one with a key nor comes
    before one, unless it starts as a flow collection or an alias on the line of its key. -/
def Entry.Undisturbed (after : List (List Char)) : {c : Nat} → Entry c → Prop
  | c, .leaf _ tail value more =>
      tail.isInline = false → value.seeksKey = true →
        writesKey more.lines = false ∧ keyAhead (c + 1) after = false
  | _, .mapping _ _ _ _ _ _ entries => entries.Undisturbed after
  | c, .sequence _ _ _ _ _ _ items => items.Undisturbed (c + 1) false after

/-- No leaf of the items, which are searched at the column `least` or deeper, makes the search take
    a line for another one. -/
def Items.Undisturbed (least : Nat) (waiting : Bool) (after : List (List Char)) :
    {s : Nat} → Items s → Prop
  | _, .one item => item.Undisturbed least waiting after
  | _, .cons item gap rest =>
      item.Undisturbed least waiting (gap.lines ++ (rest.lines ++ after)) ∧
        rest.Undisturbed least (item.waits waiting) after

/-- A leaf for which a key is searched neither holds a line that reads as one with a key nor stands
    between lines where one is found. -/
def Item.Undisturbed (least : Nat) (waiting : Bool) (after : List (List Char)) :
    {s : Nat} → Item s → Prop
  | _, .leaf tail value more =>
      value.seeksKey = true →
        waiting = false ∧ writesKey (dashText tail :: more.lines) = false ∧
          keyAhead least after = false
  | _, .beside _ block => block.Undisturbed least waiting after
  | _, .beneath _ _ _ _ _ block => block.Undisturbed least waiting after

/-- A mapping has no line in front of it that waits to be searched and reads as one with a key. -/
def Block.Undisturbed (least : Nat) (waiting : Bool) (after : List (List Char)) :
    {c : Nat} → Block c → Prop
  | _, .mapping entries => waiting = false ∧ entries.Undisturbed after
  | _, .sequence items => items.Undisturbed least waiting after

end

/-- No leaf of the document makes the search take a line for another one. -/
def Document.Undisturbed (document : Document) : Prop :=
  match document.root with
  | .leaf value lines => value.seeksKey = true → writesKey lines = false
  | .block block => block.Undisturbed 0 false document.back

end ConfigScan.Yaml.Layout
