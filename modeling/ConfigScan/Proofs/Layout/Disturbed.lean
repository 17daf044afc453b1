/-
Module: ConfigScan.Proofs.Layout.Disturbed
Purpose: Leaves that disturb the search are the only reason why a document in block style does not
  get exactly the lines of its block mappings.
Main exports: Layout.Block.undisturbed_of_mark, Layout.Document.marked_iff_undisturbed
-/
import ConfigScan.Proofs.Document.Spans
import ConfigScan.Proofs.Layout.Exact
import ConfigScan.Yaml.Document
import Mathlib

namespace ConfigScan.Yaml.Layout

variable {source : List (List Char)}

/-! ### A key in front of a mapping -/

theorem WrittenAt.lt_length {start column : Nat} {head : List Char}
    {below rest : List (List Char)} (written : WrittenAt source start column head below rest) :
    start < source.length := by
  obtain ⟨lead, _, _, equality⟩ := written
  have length := congrArg List.length equality
  rw [List.length_drop, List.length_cons] at length
  omega

theorem findKey_append_of_found {least : Nat} {column : Option Nat} {front later : Outline}
    {position : KeyPosition}
    (found : Outline.findKey least column front = some (position, later)) (back : Outline) :
    Outline.findKey least column (front ++ back) = some (position, later ++ back) := by
  induction front with
  | nil => cases found
  | cons line rest inductionHypothesis =>
      rw [Outline.findKey_cons] at found
      rw [List.cons_append, Outline.findKey_cons]
      split at found
      · cases found
      · next inside =>
          rw [if_neg inside]
          cases written : line.key with
          | none =>
              rw [written] at found
              exact inductionHypothesis found
          | some key =>
              rw [written] at found
              simp only at found ⊢
              split at found
              · next same =>
                  cases found
                  rw [if_pos same]
              · next other =>
                  rw [if_neg other]
                  exact inductionHypothesis found

/-- A line that waits to be searched is found before the line that follows. -/
theorem Stands.findKey_waiting {least next start : Nat}
    (stands : Stands source least next start true) :
    ∃ position later,
      ((Outline.ofLines source).startingAt next).findKey least none = some (position, later) ∧
        position.line < start := by
  obtain ⟨left, split, length, deep, waits⟩ := stands
  have inLeft : ((Outline.ofLinesFrom next left).findKey least none).isSome = true := by
    have all := keyAhead_append deep []
    rw [List.append_nil] at all
    rw [Layout.isSome_findKey, all, waits]
    rfl
  obtain ⟨⟨position, later⟩, found⟩ := Option.isSome_iff_exists.mp inLeft
  refine ⟨position, later ++ Outline.ofLinesFrom start (source.drop start), ?_, ?_⟩
  · rw [Outline.startingAt_ofLines, split, Outline.ofLinesFrom_append, length]
    exact findKey_append_of_found found _
  · obtain ⟨passed, line, key, lines, _, equality, _⟩ := Outline.findKey_eq_some found
    have member : line ∈ Outline.ofLinesFrom next left := by simp [lines]
    obtain ⟨_, _, _, _, _, upper⟩ := Outline.mem_ofLinesFrom member
    rw [equality]
    simp only
    omega

/-- A mapping with a key waiting in front of it gets the line of that. -/
theorem Entries.mark_ne_of_waiting {c : Nat} (entries : Entries c) {least next start : Nat}
    {rest : List (List Char)} (small : source.length < 2 ^ 63)
    (written : WrittenAt source start c entries.head entries.tailLines rest)
    (stands : Stands source least next start true) :
    (Value.mark (Outline.ofLines source) least true next (.map entries.value)).1 ≠
      mappingNode (entries.marked start) start entries.tailLines := by
  obtain ⟨position, later, found, inFront⟩ := stands.findKey_waiting
  have hasKey : (entries.value.map fun e => e.1.key?.isSome).any id = true := by
    cases entries with
    | one entry => simp [Entries.value, entry.isSome_key?]
    | cons entry gap others => simp [Entries.value, entry.isSome_key?]
  have head := Outline.findKeys_of_found found hasKey
  cases tail : ((Value.keyPositions (Outline.ofLines source) least next
      entries.value).filterMap id).getLast? with
  | none =>
      rw [List.getLast?_eq_none_iff] at tail
      rw [tail] at head
      cases head
  | some last =>
      rw [Value.mark_map_of_placed head tail, mappingNode]
      intro same
      obtain ⟨_, sameLine, _⟩ := Mapping.withLines_inj (Node.map.inj same)
      have start_lt := written.lt_length
      have equal := Mapping.lineValue_inj (by omega) (by omega) sameLine
      omega

/-- A mapping that gets exactly its lines has no key waiting in front of it, and its values get
    exactly their lines. -/
theorem Entries.markEntries_of_mark {c : Nat} (entries : Entries c) {least next start : Nat}
    {waiting : Bool} {rest : List (List Char)} (small : source.length < 2 ^ 63)
    (least_le : least ≤ c)
    (written : WrittenAt source start c entries.head entries.tailLines rest) (ends : Ends c rest)
    (stands : Stands source least next start waiting)
    (same : (Value.mark (Outline.ofLines source) least true next (.map entries.value)).1 =
      mappingNode (entries.marked start) start entries.tailLines) :
    waiting = false ∧
      (Value.markEntries (Outline.ofLines source) least ((entries.places start).map some) next
        entries.value).1 = entries.marked start := by
  cases waiting with
  | true => exact absurd same (entries.mark_ne_of_waiting small written stands)
  | false =>
      rw [entries.mark_eq least_le written ends stands] at same
      exact ⟨rfl, (Mapping.withLines_inj (Node.map.inj same)).1⟩

/-! ### Leaves that get lines -/

/-- A key is found for a leaf that gets lines. -/
theorem not_found_of_mark {least next : Nat} {value : Value}
    (same : (Value.mark (Outline.ofLines source) least true next value).1 = value.unmarked)
    (sought : value.seeksKey = true) :
    (((Outline.ofLines source).startingAt next).findKey least none).isSome = false := by
  cases found : (((Outline.ofLines source).startingAt next).findKey least none).isSome with
  | true => exact absurd same (Value.mark_ne_unmarked found value sought)
  | false => rfl

mutual

/-- Entries whose values get exactly the lines of their mappings are not disturbed. -/
theorem Entries.undisturbed_of_markEntries (small : source.length < 2 ^ 63) :
    ∀ {c : Nat} (entries : Entries c) {least next start : Nat} {rest : List (List Char)},
    source.drop (start + 1) = entries.tailLines ++ rest → Ends c rest →
    (Value.markEntries (Outline.ofLines source) least ((entries.places start).map some) next
      entries.value).1 = entries.marked start →
    entries.Undisturbed rest
  | c, .one entry, least, next, start, rest, written, ends, same => by
      rw [Entries.places, Entries.value, List.map_singleton, entry.markEntries_cons,
        Entries.marked] at same
      obtain ⟨sameEntry, _⟩ := List.cons.inj same
      exact entry.undisturbed_of_mark small written ends (congrArg Prod.snd sameEntry)
  | c, .cons entry gap others, least, next, start, rest, written, ends, same => by
      simp only [Entries.tailLines, List.append_assoc, List.cons_append] at written
      rw [Entries.places, Entries.value, List.map_cons, entry.markEntries_cons,
        Entries.marked] at same
      obtain ⟨sameEntry, sameOthers⟩ := List.cons.inj same
      have othersWritten := (WrittenAt.behind_gap gap (drop_of_drop_eq_append written)).drop_succ
      constructor
      · exact entry.undisturbed_of_mark small written ((others.ends rest).behind_gap gap)
          (congrArg Prod.snd sameEntry)
      · exact others.undisturbed_of_markEntries small othersWritten ends sameOthers

/-- An entry whose value gets exactly the lines of its mappings is not disturbed. -/
theorem Entry.undisturbed_of_mark (small : source.length < 2 ^ 63) :
    ∀ {c : Nat} (entry : Entry c) {start : Nat} {rest : List (List Char)},
    source.drop (start + 1) = entry.tailLines ++ rest → Ends c rest →
    (Value.mark (Outline.ofLines source) (c + 1) (!entry.isInline) (start + 1)
      entry.value.2).1 = (entry.marked start).2 →
    entry.Undisturbed rest
  | c, .leaf key tail value more, start, rest, written, ends, same => by
      intro notInline sought
      simp only [Entry.value, Entry.isInline, notInline, Bool.not_false, Entry.marked] at same
      have ownLines : source.drop (start + 1) = more.lines ++ rest := written
      have found := isSome_findKey_entry ownLines
      rw [not_found_of_mark same sought] at found
      exact Bool.or_eq_false_iff.mp found.symm
  | c, .mapping key tail notInline gap inner deeper entries, start, rest, written, ends, same => by
      simp only [Entry.tailLines, List.append_assoc, List.cons_append] at written
      have entriesWritten := WrittenAt.behind_gap gap written
      have innerEnds := ends.mono (Nat.le_of_lt deeper)
      have stands := (Stands.here source (c + 1) (start + 1)).pass_gap gap written
      obtain ⟨_, sameEntries⟩ :=
        entries.markEntries_of_mark small deeper entriesWritten innerEnds stands same
      exact entries.undisturbed_of_markEntries small entriesWritten.drop_succ innerEnds sameEntries
  | c, .sequence key tail notInline gap inner notShallower items, start, rest, written, ends,
      same => by
      simp only [Entry.tailLines, List.append_assoc, List.cons_append] at written
      have stands := (Stands.here source (c + 1) (start + 1)).pass_gap gap written
      exact items.undisturbed_of_markItems small (Nat.succ_le_succ notShallower)
        (WrittenAt.behind_gap gap written) (ends.mono (Nat.le_succ_of_le notShallower)) stands
        (Node.seq.inj same)

/-- Items that get exactly the lines of their mappings are not disturbed. -/
theorem Items.undisturbed_of_markItems (small : source.length < 2 ^ 63) :
    ∀ {s : Nat} (items : Items s) {least next start : Nat} {waiting : Bool}
      {rest : List (List Char)}, least ≤ s + 1 →
    WrittenAt source start s items.head items.tailLines rest → Ends (s + 1) rest →
    Stands source least next start waiting →
    (Value.markItems (Outline.ofLines source) least true next items.value).1 =
      items.marked start →
    items.Undisturbed least waiting rest
  | s, .one item, least, next, start, waiting, rest, least_le, written, ends, stands, same => by
      obtain ⟨sameItem, _⟩ := List.cons.inj same
      exact item.undisturbed_of_mark small least_le written ends stands sameItem
  | s, .cons item gap others, least, next, start, waiting, rest, least_le, written, ends, stands,
      same => by
      obtain ⟨sameItem, sameOthers⟩ := List.cons.inj same
      have itemWritten : WrittenAt source start s item.head item.tailLines
          (gap.lines ++ (others.lines ++ rest)) := by
        rw [← List.append_assoc]
        exact written.first
      have itemEnds := (others.ends rest).behind_gap gap
      have undisturbed :=
        item.undisturbed_of_mark small least_le itemWritten itemEnds stands sameItem
      -- the item is known to be left in the right place, so the others are searched from there
      obtain ⟨after, itemEq, passed⟩ :=
        item.mark_eq least_le itemWritten itemEnds stands undisturbed
      have behindItem := drop_of_drop_eq_append itemWritten.drop_succ
      rw [itemEq] at sameOthers
      exact ⟨undisturbed, others.undisturbed_of_markItems small least_le
        (WrittenAt.behind_gap gap behindItem) ends (passed.stands.pass_gap gap behindItem)
        sameOthers⟩

/-- An item that gets exactly the lines of its mappings is not disturbed. -/
theorem Item.undisturbed_of_mark (small : source.length < 2 ^ 63) :
    ∀ {s : Nat} (item : Item s) {least next start : Nat} {waiting : Bool}
      {rest : List (List Char)}, least ≤ s + 1 →
    WrittenAt source start s item.head item.tailLines rest → Ends (s + 1) rest →
    Stands source least next start waiting →
    (Value.mark (Outline.ofLines source) least true next item.value).1 = item.marked start →
    item.Undisturbed least waiting rest
  | s, .leaf tail value more, least, next, start, waiting, rest, least_le, written, ends, stands,
      same => by
      intro sought
      have found := stands.isSome_findKey_item least_le written
      rw [not_found_of_mark same sought] at found
      obtain ⟨noneWaits, others⟩ := Bool.or_eq_false_iff.mp found.symm
      exact ⟨noneWaits, Bool.or_eq_false_iff.mp others⟩
  | s, .beside space block, least, next, start, waiting, rest, least_le, written, ends, stands,
      same => by
      have deeper : s + 1 ≤ s + space + 2 := by omega
      exact block.undisturbed_of_mark small (Nat.le_trans least_le deeper) written.behind_dash
        (ends.mono deeper) stands same
  | s, .beneath tail noKey gap inner deeper block, least, next, start, waiting, rest, least_le,
      written, ends, stands, same => by
      have behindDash := written.drop_succ
      simp only [Item.tailLines, List.append_assoc, List.cons_append] at behindDash
      exact block.undisturbed_of_mark small (Nat.le_trans least_le deeper)
        (WrittenAt.behind_gap gap behindDash) (ends.mono deeper)
        (stands.pass_bare_dash least_le noKey gap written) same

/-- A collection that gets exactly the lines of its mappings is not disturbed. -/
theorem Block.undisturbed_of_mark (small : source.length < 2 ^ 63) :
    ∀ {c : Nat} (block : Block c) {least next start : Nat} {waiting : Bool}
      {rest : List (List Char)}, least ≤ c →
    WrittenAt source start c block.head block.tailLines rest → Ends c rest →
    Stands source least next start waiting →
    (Value.mark (Outline.ofLines source) least true next block.value).1 = block.marked start →
    block.Undisturbed least waiting rest
  | c, .mapping entries, least, next, start, waiting, rest, least_le, written, ends, stands,
      same => by
      obtain ⟨noneWaits, sameEntries⟩ :=
        entries.markEntries_of_mark small least_le written ends stands same
      exact ⟨noneWaits,
        entries.undisturbed_of_markEntries small written.drop_succ ends sameEntries⟩
  | c, .sequence items, least, next, start, waiting, rest, least_le, written, ends, stands,
      same =>
      items.undisturbed_of_markItems small (Nat.le_succ_of_le least_le) written
        (ends.mono (Nat.le_succ c)) stands (Node.seq.inj same)

end

/-! ### Documents -/

namespace Document

theorem undisturbed_of_node (document : Document) (small : document.lines.length < 2 ^ 63)
    (same : document.value.node document.lines = document.marked) : document.Undisturbed := by
  rw [Value.node, Document.value, Document.marked] at same
  rw [Document.Undisturbed]
  have stands := document.stands
  have found := document.isSome_findKey
  have written := document.drop_front
  have ends := document.back_ends
  cases root : document.root with
  | leaf value lines =>
      rw [root] at same found
      intro sought
      rw [not_found_of_mark same sought] at found
      exact found.symm
  | @block column block =>
      rw [root] at same written
      exact block.undisturbed_of_mark small (Nat.zero_le column)
        ⟨spaces column, .spaces column, List.length_replicate, written⟩ (ends column) stands same

/-- No flow collection and no alias of a document gets lines, and every block mapping exactly its
    own, if and only if no leaf disturbs the search. A list of lines in memory has fewer than
    `2 ^ 63` members. -/
theorem marked_iff_undisturbed (document : Document)
    (small : document.lines.length < 2 ^ 63) :
    document.value.node document.lines = document.marked ↔ document.Undisturbed := by
  constructor
  · exact document.undisturbed_of_node small
  · exact document.node_eq

/-- A block mapping in a sequence, and behind it one in flow style. -/
def blockAndFlow : Document where
  header := .empty
  start := false
  preface := .empty
  root := .block (.sequence
    (.cons
      (.beside 0 (.mapping (.one (.leaf
        ⟨.plain ⟨"b".toList, by simp, by decide, by decide, by decide⟩, .str "b", rfl⟩
        (.spaced "2".toList) (.int 2) .empty))))
      .empty
      (.one (.leaf (s := 0) (.spaced "\x7ba: 1\x7d".toList) (.map [(.str "a", .int 1)]) .empty))))
  trailer := .empty
  stop := false
  appendix := .empty

theorem marked_iff_undisturbed_blockAndFlow :
    let text := "- b: 2\n- \x7ba: 1\x7d\n"
    Text.lines text.toList = blockAndFlow.lines ∧
      Value.ofText? text.toList = some blockAndFlow.value ∧
      blockAndFlow.lines.length < 2 ^ 63 ∧ blockAndFlow.Undisturbed ∧
      blockAndFlow.value.node blockAndFlow.lines = blockAndFlow.marked ∧
      blockAndFlow.marked.spans [] = [⟨[0], 1, 1⟩] := by
  have small : blockAndFlow.lines.length < 2 ^ 63 := by decide
  have undisturbed : blockAndFlow.Undisturbed :=
    ⟨⟨rfl, fun _ sought => absurd sought (by decide)⟩,
      fun _ => ⟨rfl, by decide +kernel, by decide +kernel⟩⟩
  exact ⟨by decide +kernel, by cbv, small, undisturbed,
    (blockAndFlow.marked_iff_undisturbed small).mpr undisturbed, by decide +kernel⟩

end Document

/-- In front of a block mapping, a flow collection among items gets the lines of that, and so does
    an alias. -/
theorem spans_of_flow_item :
    (ParsedFile.ofYaml? "- \x7ba: 1\x7d\n- b: 2\n").map (·.document.spans []) =
        some [⟨[0], 2, 2⟩] ∧
      (ParsedFile.ofYaml? "a: &x \x7bc: 1\x7d\nd:\n- *x\n- b: 2\n").map (·.document.spans []) =
        some [⟨[], 1, 4⟩, ⟨[1, 0], 4, 4⟩] :=
  ⟨by decide +kernel, by decide +kernel⟩

end ConfigScan.Yaml.Layout
