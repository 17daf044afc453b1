/-
Module: ConfigScan.Proofs.Layout.Exact
Purpose: A document in block style whose leaves do not disturb the search gets exactly the lines of
  its block mappings.
Main exports: Layout.Entries.markEntries_eq, Layout.Items.markItems_eq, Layout.Block.mark_eq,
  Layout.Document.node_eq
-/
import ConfigScan.Proofs.Layout.Cursor

namespace ConfigScan.Yaml.Layout

variable {source : List (List Char)}

/-! ### Leaves -/

theorem Continuation.deep {c least : Nat} (more : Continuation c) (least_le : least ≤ c + 1) :
    Deep least more.lines :=
  (more.allInside (Nat.le_refl c)).deep least_le

/-- A key is found for a leaf below a key when one of its lines reads as one with a key, or one that
    comes behind them does. -/
theorem isSome_findKey_entry {c start : Nat} {more : Continuation c} {rest : List (List Char)}
    (written : source.drop start = more.lines ++ rest) :
    (((Outline.ofLines source).startingAt start).findKey (c + 1) none).isSome =
      (writesKey more.lines || keyAhead (c + 1) rest) :=
  (Stands.here source (c + 1) start).isSome_findKey written (more.deep (Nat.le_refl _))

/-- The line of a dash and the next ones of its item are deep enough for the search, whatever stands
    in front of the dash. -/
theorem WrittenAt.dash_lines {s least start : Nat} (least_le : least ≤ s + 1) {tail : DashTail}
    {own rest : List (List Char)} (written : WrittenAt source start s (dashText tail) own rest)
    (deep : Deep least own) :
    ∃ lines, source.drop start = lines ++ rest ∧ lines.length = own.length + 1 ∧
      Deep least lines ∧ writesKey lines = writesKey (dashText tail :: own) := by
  obtain ⟨lead, isLead, length, equality⟩ := written
  refine ⟨(lead ++ dashText tail) :: own, equality, rfl, ?_, writesKey_lead isLead tail own⟩
  refine .cons ?_ deep
  have behind := lt_stripDashes_dashText isLead tail
  omega

/-- The search passes the dash of an item and lines that have no mapping. -/
theorem Stands.pass_dash {s least next start : Nat} {waiting : Bool}
    (stands : Stands source least next start waiting) (least_le : least ≤ s + 1)
    {tail : DashTail} {own rest : List (List Char)}
    (written : WrittenAt source start s (dashText tail) own rest) (deep : Deep least own) :
    Stands source least next (start + 1 + own.length)
      (waiting || writesKey (dashText tail :: own)) := by
  obtain ⟨lines, split, length, linesDeep, linesWait⟩ := written.dash_lines least_le deep
  have passed := stands.pass split linesDeep
  have stop : start + lines.length = start + 1 + own.length := by omega
  rwa [linesWait, stop] at passed

/-- A key is found for a leaf among items when a line that reads as one with a key waits in front of
    it, is one of its lines, or comes behind them. -/
theorem Stands.isSome_findKey_item {s least next start : Nat} {waiting : Bool}
    (stands : Stands source least next start waiting) (least_le : least ≤ s + 1)
    {tail : DashTail} {more : Continuation s} {rest : List (List Char)}
    (written : WrittenAt source start s (dashText tail) more.lines rest) :
    (((Outline.ofLines source).startingAt next).findKey least none).isSome =
      (waiting || (writesKey (dashText tail :: more.lines) || keyAhead least rest)) := by
  obtain ⟨lines, split, _, deep, linesWait⟩ := written.dash_lines least_le (more.deep least_le)
  rw [stands.isSome_findKey split deep, linesWait]

/-- Between the dash of an item and its block on later lines no key waits. -/
theorem Stands.pass_bare_dash {s least next start : Nat} {waiting : Bool}
    (stands : Stands source least next start waiting) (least_le : least ≤ s + 1)
    {tail : DashTail} (noKey : KeyLine.read? (dashText tail) = none) (gap : Gap)
    {below rest : List (List Char)}
    (written : WrittenAt source start s (dashText tail) (gap.lines ++ below) rest) :
    Stands source least next (start + 1 + gap.lines.length) waiting := by
  have passed := stands.pass_dash least_le written.first (.of_blank gap.blank)
  have noKeys : writesKey (dashText tail :: gap.lines) = false := by
    have inGap := writesKey_of_blank gap.blank
    rw [writesKey] at inGap
    rw [writesKey, List.any_cons, noKey, inGap, Option.isSome_none, Bool.and_false, Bool.false_or]
  rwa [noKeys, Bool.or_false] at passed

/-! ### Collections -/

theorem Entry.key?_eq {c : Nat} (entry : Entry c) (line : Nat) :
    entry.value.1.key? = some (entry.marked line).1 := by
  cases entry with
  | leaf key tail value more => exact (Option.some_get key.scalar).symm
  | mapping key tail notInline gap inner deeper entries => exact (Option.some_get key.scalar).symm
  | sequence key tail notInline gap inner notShallower items =>
      exact (Option.some_get key.scalar).symm

/-- The value of an entry is marked from the line behind that of its key. -/
theorem Entry.markEntries_cons {c : Nat} (entry : Entry c) (outline : Outline)
    (least next line : Nat) (positions : List (Option KeyPosition))
    (rest : List (Value × Value)) :
    Value.markEntries outline least
        (some { line, column := c, inline := entry.isInline } :: positions) next
        (entry.value :: rest) =
      (((entry.marked line).1,
          (Value.mark outline (c + 1) (!entry.isInline) (line + 1) entry.value.2).1) ::
        (Value.markEntries outline least positions
          (Value.mark outline (c + 1) (!entry.isInline) (line + 1) entry.value.2).2 rest).1,
        (Value.markEntries outline least positions
          (Value.mark outline (c + 1) (!entry.isInline) (line + 1) entry.value.2).2 rest).2) := by
  have written := entry.key?_eq line
  generalize entry.value = pair at written ⊢
  obtain ⟨key, value⟩ := pair
  rw [Value.markEntries_cons_of_placed, written]

/-- A mapping whose values get exactly their lines does so too. The search goes on behind its last
    line with content. -/
theorem Entries.mark_of_markEntries {c : Nat} (entries : Entries c) {least next start : Nat}
    (least_le : least ≤ c) {rest : List (List Char)}
    (written : WrittenAt source start c entries.head entries.tailLines rest)
    (ends : Ends c rest) (stands : Stands source least next start false)
    (marked : ∃ after,
      Value.markEntries (Outline.ofLines source) least ((entries.places start).map some) next
          entries.value = (entries.marked start, after) ∧
        after ≤ start + 1 + contentEnd entries.tailLines) :
    ∃ after,
      Value.mark (Outline.ofLines source) least true next (.map entries.value) =
          (mappingNode (entries.marked start) start entries.tailLines, after) ∧
        Passed source least start entries.tailLines after false := by
  obtain ⟨after, equality, bound⟩ := marked
  refine ⟨start + 1 + contentEnd entries.tailLines, ?_, Nat.le_refl _,
    .behind_mapping written.drop_succ⟩
  rw [entries.mark_eq least_le written ends stands, equality]
  simp only [Nat.max_eq_right bound]

mutual

/-- The values of entries that are not disturbed get exactly the lines of their mappings, and the
    search of the last one ends inside of it. -/
theorem Entries.markEntries_eq : ∀ {c : Nat} (entries : Entries c) {least next start : Nat}
    {rest : List (List Char)}, source.drop (start + 1) = entries.tailLines ++ rest →
    Ends c rest → entries.Undisturbed rest →
    ∃ after,
      Value.markEntries (Outline.ofLines source) least ((entries.places start).map some) next
          entries.value = (entries.marked start, after) ∧
        after ≤ start + 1 + contentEnd entries.tailLines
  | c, .one entry, least, next, start, rest, written, ends, undisturbed => by
      obtain ⟨after, equality, bound⟩ := entry.mark_eq written ends undisturbed
      refine ⟨after, ?_, bound⟩
      rw [Entries.places, Entries.value, List.map_singleton, entry.markEntries_cons, equality]
      rfl
  | c, .cons entry gap others, least, next, start, rest, written, ends, undisturbed => by
      obtain ⟨entryUndisturbed, othersUndisturbed⟩ := undisturbed
      simp only [Entries.tailLines, List.append_assoc, List.cons_append] at written
      have entryEnds := (others.ends rest).behind_gap gap
      obtain ⟨entryAfter, entryEq, _⟩ := entry.mark_eq written entryEnds entryUndisturbed
      have othersWritten := (WrittenAt.behind_gap gap (drop_of_drop_eq_append written)).drop_succ
      obtain ⟨after, othersEq, bound⟩ :=
        others.markEntries_eq othersWritten ends othersUndisturbed
      refine ⟨after, ?_, ?_⟩
      · rw [Entries.places, Entries.value, List.map_cons, entry.markEntries_cons, entryEq, othersEq]
        rfl
      · rw [Entries.tailLines, ← List.append_assoc]
        apply within_extend (others.isContent_head c)
        rw [List.length_append, ← Nat.add_assoc]
        exact bound

/-- The value of an entry that is not disturbed gets exactly the lines of its mappings, and its
    search ends inside of it. -/
theorem Entry.mark_eq : ∀ {c : Nat} (entry : Entry c) {start : Nat} {rest : List (List Char)},
    source.drop (start + 1) = entry.tailLines ++ rest → Ends c rest → entry.Undisturbed rest →
    ∃ after,
      Value.mark (Outline.ofLines source) (c + 1) (!entry.isInline) (start + 1) entry.value.2 =
          ((entry.marked start).2, after) ∧
        after ≤ start + 1 + contentEnd entry.tailLines
  | c, .leaf key tail value more, start, rest, written, ends, undisturbed => by
      refine ⟨start + 1, ?_, Nat.le_add_right _ _⟩
      simp only [Entry.value, Entry.marked, Entry.isInline]
      cases inline : tail.isInline with
      | true => exact Value.mark_unlocated _ _ _ value
      | false =>
          apply Value.mark_of_not_found
          intro sought
          obtain ⟨noKey, notAhead⟩ := undisturbed inline sought
          have ownLines : source.drop (start + 1) = more.lines ++ rest := written
          have found := isSome_findKey_entry ownLines
          rw [noKey, notAhead] at found
          exact Option.isNone_iff_eq_none.mp (Option.isSome_eq_false_iff.mp found)
  | c, .mapping key tail notInline gap inner deeper entries, start, rest, written, ends,
      undisturbed => by
      simp only [Entry.tailLines, List.append_assoc, List.cons_append] at written
      have entriesWritten := WrittenAt.behind_gap gap written
      have innerEnds := ends.mono (Nat.le_of_lt deeper)
      have stands := (Stands.here source (c + 1) (start + 1)).pass_gap gap written
      obtain ⟨after, equality, passed⟩ := entries.mark_of_markEntries deeper entriesWritten
        innerEnds stands (entries.markEntries_eq entriesWritten.drop_succ innerEnds undisturbed)
      refine ⟨after, equality, ?_⟩
      exact (passed.extend (entries.isContent_head inner)).within
  | c, .sequence key tail notInline gap inner notShallower items, start, rest, written, ends,
      undisturbed => by
      simp only [Entry.tailLines, List.append_assoc, List.cons_append] at written
      have itemsWritten := WrittenAt.behind_gap gap written
      have innerEnds := ends.mono (Nat.le_succ_of_le notShallower)
      have stands := (Stands.here source (c + 1) (start + 1)).pass_gap gap written
      obtain ⟨after, equality, passed⟩ := items.markItems_eq (Nat.succ_le_succ notShallower)
        itemsWritten innerEnds stands undisturbed
      refine ⟨after, ?_, ?_⟩
      · simp only [Entry.value, Entry.isInline, Bool.not_false, Value.mark, equality]
        rfl
      · exact (passed.extend (items.isContent_head inner)).within

/-- Items that are not disturbed get exactly the lines of their mappings. The search ends behind the
    last mapping of them. -/
theorem Items.markItems_eq : ∀ {s : Nat} (items : Items s) {least next start : Nat}
    {waiting : Bool} {rest : List (List Char)}, least ≤ s + 1 →
    WrittenAt source start s items.head items.tailLines rest → Ends (s + 1) rest →
    Stands source least next start waiting → items.Undisturbed least waiting rest →
    ∃ after,
      Value.markItems (Outline.ofLines source) least true next items.value =
          (items.marked start, after) ∧
        Passed source least start items.tailLines after (items.waits waiting)
  | s, .one item, least, next, start, waiting, rest, least_le, written, ends, stands,
      undisturbed => by
      obtain ⟨after, equality, passed⟩ := item.mark_eq least_le written ends stands undisturbed
      refine ⟨after, ?_, passed⟩
      rw [Items.value, Value.markItems, equality]
      rfl
  | s, .cons item gap others, least, next, start, waiting, rest, least_le, written, ends, stands,
      undisturbed => by
      obtain ⟨itemUndisturbed, othersUndisturbed⟩ := undisturbed
      have itemWritten : WrittenAt source start s item.head item.tailLines
          (gap.lines ++ (others.lines ++ rest)) := by
        rw [← List.append_assoc]
        exact written.first
      have itemEnds := (others.ends rest).behind_gap gap
      obtain ⟨itemAfter, itemEq, itemPassed⟩ :=
        item.mark_eq least_le itemWritten itemEnds stands itemUndisturbed
      have behindItem := drop_of_drop_eq_append itemWritten.drop_succ
      obtain ⟨after, othersEq, passed⟩ := others.markItems_eq least_le
        (WrittenAt.behind_gap gap behindItem) ends (itemPassed.stands.pass_gap gap behindItem)
        othersUndisturbed
      refine ⟨after, ?_, ?_⟩
      · rw [Items.value, Value.markItems, itemEq]
        simp only [othersEq]
        rfl
      · rw [Items.tailLines, ← List.append_assoc]
        apply Passed.extend (others.isContent_head s)
        rw [List.length_append, ← Nat.add_assoc]
        exact passed

/-- An item that is not disturbed gets exactly the lines of its mappings. The search ends behind the
    last mapping of it. -/
theorem Item.mark_eq : ∀ {s : Nat} (item : Item s) {least next start : Nat} {waiting : Bool}
    {rest : List (List Char)}, least ≤ s + 1 →
    WrittenAt source start s item.head item.tailLines rest → Ends (s + 1) rest →
    Stands source least next start waiting → item.Undisturbed least waiting rest →
    ∃ after,
      Value.mark (Outline.ofLines source) least true next item.value =
          (item.marked start, after) ∧
        Passed source least start item.tailLines after (item.waits waiting)
  | s, .leaf tail value more, least, next, start, waiting, rest, least_le, written, ends, stands,
      undisturbed => by
      refine ⟨next, ?_, Nat.le_trans stands.le (by omega),
        stands.pass_dash least_le written (more.deep least_le)⟩
      apply Value.mark_of_not_found
      intro sought
      obtain ⟨noneWaits, noKey, notAhead⟩ := undisturbed sought
      have found := stands.isSome_findKey_item least_le written
      rw [noneWaits, noKey, notAhead] at found
      exact Option.isNone_iff_eq_none.mp (Option.isSome_eq_false_iff.mp found)
  | s, .beside space block, least, next, start, waiting, rest, least_le, written, ends, stands,
      undisturbed => by
      have deeper : s + 1 ≤ s + space + 2 := by omega
      exact block.mark_eq (Nat.le_trans least_le deeper) written.behind_dash (ends.mono deeper)
        stands undisturbed
  | s, .beneath tail noKey gap inner deeper block, least, next, start, waiting, rest, least_le,
      written, ends, stands, undisturbed => by
      have behindDash := written.drop_succ
      simp only [Item.tailLines, List.append_assoc, List.cons_append] at behindDash
      obtain ⟨after, equality, passed⟩ := block.mark_eq (Nat.le_trans least_le deeper)
        (WrittenAt.behind_gap gap behindDash) (ends.mono deeper)
        (stands.pass_bare_dash least_le noKey gap written) undisturbed
      exact ⟨after, equality, passed.extend (block.isContent_head inner)⟩

/-- A collection that is not disturbed gets exactly the lines of its mappings. The search ends
    behind the last mapping of it. -/
theorem Block.mark_eq : ∀ {c : Nat} (block : Block c) {least next start : Nat} {waiting : Bool}
    {rest : List (List Char)}, least ≤ c →
    WrittenAt source start c block.head block.tailLines rest → Ends c rest →
    Stands source least next start waiting → block.Undisturbed least waiting rest →
    ∃ after,
      Value.mark (Outline.ofLines source) least true next block.value =
          (block.marked start, after) ∧
        Passed source least start block.tailLines after (block.waits waiting)
  | c, .mapping entries, least, next, start, waiting, rest, least_le, written, ends, stands,
      undisturbed => by
      obtain ⟨noneWaits, entriesUndisturbed⟩ := undisturbed
      subst noneWaits
      exact entries.mark_of_markEntries least_le written ends stands
        (entries.markEntries_eq written.drop_succ ends entriesUndisturbed)
  | c, .sequence items, least, next, start, waiting, rest, least_le, written, ends, stands,
      undisturbed => by
      obtain ⟨after, equality, passed⟩ := items.markItems_eq (Nat.le_succ_of_le least_le) written
        (ends.mono (Nat.le_succ c)) stands undisturbed
      refine ⟨after, ?_, passed⟩
      rw [Block.value, Value.mark, equality]
      rfl

end

/-! ### Documents -/

namespace Document

theorem writesKey_front (document : Document) : writesKey document.front = false := by
  rw [front, writesKey_append, writesKey_append, writesKey_of_blank document.header.blank,
    writesKey_of_blank document.preface.blank]
  cases document.start <;> decide

theorem writesKey_back (document : Document) : writesKey document.back = false := by
  rw [back, writesKey_append, writesKey_append, writesKey_of_blank document.trailer.blank,
    writesKey_of_blank document.appendix.blank]
  cases document.stop <;> decide

theorem drop_front (document : Document) :
    document.lines.drop document.front.length = document.root.lines ++ document.back :=
  List.drop_left

/-- The search begins with the first line and passes all that stands in front of the root. -/
theorem stands (document : Document) :
    Stands document.lines 0 0 document.front.length false := by
  have written : document.lines.drop 0 = document.front ++ (document.root.lines ++ document.back) :=
    rfl
  have deep : Deep 0 document.front := fun line _ _ => Nat.zero_le _
  have passed := (Stands.here document.lines 0 0).pass written deep
  rwa [document.writesKey_front, Nat.zero_add] at passed

/-- A key is found for a document without blocks when one of its lines reads as one with a key. -/
theorem isSome_findKey (document : Document) :
    (((Outline.ofLines document.lines).startingAt 0).findKey 0 none).isSome =
      writesKey document.root.lines := by
  have deepRoot : Deep 0 document.root.lines := fun line _ _ => Nat.zero_le _
  have deepBack : Deep 0 document.back := fun line _ _ => Nat.zero_le _
  have nothingBehind := keyAhead_append deepBack []
  rw [List.append_nil, document.writesKey_back] at nothingBehind
  rw [document.stands.isSome_findKey document.drop_front deepRoot, nothingBehind]
  simp [keyAhead]

/-- A document that is not disturbed gets exactly the lines of its block mappings. -/
theorem node_eq (document : Document) (undisturbed : document.Undisturbed) :
    document.value.node document.lines = document.marked := by
  rw [Value.node, Document.value, Document.marked]
  rw [Document.Undisturbed] at undisturbed
  have stands := document.stands
  have found := document.isSome_findKey
  have written := document.drop_front
  have ends := document.back_ends
  cases root : document.root with
  | leaf value lines =>
      rw [root] at undisturbed found
      simp only
      rw [Value.mark_of_not_found value]
      intro sought
      have noKey : writesKey lines = false := undisturbed sought
      simp only [Root.lines] at found
      rw [noKey] at found
      exact Option.isNone_iff_eq_none.mp (Option.isSome_eq_false_iff.mp found)
  | @block column block =>
      rw [root] at undisturbed written
      obtain ⟨after, equality, _⟩ := block.mark_eq (Nat.zero_le column)
        ⟨spaces column, .spaces column, List.length_replicate, written⟩ (ends column) stands
        undisturbed
      simp only
      rw [equality]

end Document

end ConfigScan.Yaml.Layout
