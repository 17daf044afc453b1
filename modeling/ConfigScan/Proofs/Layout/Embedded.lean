/-
Module: ConfigScan.Proofs.Layout.Embedded
Purpose: What becomes of a document that is written below a key: its lines are indented and follow
  the line of the key, and all that changes in its node is that every line is one further down, as
  long as the loader takes the key for one.
Main exports: Layout.indented, Layout.ofLinesFrom_indented, Layout.node_belowKey,
  Layout.node_ne_of_no_key, Layout.PlainWord, Layout.node_belowWord_iff
-/
import ConfigScan.Proofs.Layout.Cursor
import ConfigScan.Proofs.Yaml.Indenting
import ConfigScan.Proofs.Yaml.Moving
import ConfigScan.Yaml.Document
import Mathlib

namespace ConfigScan.Yaml.Layout

/-- The lines behind `width` more spaces each. -/
def indented (width : Nat) (lines : List (List Char)) : List (List Char) :=
  lines.map (spaces width ++ ·)

/-! ### One line behind spaces -/

theorem stripDashesFrom_add (width column : Nat) (line : List Char) :
    stripDashesFrom (column + width) line =
      ((stripDashesFrom column line).1 + width, (stripDashesFrom column line).2) := by
  fun_induction stripDashesFrom column line with
  | case1 column rest inductionHypothesis =>
      rw [stripDashesFrom, ← inductionHypothesis, Nat.add_right_comm]
  | case2 column => rw [stripDashesFrom, Nat.add_right_comm]
  | case3 column rest inductionHypothesis =>
      rw [stripDashesFrom, ← inductionHypothesis, Nat.add_right_comm]
  | case4 column rest notSpace notDash notItem =>
      rw [stripDashesFrom] <;> assumption

theorem stripDashes_spaces (width : Nat) (line : List Char) :
    stripDashes (spaces width ++ line) = ((stripDashes line).1 + width, (stripDashes line).2) := by
  rw [stripDashes, stripDashesFrom_spaces, stripDashesFrom_add, stripDashes]

theorem isDashLine_spaces (width : Nat) (line : List Char) :
    isDashLine (spaces width ++ line) = isDashLine line := by
  unfold isDashLine
  rw [dropWhile_spaces_append]

/-- A key line stays one, at the column behind the spaces. -/
theorem read?_spaces (width : Nat) (line : List Char) :
    KeyLine.read? (spaces width ++ line) = (KeyLine.read? line).map (KeyLine.indentBy width) := by
  unfold KeyLine.read?
  rw [stripDashes_spaces]
  generalize stripDashes line = parts
  obtain ⟨column, text⟩ := parts
  cases text with
  | nil => rfl
  | cons c rest =>
      simp only
      split
      · rfl
      · cases KeyLine.splitKey? (c :: rest) with
        | none => rfl
        | some parts =>
            simp only [bind, Option.bind_some]
            cases KeyLine.afterColon? parts.2 <;> rfl

/-- A line behind spaces is the same line at a deeper column, unless it started or ended a
    document. -/
theorem ofLine_spaces {width : Nat} (positive : 0 < width) {line : List Char}
    (noMarker : isDocumentMarker line = false) (index : Nat) :
    OutlineLine.ofLine index (spaces width ++ line) =
      (OutlineLine.ofLine index line).indentBy width := by
  have indentation : indent (spaces width ++ line) = indent line + width := by
    rw [indent_spaces_append, Nat.add_comm]
  have noMarkerBehind : isDocumentMarker (spaces width ++ line) = false :=
    isDocumentMarker_of_indent_pos (by omega)
  simp only [OutlineLine.ofLine, OutlineLine.indentBy, indentation, stripDashes_spaces,
    isDashLine_spaces, noMarkerBehind, noMarker, read?_spaces]

/-! ### All lines behind spaces -/

theorem ofLinesFrom_indented {width : Nat} (positive : 0 < width) {lines : List (List Char)}
    (noMarkers : ∀ line ∈ lines, isDocumentMarker line = false) (index : Nat) :
    Outline.ofLinesFrom index (indented width lines) =
      Outline.indentBy width (Outline.ofLinesFrom index lines) := by
  induction lines generalizing index with
  | nil => rfl
  | cons line rest inductionHypothesis =>
      have here := ofLine_spaces positive (noMarkers line List.mem_cons_self) index
      have below := inductionHypothesis (fun other member =>
        noMarkers other (List.mem_cons_of_mem _ member)) (index + 1)
      have sameContent := isContent_spaces width line
      rw [indented] at below ⊢
      rw [List.map_cons]
      cases content : isContent line with
      | true =>
          rw [Outline.ofLinesFrom_cons_content (sameContent.trans content),
            Outline.ofLinesFrom_cons_content content, here, below]
          rfl
      | false =>
          rw [Outline.ofLinesFrom_cons_blank (sameContent.trans content),
            Outline.ofLinesFrom_cons_blank content, below]

/-! ### Below a key -/

/-- The lines of a document that is written below a key. -/
def belowKey (key : WrittenKey) (width : Nat) (lines : List (List Char)) : List (List Char) :=
  keyText key.spelling .empty :: indented width lines

/-- Lines behind spaces may all belong to a value whose key is at the first column. -/
def Continuation.ofIndented {width : Nat} (positive : 0 < width) (lines : List (List Char)) :
    Continuation 0 where
  lines := indented width lines
  deeper := by
    intro line member _
    obtain ⟨inner, _, equality⟩ := List.mem_map.mp member
    rw [← equality, indent_spaces_append]
    omega

variable {lines : List (List Char)} {width : Nat}

/-- The value of the key is searched below it, where it gets the lines that it has in a source of
    its own, each one further down. -/
theorem mark_belowKey (key : WrittenKey) (positive : 0 < width)
    (noMarkers : ∀ line ∈ lines, isDocumentMarker line = false) (small : lines.length < 2 ^ 63)
    (value : Value) :
    (Value.mark (Outline.ofLines (belowKey key width lines)) 1 true 1 value).1 =
      (value.node lines).moveLines (· + 1) := by
  -- first the line of the key is left out, which moves all lines, then the spaces are
  have abreast : Outline.Abreast (· + 1) (Outline.ofLines (indented width lines))
      (Outline.ofLines (belowKey key width lines)) [] []
      (Outline.ofLines (indented width lines)) 0 1 := by
    constructor
    · rw [Outline.startingAt_ofLines, List.drop_zero, List.append_nil]
      rfl
    · rw [Outline.startingAt_ofLines, List.append_nil, Outline.ofLines,
        Outline.move_ofLinesFrom (fun below => Nat.add_right_comm 0 below 1)]
      rfl
  have indexSmall : ∀ line ∈ Outline.ofLines (indented width lines),
      line.index + 1 < 2 ^ 63 := by
    intro line member
    have inside := Outline.index_lt_length member
    rw [indented, List.length_map] at inside
    exact Nat.lt_of_le_of_lt inside small
  have moved := (Value.mark_move (Outline.wellFormed_ofLines _) (Outline.wellFormed_ofLines _)
    indexSmall (.nil 1) (.nil 1) true abreast value).1
  rw [moved, Outline.ofLines, ofLinesFrom_indented positive noMarkers,
    Value.mark_indentBy (.of_le positive) 0 true value]
  rfl

/-- Writing a document below a key only moves its lines. The value of the key is the node of the
    document with every line one further down, and the mapping of the key reaches from the first line
    to the last one with content. No line starts or ends a document here, and a list of lines in
    memory has fewer than `2 ^ 63` members. -/
theorem node_belowKey (key : WrittenKey) (value : Value) (positive : 0 < width)
    (noMarkers : ∀ line ∈ lines, isDocumentMarker line = false) (small : lines.length < 2 ^ 63) :
    (Value.map [(key.name, value)]).node (belowKey key width lines) =
      .map (Mapping.withLines [(key.key, (value.node lines).moveLines (· + 1))] 1
        (contentEnd (belowKey key width lines))) := by
  -- for the search of its own lines, the mapping might as well have a text over many lines
  let entries : Entries 0 := .one (.leaf key .empty value (.ofIndented positive lines))
  have written : WrittenAt (belowKey key width lines) 0 0 entries.head entries.tailLines [] :=
    ⟨spaces 0, .spaces 0, rfl, congrArg _ (List.append_nil _).symm⟩
  have ends : Ends 0 [] := by
    intro line member
    cases member
  have marked := entries.mark_eq (Nat.le_refl 0) written ends (.here _ 0 0)
  have lastNumber : contentEnd (belowKey key width lines) =
      0 + 1 + contentEnd (indented width lines) :=
    contentEnd_append_cons (isContent_keyText key.spelling .empty) [] (indented width lines)
  have named : key.name.key? = some key.key := (Option.some_get key.scalar).symm
  have placed : (Value.markEntries (Outline.ofLines (belowKey key width lines)) 0
      ((entries.places 0).map some) 0 entries.value).1 =
        [(key.key, (value.node lines).moveLines (· + 1))] := by
    have places : (entries.places 0).map some =
        [some { line := 0, column := 0, inline := KeyTail.empty.isInline }] := rfl
    have own : entries.value = [(key.name, value)] := rfl
    rw [places, own, Value.markEntries_cons_of_placed, KeyTail.isInline_empty, named,
      ← mark_belowKey key positive noMarkers small value]
    rfl
  rw [placed] at marked
  rw [lastNumber]
  exact congrArg Prod.fst marked

/-! ### Below a line without a key -/

section

variable {first : List Char} {rest : List (List Char)}

/-- A first line that is blank, a comment or none with a key makes no difference to the search for
    keys. -/
theorem keyPositions_of_no_key (noKey : isContent first = false ∨ KeyLine.read? first = none)
    (entries : List (Value × Value)) :
    Value.keyPositions (Outline.ofLines (first :: rest)) 0 0 entries =
      Value.keyPositions (Outline.ofLines (first :: rest)) 0 1 entries := by
  rw [Value.keyPositions, Value.keyPositions, Outline.startingAt_ofLines,
    Outline.startingAt_ofLines, List.drop_zero, List.drop_succ_cons, List.drop_zero]
  cases content : isContent first with
  | false => rw [Outline.ofLinesFrom_cons_blank content]
  | true =>
      have unread : KeyLine.read? first = none :=
        noKey.resolve_left fun blank => by simp [blank] at content
      have passed : Outline.passes 0 none (OutlineLine.ofLine 0 first) = true := by
        simp [Outline.passes, Outline.outside, Outline.matchesKey, OutlineLine.ofLine, unread]
      rw [Outline.ofLinesFrom_cons_content content, Outline.findKeys_cons_of_passes passed]

/-- No mapping at the top of a document starts on a line that is none with a key. -/
theorem node_ne_of_no_key (noKey : isContent first = false ∨ KeyLine.read? first = none)
    (small : (first :: rest).length < 2 ^ 64) (entries : List (Value × Value)) (others : Mapping)
    (last : Nat) :
    (Value.map entries).node (first :: rest) ≠ .map (others.withLines 1 last) := by
  have wellFormed := Outline.wellFormed_ofLines (first :: rest)
  have fence : (Outline.ofLines (first :: rest)).Fence 0 (first :: rest).length :=
    Or.inl fun line member => Outline.index_lt_length member
  have one_le : 1 ≤ (first :: rest).length := Nat.succ_le_succ (Nat.zero_le _)
  obtain ⟨column, _, ladder⟩ := Value.keyPositions_ladder wellFormed fence one_le entries
  rw [← keyPositions_of_no_key noKey] at ladder
  intro same
  rw [Value.node] at same
  cases placed :
      (Value.keyPositions (Outline.ofLines (first :: rest)) 0 0 entries).filterMap id with
  | nil =>
      rw [Value.mark_map_of_unplaced placed] at same
      have unmarked := Value.unmarked_unmarkedEntries entries
      have marker : (Key.startLine, Mapping.lineValue 1) ∈ Value.unmarkedEntries entries := by
        rw [Node.map.inj same, Mapping.withLines]
        simp
      exact absurd (unmarked _ marker) (by decide)
  | cons head others =>
      obtain ⟨tail, isLast, firstLine_eq, _, head_le, tail_lt⟩ := ladder.ends placed
      have below := ladder.le_firstLine one_le
      have isHead : ((Value.keyPositions (Outline.ofLines (first :: rest)) 0 0 entries).filterMap
          id).head? = some head := by
        rw [placed]
        rfl
      rw [Value.mark_map_of_placed isHead isLast] at same
      obtain ⟨_, sameFirst, _⟩ := Mapping.withLines_inj (Node.map.inj same)
      have equal := Mapping.lineValue_inj (by omega) (by omega) sameFirst
      omega

end

/-! ### Plain keys of every kind -/

/-- A plain key, with the spaces behind it. It may begin with a question mark, and nothing in it need
    be visible. -/
structure PlainWord where
  text : List Char
  nonempty : text ≠ []
  start : ∀ c ∈ text.head?, c ∉ [' ', '#', '{', '[', '"', '\'']
  noItem : ¬ ['-', ' '] <+: text
  noExplicit : ¬ ['?', ' '] <+: text
  neighbours : text.IsChain PlainNeighbours

namespace PlainWord

/-- The line of the key. -/
def line (word : PlainWord) : List Char := word.text ++ [':']

/-- The loader takes the key for one: it does not begin with a question mark, and it has a visible
    character, the first of which is no number sign. -/
def IsRead (word : PlainWord) : Prop := ¬ ['?'] <+: word.text ∧ isContent word.text = true

/-- A key that the loader takes for one. -/
def toKey (word : PlainWord) (isRead : word.IsRead) : PlainKey where
  text := word.text
  start := by
    intro c first
    have allowed := word.start c first
    obtain ⟨rest, text_eq⟩ := List.head?_eq_some_iff.mp first
    have noMark : c ≠ '?' := by
      rintro rfl
      exact isRead.1 ⟨rest, text_eq.symm⟩
    simp_all
  noItem := word.noItem
  neighbours := word.neighbours
  visible := isRead.2

/-- A key that begins with a question mark is refused. -/
theorem read?_of_mark (word : PlainWord) (mark : ['?'] <+: word.text) :
    KeyLine.read? word.line = none := by
  obtain ⟨rest, text_eq⟩ := mark
  rw [KeyLine.read?, line, ← text_eq, stripDashes, List.cons_append, List.cons_append,
    stripDashesFrom_of_ne (by decide) (by decide)]
  rfl

/-- Nothing is left of a key without anything visible when its end is trimmed, so it is refused. -/
theorem read?_of_hidden (word : PlainWord) (hidden : word.text.dropWhile Text.isBlank = []) :
    KeyLine.read? word.line = none := by
  obtain ⟨text, nonempty, start, _, _, neighbours⟩ := word
  have blank : ∀ c ∈ text, Text.isBlank c = true := List.dropWhile_eq_nil_iff.mp hidden
  obtain ⟨c, rest, rfl⟩ := List.exists_cons_of_ne_nil nonempty
  have firstBlank := blank c List.mem_cons_self
  have notBlank : ∀ d ∈ ['#', '{', '[', '?', '"', '\'', '-'], c ≠ d := by
    rintro d member rfl
    simp only [List.mem_cons, List.not_mem_nil, or_false] at member
    rcases member with rfl | rfl | rfl | rfl | rfl | rfl | rfl <;> exact absurd firstBlank (by decide)
  have notSpace : c ≠ ' ' := fun space => start c rfl (by simp [space])
  have starts : StartsKey ((c :: rest) ++ [':']) := by
    refine ⟨c, rest ++ [':'], rfl, ?_, fun dash => absurd dash (notBlank '-' (by decide))⟩
    simp [notSpace, notBlank]
  have split : KeyLine.splitPlain? false ((c :: rest) ++ ':' :: []) = some (c :: rest, [':']) :=
    splitPlain?_append neighbours (by simp) (by simp)
  have trimmed : Text.trimEnd (c :: rest) = [] := by
    rw [Text.trimEnd, List.reverse_eq_nil_iff, List.dropWhile_eq_nil_iff]
    exact fun d member => blank d (List.mem_reverse.mp member)
  have unsplit : KeyLine.splitKey? ((c :: rest) ++ [':']) = none := by
    unfold KeyLine.splitKey?
    split
    · next rest' equality => exact absurd (List.cons.inj equality).1 (notBlank '"' (by decide))
    · next rest' equality => exact absurd (List.cons.inj equality).1 (notBlank '\'' (by decide))
    · rw [split]
      simp [trimmed]
  have read := starts.read?_eq (.spaces 0)
  rw [unsplit] at read
  exact read

/-- The line of any other key is a comment, or the key is refused. -/
theorem no_key_of_not_isRead (word : PlainWord) (unread : ¬ word.IsRead) :
    isContent word.line = false ∨ KeyLine.read? word.line = none := by
  by_cases mark : ['?'] <+: word.text
  · exact Or.inr (word.read?_of_mark mark)
  · have noContent : ¬ isContent word.text = true := fun content => unread ⟨mark, content⟩
    rw [isContent_eq] at noContent
    cases shown : word.text.dropWhile Text.isBlank with
    | nil => exact Or.inr (word.read?_of_hidden shown)
    | cons c rest =>
        left
        rw [shown] at noContent
        rw [isContent_eq, line, List.dropWhile_append, shown]
        exact Bool.eq_false_iff.mpr noContent

end PlainWord

/-- Writing a document below a plain key only moves its lines, exactly when the loader takes the key
    for one. Then the value of the key is the node of the document with every line one further down,
    and the mapping of the key reaches from the first line to the last one with content. -/
theorem node_belowWord_iff (word : PlainWord) {name : Value} {key : Key}
    (named : name.key? = some key) (value : Value) (positive : 0 < width)
    (noMarkers : ∀ line ∈ lines, isDocumentMarker line = false) (small : lines.length < 2 ^ 63) :
    (Value.map [(name, value)]).node (word.line :: indented width lines) =
        .map (Mapping.withLines [(key, (value.node lines).moveLines (· + 1))] 1
          (contentEnd (word.line :: indented width lines))) ↔
      word.IsRead := by
  constructor
  · intro same
    by_contra unread
    have smallSource : (word.line :: indented width lines).length < 2 ^ 64 := by
      rw [List.length_cons, indented, List.length_map]
      omega
    exact node_ne_of_no_key (word.no_key_of_not_isRead unread) smallSource _ _ _ same
  · intro isRead
    have scalar : name.key?.isSome = true := by rw [named, Option.isSome_some]
    have below :=
      node_belowKey ⟨.plain (word.toKey isRead), name, scalar⟩ value positive noMarkers small
    have sameKey : (⟨.plain (word.toKey isRead), name, scalar⟩ : WrittenKey).key = key :=
      Option.some.inj ((Option.some_get scalar).trans named)
    rw [sameKey] at below
    exact below

/-- A sequence with a mapping whose value is one, and with a comment at its end. -/
theorem node_belowWord_iff_steps :
    let word : PlainWord :=
      ⟨"steps".toList, by decide, by simp, by decide, by decide, by decide⟩
    let value : Value := .seq [.map [(.str "run", .str "x")],
      .map [(.str "with", .map [(.str "b", .null)])]]
    let lines := ["- run: x".toList, [], "- with:".toList, "   b:".toList, "# end".toList]
    (Value.str "steps").key? = some (.str "steps") ∧ 0 < 2 ∧
      (∀ line ∈ lines, isDocumentMarker line = false) ∧ lines.length < 2 ^ 63 ∧
      (value.node lines).spans [0] = [⟨[0, 0], 1, 1⟩, ⟨[0, 1], 3, 4⟩, ⟨[0, 1, 0], 4, 4⟩] ∧
      word.IsRead ∧
      (Value.map [(.str "steps", value)]).node (word.line :: indented 2 lines) =
        .map (Mapping.withLines [(.str "steps", (value.node lines).moveLines (· + 1))] 1
          (contentEnd (word.line :: indented 2 lines))) ∧
      ((Value.map [(.str "steps", value)]).node (word.line :: indented 2 lines)).spans [] =
        [⟨[], 1, 5⟩, ⟨[0, 0], 2, 2⟩, ⟨[0, 1], 4, 5⟩, ⟨[0, 1, 0], 5, 5⟩] := by
  intro word value lines
  have noMarkers : ∀ line ∈ lines, isDocumentMarker line = false := by decide
  have isRead : word.IsRead := ⟨by decide, by decide⟩
  have named : (Value.str "steps").key? = some (.str "steps") := rfl
  have below := node_belowWord_iff word named value (by decide : 0 < 2) noMarkers (by decide)
  exact ⟨named, by decide, noMarkers, by decide, by decide +kernel, isRead, below.mpr isRead,
    by decide +kernel⟩

/-- Below a key that the loader does not take for one, a mapping has no lines, since the mapping of
    the key gets them. `?x:` begins like an explicit key. `\u00a0:` is a line with content, but
    nothing is left of its key when that is trimmed, and `\u00a0#:` counts as a comment. -/
theorem spans_of_unread_parent :
    let value : Value := .map [(.str "a", .int 1)]
    (value.node ["a: 1".toList]).spans [] = [⟨[], 1, 1⟩] ∧
      (isContent "?x:".toList = true ∧ isContent "\u00a0:".toList = true ∧
        isContent "\u00a0#:".toList = false) ∧
      ∀ name ∈ ["?x", "\u00a0", "\u00a0#"],
        let source := (name ++ ":\n  a: 1\n").toList
        let lines := (name ++ ":").toList :: indented 2 ["a: 1".toList]
        Value.ofText? source = some (.map [(.str name, value)]) ∧ Text.lines source = lines ∧
          ((Value.map [(.str name, value)]).node lines).spans [] = [⟨[], 2, 2⟩] ∧
          (Node.map (Mapping.withLines
            [(.str name, (value.node ["a: 1".toList]).moveLines (· + 1))] 1
              (contentEnd lines))).spans [] = [⟨[], 1, 2⟩, ⟨[0], 2, 2⟩] := by
  intro value
  refine ⟨by decide +kernel, by decide, ?_⟩
  intro name member
  simp only [List.mem_cons, List.not_mem_nil, or_false] at member
  rcases member with rfl | rfl | rfl <;>
    exact ⟨by cbv, by decide +kernel, by decide +kernel, by decide +kernel⟩

end ConfigScan.Yaml.Layout
