/-
Module: ConfigScan.Proofs.Layout.Siblings
Purpose: What becomes of the other values of a block mapping when some of its keys stand behind a
  question mark. As long as the lines with keys are in step with the keys, the mappings in a value
  get the same lines as if all keys had been written plainly. Where they are not, none is kept.
Main exports: Node.valueAt?, Layout.Setting.ownNode, Layout.Setting.ownNode_move,
  Layout.Setting.sibling_kept_iff_inStep, Layout.spans_of_hidden_sibling
-/
import ConfigScan.Proofs.Layout.Hidden
import ConfigScan.Proofs.Layout.Scalars
import ConfigScan.Proofs.Yaml.Moving

namespace ConfigScan

/-- The value of an entry of a mapping. -/
def Node.valueAt? (node : Node) (place : Nat) : Option Node :=
  node.mapping?.bind fun entries => entries[place]?.map (·.2)

namespace Yaml

namespace Value

/-- The n-th value of a mapping with scalar keys is searched behind the n-th place, if there is one,
    and else it gets no lines. -/
theorem valueAt?_mark {outline : Outline} {least next : Nat} {entries : List (Value × Value)}
    (scalars : ∀ entry ∈ entries, entry.1.key?.isSome = true) {place : Nat} {key value : Value}
    (found : entries[place]? = some (key, value)) :
    (mark outline least true next (.map entries)).1.valueAt? place =
      some (placed outline value (keyPositions outline least next entries)[place]?.join) := by
  have inEntries : ((markEntries outline least (keyPositions outline least next entries) next
      entries).1[place]?).map (·.2) =
        some (placed outline value (keyPositions outline least next entries)[place]?.join) :=
    getElem?_markEntries scalars found
  cases located : (keyPositions outline least next entries).filterMap id with
  | nil =>
      have unplaced := List.filterMap_eq_nil_iff.mp located
      rw [markEntries_unplaced outline least next entries _ unplaced] at inEntries
      rw [mark_map_of_unplaced located]
      exact inEntries
  | cons first others =>
      obtain ⟨last, tail⟩ : ∃ last, ((keyPositions outline least next entries).filterMap
          id).getLast? = some last := by
        rw [located, List.getLast?_cons]
        exact ⟨_, rfl⟩
      have head : ((keyPositions outline least next entries).filterMap id).head? = some first := by
        rw [located]
        rfl
      obtain ⟨entry, isEntry, _⟩ := Option.map_eq_some_iff.mp inEntries
      have inFront := (List.getElem?_eq_some_iff.mp isEntry).1
      rw [mark_map_of_placed head tail, ← inEntries]
      exact congrArg (Option.map (·.2)) (List.getElem?_append_left inFront)

end Value

namespace Layout

namespace Setting

variable {c : Nat} (setting : Setting c)

/-- What the search makes of the value of an entry when it finds the key on the first line of the
    entry. -/
def ownNode (front back : Parts c) (entry : Keyed c) (gap : Gap) : Node :=
  Value.placed (setting.outline (front ++ (.visible entry, gap) :: back)) entry.value
    (some { line := setting.lineBehind front, column := c, inline := entry.tail.isInline })

/-- The value of an entry is searched behind the place of its key, if there is one. -/
theorem valueAt?_node (front back : Parts c) (part : Part c) (gap : Gap) :
    (setting.node (front ++ (part, gap) :: back)).valueAt? front.length =
      some (Value.placed (setting.outline (front ++ (part, gap) :: back)) part.entry.value
        (setting.places (front ++ (part, gap) :: back))[front.length]?.join) := by
  have scalars : ∀ entry ∈ Parts.values (front ++ (part, gap) :: back),
      entry.1.key?.isSome = true := by
    intro entry member
    obtain ⟨written, _, rfl⟩ := List.mem_map.mp member
    exact written.1.entry.key.scalar
  apply Value.valueAt?_mark scalars
  rw [Parts.values, List.map_append, List.map_cons,
    List.getElem?_append_right (by rw [List.length_map]), List.length_map, Nat.sub_self]
  rfl

/-! ### Keys on their own lines -/

variable {front back : Parts c} {entry : Keyed c} {gap : Gap}

theorem valueAt?_of_inStep (inStep : front.InStep) :
    (setting.node (front ++ (.visible entry, gap) :: back)).valueAt? front.length =
      some (setting.ownNode front back entry gap) := by
  rw [valueAt?_node, setting.place_of_inStep inStep]
  rfl

/-- The first line of a part stops every search in the value in front of it. -/
theorem stops_part (index : Nat) (part : Part c) (gap : Gap) (others : Parts c)
    (rest : List (List Char)) :
    Outline.Stops (c + 1)
      (Outline.ofLinesFrom index (Parts.linesWith (spaces c) ((part, gap) :: others) ++ rest)) := by
  intro line member
  rw [Parts.linesWith, List.cons_append,
    Outline.ofLinesFrom_cons_content (part.isContent_head (.spaces c))] at member
  cases member
  have column := part.column_head (.spaces c)
  rw [List.length_replicate] at column
  exact ⟨Nat.lt_succ_of_le (Nat.le_of_eq part.indent_head),
    Nat.lt_succ_of_le (Nat.le_of_eq column)⟩

/-- The same lines make the same of a value, wherever they stand, when what comes behind them stops
    the search. -/
theorem mark_of_same_lines {source source' own after after' : List (List Char)}
    {least start start' : Nat} {place : Nat → Nat} (here : source.drop start = own ++ after)
    (there : source'.drop start' = own ++ after')
    (stops : Outline.Stops least (Outline.ofLinesFrom (start + own.length) after))
    (stops' : Outline.Stops least (Outline.ofLinesFrom (start' + own.length) after'))
    (shift : ∀ below, place (start + below) = start' + below) (small : source.length < 2 ^ 63)
    (locate : Bool) (value : Value) :
    (Value.mark (Outline.ofLines source') least locate start' value).1 =
      (Value.mark (Outline.ofLines source) least locate start value).1.moveLines place := by
  have indexSmall : ∀ line ∈ Outline.ofLines source, line.index + 1 < 2 ^ 63 :=
    fun line member => Nat.lt_of_le_of_lt (Outline.index_lt_length member) small
  have abreast : Outline.Abreast place (Outline.ofLines source) (Outline.ofLines source')
      (Outline.ofLinesFrom (start + own.length) after)
      (Outline.ofLinesFrom (start' + own.length) after') (Outline.ofLinesFrom start own) start
      start' := by
    constructor
    · rw [Outline.startingAt_ofLines, here, Outline.ofLinesFrom_append]
    · rw [Outline.startingAt_ofLines, there, Outline.ofLinesFrom_append,
        Outline.move_ofLinesFrom shift]
  exact (Value.mark_move (Outline.wellFormed_ofLines _) (Outline.wellFormed_ofLines _) indexSmall
    stops stops' locate abreast value).1

/-- The value of an entry comes out the same, wherever its lines stand, when another part comes
    behind it or it is the last one. -/
theorem ownNode_move {front front' back back' : Parts c} (alike : back = [] ↔ back' = [])
    (small : (setting.source (front ++ (.visible entry, gap) :: back)).length < 2 ^ 63) :
    setting.ownNode front' back' entry gap =
      (setting.ownNode front back entry gap).moveLines fun line =>
        line - setting.lineBehind front + setting.lineBehind front' := by
  have here := setting.drop_lineBehind_succ front back (.visible entry) gap
  have there := setting.drop_lineBehind_succ front' back' (.visible entry) gap
  have shift : ∀ below, setting.lineBehind front + 1 + below - setting.lineBehind front +
      setting.lineBehind front' = setting.lineBehind front' + 1 + below := by
    intro below
    omega
  cases back with
  | nil =>
      -- behind the last entry the search may go on, over the same lines
      rw [alike.mp rfl] at there ⊢
      rw [linesBelow, ← List.append_nil ((Part.visible entry).below ++ _)] at here there
      exact mark_of_same_lines here there (.nil _) (.nil _) shift small _ _
  | cons head others =>
      obtain ⟨head', others', rfl⟩ : ∃ head' others', back' = head' :: others' := by
        cases back' with
        | nil => exact absurd (alike.mpr rfl) (List.cons_ne_nil _ _)
        | cons head' others' => exact ⟨head', others', rfl⟩
      rw [linesBelow, ← List.append_assoc] at here there
      exact mark_of_same_lines here there (stops_part _ head.1 head.2 others _)
        (stops_part _ head'.1 head'.2 others' _) shift small _ _

/-! ### Keys that are led astray -/

/-- What is searched for behind a place that leads astray shares no lines with the value of the
    entry itself. -/
theorem spans_of_astray {source : List (List Char)} {own : Nat} {position : KeyPosition}
    (small : source.length < 2 ^ 63) (astray : Astray source c own position)
    (onLine : position.line < source.length) {ownLine : OutlineLine}
    (member : ownLine ∈ Outline.ofLines source) (index : ownLine.index = own)
    (column : ownLine.column = c) (inline : Bool) (value : Value) :
    ∀ span ∈ (Value.placed (Outline.ofLines source) value (some position)).spans [],
      span ∉ (Value.placed (Outline.ofLines source) value
        (some { line := own, column := c, inline })).spans [] := by
  have wellFormed := Outline.wellFormed_ofLines source
  have atEnd : ∀ least, (Outline.ofLines source).Fence least source.length :=
    fun least => Or.inl fun _ => Outline.index_lt_length
  have own_lt : own < source.length := index ▸ Outline.index_lt_length member
  intro span found inOwn
  rcases astray with ⟨stop, stopMember, below, stop_le, shallow⟩ | ⟨before, deep⟩
  · have fence : (Outline.ofLines source).Fence (c + 1) stop.index :=
      Or.inr ⟨stop, stopMember, rfl, Nat.lt_succ_of_le shallow⟩
    have stop_lt := Outline.index_lt_length stopMember
    obtain ⟨_, ownUpper, ownBetween⟩ := Value.mark_between wellFormed fence below
      (Nat.lt_trans stop_lt small) (!inline) [] value
    obtain ⟨_, _, between⟩ := Value.mark_between wellFormed (atEnd (position.column + 1)) onLine
      small (!position.inline) [] value
    have lower := (between.bounds span found).1
    have upper := (ownBetween.bounds span inOwn).2
    omega
  · have fence : (Outline.ofLines source).Fence (position.column + 1) own :=
      Or.inr ⟨ownLine, member, index, by omega⟩
    obtain ⟨_, upper, between⟩ := Value.mark_between wellFormed fence before
      (Nat.lt_trans own_lt small) (!position.inline) [] value
    obtain ⟨_, _, ownBetween⟩ := Value.mark_between wellFormed (atEnd (c + 1)) own_lt small
      (!inline) [] value
    have lower := (ownBetween.bounds span inOwn).1
    have bounds := (between.bounds span found).2
    omega

/-! ### Values without lines -/

theorem line_lt_of_place (parts : Parts c) {position : KeyPosition}
    (found : some position ∈ setting.places parts) :
    position.line < (setting.source parts).length := by
  have fence : (setting.outline parts).Fence setting.least (setting.source parts).length :=
    Or.inl fun _ => Outline.index_lt_length
  have next_le : setting.next ≤ (setting.source parts).length := by
    rw [source, List.length_append]
    exact Nat.le_trans setting.next_le (Nat.le_add_right _ _)
  obtain ⟨column, _, ladder⟩ :=
    Value.keyPositions_ladder (Outline.wellFormed_ofLines _) fence next_le parts.values
  exact (ladder.located (List.mem_filterMap.mpr ⟨some position, found, rfl⟩)).2.1

theorem placed_eq_unmarked_of_spans {source : List (List Char)} (small : source.length < 2 ^ 63)
    {value : Value} : ∀ {position : Option KeyPosition}
    (_ : ∀ place ∈ position, place.line < source.length)
    (_ : (Value.placed (Outline.ofLines source) value position).spans [] = []),
    Value.placed (Outline.ofLines source) value position = value.unmarked
  | none, _, _ => rfl
  | some place, onLine, noSpans =>
      Value.mark_eq_unmarked_of_spans (Outline.wellFormed_ofLines source)
        (Or.inl fun _ => Outline.index_lt_length) small (!place.inline) [] (onLine place rfl) value
        noSpans

theorem lineBehind_lt (front back : Parts c) (part : Part c) (gap : Gap) :
    setting.lineBehind front < (setting.source (front ++ (part, gap) :: back)).length :=
  Outline.index_lt_length (setting.headLine_mem_outline front back part gap)

theorem ownNode_eq_unmarked_of_spans
    (small : (setting.source (front ++ (.visible entry, gap) :: back)).length < 2 ^ 63)
    (noSpans : (setting.ownNode front back entry gap).spans [] = []) :
    setting.ownNode front back entry gap = entry.value.unmarked := by
  refine placed_eq_unmarked_of_spans small ?_ noSpans
  intro place isPlace
  cases isPlace
  exact setting.lineBehind_lt front back (.visible entry) gap

/-- An entry of scalars gets exactly the lines of its mappings when its key is found in its
    place. -/
theorem ownNode_of_scalars (own : Entry c) (scalars : own.OfScalars) :
    setting.ownNode front back own.keyed gap = (own.marked (setting.lineBehind front)).2 := by
  have ends := (Parts.ends back setting.ends).behind_gap gap
  obtain ⟨after, equality, _⟩ := own.mark_eq
    (setting.drop_lineBehind_succ front back (.visible own.keyed) gap) ends
    (own.undisturbed_of_scalars scalars _)
  rw [← own.isInline_tail] at equality
  exact congrArg Prod.fst equality

/-- The value of an entry has lines or none wherever the entry stands. -/
theorem spans_ownNode_of_move {front front' back back' : Parts c} (alike : back = [] ↔ back' = [])
    (small : (setting.source (front ++ (.visible entry, gap) :: back)).length < 2 ^ 63)
    (noSpans : (setting.ownNode front back entry gap).spans [] = []) :
    (setting.ownNode front' back' entry gap).spans [] = [] := by
  rw [setting.ownNode_move alike small, setting.ownNode_eq_unmarked_of_spans small noSpans,
    Value.moveLines_unmarked, Value.spans_unmarked]

/-- The place of a key gives its value the same lines as its own line does if and only if it is that
    line, unless there are none in either case. -/
theorem placed_eq_ownNode_iff
    (small : (setting.source (front ++ (.visible entry, gap) :: back)).length < 2 ^ 63)
    {node : Node}
    (found : (setting.node (front ++ (.visible entry, gap) :: back)).valueAt? front.length =
      some node) :
    node = setting.ownNode front back entry gap ↔
      front.InStep ∨ node.spans [] = [] ∧ (setting.ownNode front back entry gap).spans [] = [] := by
  constructor
  · intro same
    by_cases inStep : front.InStep
    · exact Or.inl inStep
    · refine Or.inr ?_
      rw [← same, and_self_iff]
      rw [valueAt?_node, Option.some.injEq] at found
      cases taken :
          (setting.places (front ++ (.visible entry, gap) :: back))[front.length]?.join with
      | none =>
          rw [taken] at found
          rw [← found]
          exact Value.spans_unmarked [] _
      | some position =>
          rw [taken] at found
          have isPlace := Option.join_eq_some_iff.mp taken
          have column := (Part.visible entry).column_head (setting.isLead_leadBehind front)
          rw [setting.length_leadBehind] at column
          have apart := spans_of_astray small (setting.astray inStep isPlace)
            (setting.line_lt_of_place _ (List.mem_of_getElem? isPlace))
            (setting.headLine_mem_outline front back (.visible entry) gap) rfl column
            entry.tail.isInline entry.value
          rw [List.eq_nil_iff_forall_not_mem]
          intro span member
          have inOwn := member
          rw [same] at inOwn
          rw [← found] at member
          exact apart span member inOwn
  · rintro (inStep | ⟨noSpans, noOwnSpans⟩)
    · rw [setting.valueAt?_of_inStep inStep] at found
      exact (Option.some.inj found).symm
    · rw [setting.ownNode_eq_unmarked_of_spans small noOwnSpans]
      rw [valueAt?_node, Option.some.injEq] at found
      rw [← found] at noSpans ⊢
      refine placed_eq_unmarked_of_spans small ?_ noSpans
      intro position isPlace
      exact setting.line_lt_of_place _
        (List.mem_of_getElem? (Option.join_eq_some_iff.mp isPlace))

/-! ### The other values of a mapping -/

/-- Some keys of a block mapping stand behind question marks, any of them and any number. The value
    of another key gets the same lines as if all keys had been written plainly, up to the move of
    the lines, if and only if the lines with keys in front of it are in step with the keys, unless
    it has no lines either way. In a value of scalars in block style these are exactly the lines of
    its mappings. A list of lines in memory has fewer than `2 ^ 63` members. -/
theorem sibling_kept_iff_inStep (front back : Parts c) (entry : Keyed c) (gap : Gap)
    (small : (setting.source (front ++ (.visible entry, gap) :: back)).length < 2 ^ 63)
    (small' : (setting.source
      (front.ordinary ++ (.visible entry, gap) :: back.ordinary)).length < 2 ^ 63) :
    ∃ node node',
      (setting.node (front ++ (.visible entry, gap) :: back)).valueAt? front.length = some node ∧
      (setting.node (front.ordinary ++ (.visible entry, gap) :: back.ordinary)).valueAt?
        front.length = some node' ∧
      ((node = node'.moveLines fun line =>
          line - setting.lineBehind front.ordinary + setting.lineBehind front) ↔
        front.InStep ∨ node.spans [] = [] ∧ node'.spans [] = []) ∧
      ∀ own : Entry c, own.keyed = entry → own.OfScalars →
        node' = (own.marked (setting.lineBehind front.ordinary)).2 ∧
          (front.InStep → node = (own.marked (setting.lineBehind front)).2) := by
  have alike : back.ordinary = [] ↔ back = [] := List.map_eq_nil_iff
  have plainly : front.ordinary.InStep :=
    Parts.inStep_of_allVisible (Parts.allVisible_ordinary front)
  have moved : setting.ownNode front back entry gap =
      (setting.ownNode front.ordinary back.ordinary entry gap).moveLines fun line =>
        line - setting.lineBehind front.ordinary + setting.lineBehind front :=
    setting.ownNode_move alike small'
  have length : front.ordinary.length = front.length := List.length_map _
  have found := setting.valueAt?_node front back (.visible entry) gap
  refine ⟨_, setting.ownNode front.ordinary back.ordinary entry gap, found, ?_, ?_, ?_⟩
  · rw [← length]
    exact setting.valueAt?_of_inStep plainly
  · rw [← moved, setting.placed_eq_ownNode_iff small found]
    have noLines : (setting.ownNode front back entry gap).spans [] = [] ↔
        (setting.ownNode front.ordinary back.ordinary entry gap).spans [] = [] :=
      ⟨setting.spans_ownNode_of_move alike.symm small, setting.spans_ownNode_of_move alike small'⟩
    rw [noLines]
  · rintro own rfl scalars
    refine ⟨setting.ownNode_of_scalars own scalars, fun inStep => ?_⟩
    rw [← setting.ownNode_of_scalars own scalars]
    exact (setting.placed_eq_ownNode_iff small found).mpr (Or.inl inStep)

/-- A mapping that is a whole document. -/
def whole (c : Nat) : Setting c where
  before := []
  lead := spaces c
  rest := []
  least := 0
  next := 0
  isLead := .spaces c
  length_lead := List.length_replicate
  ends := by
    intro line member
    cases member
  least_le := Nat.zero_le c
  next_le := Nat.zero_le _
  deep := by
    intro line member
    cases member
  noKey := rfl

theorem node_whole (parts : Parts c) :
    (whole c).node parts = (Value.map parts.values).node ((whole c).source parts) := rfl

end Setting

/-- A key with a number. -/
def numberEntry : Entry 0 :=
  .leaf ⟨.plain ⟨"x".toList, by simp, by decide, by decide, by decide⟩, .str "x", rfl⟩
    (.spaced "1".toList) (.int 1) .empty

/-- A key with a mapping. -/
def nestedEntry : Entry 0 :=
  .mapping ⟨.plain ⟨"env".toList, by simp, by decide, by decide, by decide⟩, .str "env", rfl⟩ .empty
    KeyTail.isInline_empty .empty 2 (by decide)
    (.one (.leaf
      ⟨.plain ⟨"mode".toList, by simp, by decide, by decide, by decide⟩, .str "mode", rfl⟩
      (.spaced "1".toList) (.int 1) .empty))

/-- The number with its key behind a question mark. -/
def hiddenNumber : Parts 0 :=
  [(.hidden numberEntry.keyed " x".toList [": 1".toList] (fun _ _ _ => Nat.zero_le _), .empty)]

theorem Setting.sibling_kept_iff_inStep_nested :
    let parts := hiddenNumber ++ [(.visible nestedEntry.keyed, .empty)]
    let plain := hiddenNumber.ordinary ++ [(.visible nestedEntry.keyed, .empty)]
    let text := "? x\n: 1\nenv:\n  mode: 1\n"
    Text.lines text.toList = (whole 0).source parts ∧
      Value.ofText? text.toList = some (.map parts.values) ∧
      ((whole 0).source parts).length < 2 ^ 63 ∧ ((whole 0).source plain).length < 2 ^ 63 ∧
      ∃ node node',
        ((Value.map parts.values).node ((whole 0).source parts)).valueAt? 1 = some node ∧
        ((Value.map plain.values).node ((whole 0).source plain)).valueAt? 1 = some node' ∧
        node'.spans [] = [⟨[], 3, 3⟩] ∧ node ≠ node'.moveLines fun line => line - 1 + 2 := by
  intro parts plain text
  have small : ((whole 0).source parts).length < 2 ^ 63 := by decide
  have small' : ((whole 0).source plain).length < 2 ^ 63 := by decide
  obtain ⟨node, node', isNode, isNode', kept, exactly⟩ :=
    (whole 0).sibling_kept_iff_inStep hiddenNumber [] nestedEntry.keyed .empty small small'
  rw [node_whole] at isNode isNode'
  have spans : node'.spans [] = [⟨[], 3, 3⟩] := by
    rw [(exactly nestedEntry rfl rfl).1]
    decide +kernel
  refine ⟨by decide +kernel, by cbv, small, small', node, node', isNode, isNode', spans, ?_⟩
  intro same
  rcases kept.mp same with inStep | ⟨_, noSpans⟩
  · exact absurd inStep (by decide +kernel)
  · rw [spans] at noSpans
    cases noSpans

/-- Behind a key with a question mark a mapping in a value is not located, and with a plain key
    there it is. -/
theorem spans_of_hidden_sibling :
    (ParsedFile.ofYaml? "? x\n: 1\nb:\n  c: 1\n").map (·.document.spans []) =
        some [⟨[], 3, 4⟩] ∧
      (ParsedFile.ofYaml? "x: 1\nb:\n  c: 1\n").map (·.document.spans []) =
        some [⟨[], 1, 3⟩, ⟨[1], 3, 3⟩] :=
  ⟨by decide +kernel, by decide +kernel⟩

end Layout

end Yaml

end ConfigScan
