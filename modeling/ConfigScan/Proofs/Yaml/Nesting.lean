/-
Module: ConfigScan.Proofs.Yaml.Nesting
Purpose: A mapping inside of another one starts behind it, and it ends inside of it exactly when no
  line up to its own first one leaves the other. The first key of a mapping is searched by the
  column where its line starts behind dashes, while a mapping ends by its indentation, so the two do
  not always agree.
Main exports: IndentedFrom, Value.nested_lines_iff, ParsedFile.nested_lines_iff_indented,
  ParsedFile.nested_lines_apart_iff
-/
import ConfigScan.Proofs.FindingLocation
import ConfigScan.Proofs.Yaml.MappingLines
import Mathlib

namespace ConfigScan

namespace Yaml

/-- The lines with content behind the line number `first`, up to the line number `stop` and with it,
    are indented as deep as the line number `first` starts behind its spaces and item dashes. -/
def IndentedFrom (lines : List (List Char)) (first stop : Nat) : Prop :=
  ∃ head, lines[first - 1]? = some head ∧
    ∀ line ∈ (lines.take stop).drop first, isContent line = true →
      (stripDashes head).1 ≤ indent line

/-- Behind a line of an outline of lines, the outline is indented as the lines are. -/
theorem indentedFrom_iff {lines : List (List Char)} {first stop : Nat} :
    (∃ head ∈ Outline.ofLines lines, head.index + 1 = first ∧
        (Outline.ofLines lines).Indented head.column first stop) ↔
      (∃ head ∈ Outline.ofLines lines, head.index + 1 = first) ∧ IndentedFrom lines first stop := by
  have between : ∀ {line : List Char}, line ∈ (lines.take stop).drop first ↔
      ∃ index, first ≤ index ∧ index < stop ∧ lines[index]? = some line := by
    intro line
    rw [List.mem_iff_getElem?]
    constructor
    · rintro ⟨place, found⟩
      rw [List.getElem?_drop, List.getElem?_take] at found
      split at found
      · next upper => exact ⟨first + place, by omega, upper, found⟩
      · cases found
    · rintro ⟨index, lower, upper, found⟩
      refine ⟨index - first, ?_⟩
      rw [List.getElem?_drop, Nat.add_sub_cancel' lower, List.getElem?_take_of_lt upper, found]
  constructor
  · rintro ⟨head, member, index, indented⟩
    obtain ⟨text, found, _, equality⟩ := Outline.mem_ofLines_iff.mp member
    refine ⟨⟨head, member, index⟩, text, by rwa [← index, Nat.add_sub_cancel], ?_⟩
    intro line isLine content
    obtain ⟨place, lower, upper, foundLine⟩ := between.mp isLine
    have inOutline : OutlineLine.ofLine place line ∈ Outline.ofLines lines :=
      Outline.mem_ofLines_iff.mpr ⟨line, foundLine, content, rfl⟩
    have deep := indented _ inOutline lower upper
    rwa [equality] at deep
  · rintro ⟨⟨head, member, index⟩, text, foundText, indented⟩
    obtain ⟨headText, found, _, equality⟩ := Outline.mem_ofLines_iff.mp member
    rw [← index, Nat.add_sub_cancel, found] at foundText
    cases foundText
    refine ⟨head, member, index, ?_⟩
    intro line inOutline lower upper
    obtain ⟨lineText, foundLine, content, lineEquality⟩ := Outline.mem_ofLines_iff.mp inOutline
    have deep := indented lineText (between.mpr ⟨line.index, lower, upper, foundLine⟩) content
    rw [equality, lineEquality]
    exact deep

/-- Of two mappings with lines, one inside of the other, the inner one starts behind the outer one,
    and it ends inside of that exactly when all lines up to its own first one are indented as deep
    as the keys of the outer one. The value and the lines need not belong together. -/
theorem Value.nested_lines_iff (value : Value) {lines : List (List Char)}
    (small : lines.length < 2 ^ 63) :
    ((value.node lines).spans []).Pairwise fun outer inner =>
      outer.address <+: inner.address →
        outer.first < inner.first ∧
          (inner.last ≤ outer.last ↔ IndentedFrom lines outer.first inner.first) := by
  have beyond : ∀ line ∈ Outline.ofLines lines, line.index < lines.length :=
    fun _ member => Outline.index_lt_length member
  have searched := mark_searched (Outline.wellFormed_ofLines lines) (Outline.dashed_ofLines lines)
    beyond small 0 (Nat.zero_le _) true [] value
  have between := node_between value small
  refine (between.ordered.and searched.nests).imp_of_mem ?_
  intro outer inner outerMember _ both below
  obtain ⟨head, headMember, headIndex, _⟩ := (searched.holds outer outerMember).head
  refine ⟨both.1.1, (both.2 below).trans (indentedFrom_iff.trans ?_)⟩
  exact and_iff_right ⟨head, headMember, headIndex⟩

/-- A mapping inside of another one starts behind the end of that exactly when a line up to its own
    first one is indented less than the keys of the outer one. -/
theorem Value.nested_lines_apart_iff (value : Value) {lines : List (List Char)}
    (small : lines.length < 2 ^ 63) :
    ((value.node lines).spans []).Pairwise fun outer inner =>
      outer.address <+: inner.address →
        (outer.last < inner.first ↔ ¬ IndentedFrom lines outer.first inner.first) := by
  have beyond : ∀ line ∈ Outline.ofLines lines, line.index < lines.length :=
    fun _ member => Outline.index_lt_length member
  have wellFormed := Outline.wellFormed_ofLines lines
  have searched := mark_searched wellFormed (Outline.dashed_ofLines lines) beyond small 0
    (Nat.zero_le _) true [] value
  refine (value.nested_lines_iff small).imp_of_mem ?_
  intro outer inner outerMember innerMember nested below
  obtain ⟨_, ends⟩ := nested below
  obtain ⟨head, headMember, headIndex, _, indented⟩ := (searched.holds outer outerMember).head
  have order := (searched.holds inner innerMember).order
  rw [← Nat.not_le]
  apply not_congr
  constructor
  · intro within
    have shallow : (Outline.ofLines lines).Indented head.column outer.first inner.first :=
      fun line member lower upper => indented line member lower (Nat.lt_of_lt_of_le upper within)
    exact (indentedFrom_iff.mp ⟨head, headMember, headIndex, shallow⟩).2
  · intro shallow
    exact Nat.le_trans order (ends.mpr shallow)

end Yaml

/-- A mapping in the value of an entry of another one has its lines behind those of that. -/
theorem Node.spans_of_within_entry {outer inner : Mapping} {key : Key} {value : Node}
    (entry : (key, value) ∈ outer) (within : Node.Within (.map inner) value)
    {first last innerFirst innerLast : Nat} (outerLines : outer.lineRange? = some (first, last))
    (innerLines : inner.lineRange? = some (innerFirst, innerLast)) (place : List Nat) :
    ∃ others address, (Node.map outer).spans place = ⟨place, first, last⟩ :: others ∧
      place <+: address ∧ ⟨address, innerFirst, innerLast⟩ ∈ others := by
  obtain ⟨entryPlace, inEntries⟩ := Node.entrySpans_infix place entry 0
  obtain ⟨address, inValue⟩ := Node.spans_infix_of_within within entryPlace
  have member := (inValue.trans inEntries).subset
    (Node.mem_spans_of_lineRange? innerLines address)
  obtain ⟨index, _, below⟩ := Node.prefix_of_mem_entrySpans place 0 _ member
  refine ⟨Node.entrySpans place 0 outer, address, ?_, ?_, member⟩
  · rw [Node.spans, outerLines]
    rfl
  · exact (List.prefix_append place [index]).trans below

/-- In the document of a text, a mapping inside of another one starts on a later line than that. It
    ends no later than that exactly when all lines with content up to its own first line are
    indented as deep as the first key of the outer one. A text in memory has fewer than `2 ^ 63`
    lines. -/
theorem ParsedFile.nested_lines_iff_indented {text : String} {file : ParsedFile}
    (parsed : ParsedFile.ofYaml? text = some file) (small : file.lines.length < 2 ^ 63)
    {outer inner : Mapping} (held : Node.Within (.map outer) file.document) {key : Key}
    {value : Node} (entry : (key, value) ∈ outer) (within : Node.Within (.map inner) value)
    {first last innerFirst innerLast : Nat} (outerLines : outer.lineRange? = some (first, last))
    (innerLines : inner.lineRange? = some (innerFirst, innerLast)) :
    first < innerFirst ∧
      (innerLast ≤ last ↔
        Yaml.IndentedFrom (Text.lines text.toList) first innerFirst) := by
  obtain ⟨whole, _, documentEq, linesEq⟩ := ParsedFile.ofYaml?_eq_some parsed
  rw [linesEq, RawLine.length_ofText] at small
  rw [documentEq] at held
  obtain ⟨place, inDocument⟩ := Node.spans_infix_of_within held []
  obtain ⟨others, address, spansEq, below, member⟩ :=
    Node.spans_of_within_entry entry within outerLines innerLines place
  have nested := (Yaml.Value.nested_lines_iff whole small).sublist inDocument.sublist
  rw [spansEq] at nested
  exact (List.pairwise_cons.mp nested).1 _ member below

/-- A mapping below the key of another one. -/
theorem ParsedFile.nested_lines_iff_indented_below :
    let text := "a:\n  b: 1\nc: 2\n"
    let inner : Mapping := Mapping.withLines [(.str "b", .int 1)] 2 2
    let outer : Mapping := Mapping.withLines [(.str "a", .map inner), (.str "c", .int 2)] 1 3
    ∃ file, ParsedFile.ofYaml? text = some file ∧ file.lines.length < 2 ^ 63 ∧
      file.document = .map outer ∧ (.str "a", .map inner) ∈ outer ∧
      outer.lineRange? = some (1, 3) ∧ inner.lineRange? = some (2, 2) ∧ 1 < 2 ∧
      (2 ≤ 3 ↔ Yaml.IndentedFrom (Text.lines text.toList) 1 2) := by
  intro text inner outer
  have parsed : ParsedFile.ofYaml? text =
      some { document := .map outer, lines := RawLine.ofText text } := by cbv
  have small : (RawLine.ofText text).length < 2 ^ 63 := by decide +kernel
  have entry : (Key.str "a", Node.map inner) ∈ outer := List.mem_cons_self
  exact ⟨_, parsed, small, rfl, entry, rfl, rfl,
    ParsedFile.nested_lines_iff_indented parsed small .here entry .here rfl rfl⟩

/-- In the document of a text, a mapping inside of another one starts behind the first line of that.
    The lines of the two are apart exactly when a line with content up to the first one of the inner
    mapping is indented less than the first key of the outer one. -/
theorem ParsedFile.nested_lines_apart_iff {text : String} {file : ParsedFile}
    (parsed : ParsedFile.ofYaml? text = some file) (small : file.lines.length < 2 ^ 63)
    {outer inner : Mapping} (held : Node.Within (.map outer) file.document) {key : Key}
    {value : Node} (entry : (key, value) ∈ outer) (within : Node.Within (.map inner) value)
    {first last innerFirst innerLast : Nat} (outerLines : outer.lineRange? = some (first, last))
    (innerLines : inner.lineRange? = some (innerFirst, innerLast)) :
    first < innerFirst ∧ innerFirst ≤ innerLast ∧
      (last < innerFirst ↔ ¬ Yaml.IndentedFrom (Text.lines text.toList) first innerFirst) := by
  obtain ⟨whole, _, documentEq, linesEq⟩ := ParsedFile.ofYaml?_eq_some parsed
  rw [linesEq, RawLine.length_ofText] at small
  rw [documentEq] at held
  obtain ⟨place, inDocument⟩ := Node.spans_infix_of_within held []
  obtain ⟨others, address, spansEq, below, member⟩ :=
    Node.spans_of_within_entry entry within outerLines innerLines place
  rw [spansEq] at inDocument
  have nested := (whole.nested_lines_iff small).sublist inDocument.sublist
  have apart := (whole.nested_lines_apart_iff small).sublist inDocument.sublist
  have inside := inDocument.subset (List.mem_cons_of_mem _ member)
  exact ⟨((List.pairwise_cons.mp nested).1 _ member below).1,
    ((Yaml.Value.node_between whole small).bounds _ inside).2.1,
    (List.pairwise_cons.mp apart).1 _ member below⟩

/-- A flow mapping below its key gets the lines of the next item, which start behind the key's
    column but are indented less, and so does a block mapping with its keys behind question marks.
    Both end behind the mapping that holds them. -/
theorem ParsedFile.nested_lines_beyond_outer :
    (ParsedFile.ofYaml? "- a:\n    \x7bx: 1\x7d\n-   b: 2\n").map (·.document.spans []) =
        some [⟨[0], 1, 2⟩, ⟨[0, 0], 3, 3⟩] ∧
      (ParsedFile.ofYaml? "- a:\n    ? x\n    : 1\n-   b: 2\n").map (·.document.spans []) =
        some [⟨[0], 1, 3⟩, ⟨[0, 0], 4, 4⟩] :=
  ⟨by decide +kernel, by decide +kernel⟩

end ConfigScan
