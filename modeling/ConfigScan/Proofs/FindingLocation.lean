/-
Module: ConfigScan.Proofs.FindingLocation
Purpose: A finding about any part of a YAML document points at lines of the file.
Main exports: Yaml.Value.lineRange?_of_within_node, Finding.PointsInto,
  FindingContext.build?_inside
-/
import ConfigScan.Family.Yaml
import ConfigScan.Finding
import ConfigScan.Proofs.Document.Snippet
import ConfigScan.Proofs.Yaml.MarkingPairs

namespace ConfigScan

namespace Yaml.Value

theorem markedUpTo_of_within_node {value : Value} {lines : List (List Char)}
    (small : lines.length < 2 ^ 63) {entries : Mapping}
    (within : Node.Within (.map entries) (value.node lines)) : entries.MarkedUpTo lines.length :=
  markedUpTo_of_within_mark (Outline.wellFormed_ofLines lines)
    (fun _ member => Outline.index_lt_length member) small (Nat.zero_le _) true value within

/-- The range of lines that a node of a document gives is a range of lines of the source: that of
    one mapping, or from the start of the first to the end of the last mapping of a sequence. -/
theorem lineRange?_of_within_node {value : Value} {lines : List (List Char)}
    (small : lines.length < 2 ^ 63) {node : Node} (within : Node.Within node (value.node lines))
    {first last : Nat} (range : node.lineRange? = some (first, last)) :
    1 ≤ first ∧ first ≤ last ∧ last ≤ lines.length := by
  have between := node_between value small
  obtain ⟨place, inDocument⟩ := Node.spans_infix_of_within within []
  cases node with
  | map entries =>
      have member := inDocument.subset (Node.mem_spans_of_lineRange? range place)
      obtain ⟨lower, order, upper⟩ := between.bounds _ member
      exact ⟨lower, order, upper⟩
  | seq items =>
      obtain ⟨firstEntries, lastEntries, head, tail, start, stop⟩ := Node.lineRange?_seq range
      obtain ⟨firstStop, firstRange⟩ :=
        (markedUpTo_of_within_node small (.trans (.item (List.mem_of_mem_head? head) .here) within)
          ).lineRange?_of_startLine? small start
      obtain ⟨lastStart, lastRange⟩ :=
        (markedUpTo_of_within_node small (.trans (.item (List.mem_of_getLast? tail) .here) within)
          ).lineRange?_of_endLine? small stop
      have order := Node.first_le_last_of_items
        (fun span member => (between.bounds span (inDocument.subset member)).2.1)
        (between.ordered.sublist inDocument.sublist) head tail firstRange lastRange
      obtain ⟨_, firstInside⟩ := Node.itemSpans_infix place (List.mem_of_mem_head? head) 0
      obtain ⟨_, lastInside⟩ := Node.itemSpans_infix place (List.mem_of_getLast? tail) 0
      have lower := (between.bounds _ (inDocument.subset
        (firstInside.subset (Node.mem_spans_of_lineRange? firstRange _)))).1
      have upper := (between.bounds _ (inDocument.subset
        (lastInside.subset (Node.mem_spans_of_lineRange? lastRange _)))).2.2
      exact ⟨lower, order, upper⟩
  | _ => cases range

end Yaml.Value

/-- A parsed text has the document of its value and its lines. -/
theorem ParsedFile.ofYaml?_eq_some {text : String} {file : ParsedFile}
    (parsed : ParsedFile.ofYaml? text = some file) :
    ∃ value, Yaml.Value.ofText? text.toList = some value ∧
      file.document = value.node (Text.lines text.toList) ∧ file.lines = RawLine.ofText text := by
  simp only [ParsedFile.ofYaml?, bind, Option.bind_eq_some_iff] at parsed
  obtain ⟨value, read, built⟩ := parsed
  split at built
  · cases built
  · cases built
    exact ⟨value, read, rfl, rfl⟩

/-- A finding has no location in a source, or its lines are lines of the source, and its code block
    is a run of these with all lines of the location among them. -/
def Finding.PointsInto (finding : Finding) (lines : List RawLine) : Prop :=
  finding.lineRange = (0, 1) ∨
    ∃ first last, finding.lineRange = (first, last + 1) ∧
      1 ≤ first ∧ first ≤ last ∧ last ≤ lines.length ∧
      finding.codeBlock ≠ [] ∧ finding.codeBlock <:+: lines ∧
      ∀ n, first ≤ n → n ≤ last → ∃ line ∈ finding.codeBlock, line.number = n

namespace FindingContext

variable {σ : Type}

/-- A check with a name always gives a finding, located by its configuration. -/
theorem build?_of_named (context : FindingContext σ) (path : Path) (key : String)
    {result : RawResult} {check : Check} (hasCheck : result.check = some check)
    (named : check.id ≠ "") (lines : List RawLine) :
    ∃ finding, context.build? path key result lines = some finding ∧
      finding.lineRange = ((context.location result).1, (context.location result).2 + 1) ∧
      finding.codeBlock =
        RawLine.snippet lines (context.location result).1 (context.location result).2 := by
  unfold build?
  rw [hasCheck]
  simp only [if_neg named]
  exact ⟨_, rfl, rfl, rfl⟩

/-- A check with a name that looked at any node of a document gives a finding, and that points
    inside its file. A text in memory has fewer than `2 ^ 63` lines. -/
theorem build?_inside (context : FindingContext σ)
    (byMarkers : context.family.lineRange = Node.lineRange?) {text : String} {file : ParsedFile}
    (parsed : ParsedFile.ofYaml? text = some file)
    (small : (RawLine.ofText text).length < 2 ^ 63) {node : Node}
    (within : Node.Within node file.document) (path : Path) (key : String) {result : RawResult}
    {check : Check} (hasCheck : result.check = some check) (named : check.id ≠ "")
    (configured : result.configuration = some node) :
    ∃ finding, context.build? path key result (RawLine.ofText text) = some finding ∧
      finding.PointsInto (RawLine.ofText text) := by
  obtain ⟨finding, built, lineRange, codeBlock⟩ :=
    context.build?_of_named path key hasCheck named (RawLine.ofText text)
  refine ⟨finding, built, ?_⟩
  obtain ⟨value, _, documentEq, _⟩ := ParsedFile.ofYaml?_eq_some parsed
  rw [documentEq] at within
  have location : context.location result = (node.lineRange?).getD (0, 0) := by
    rw [FindingContext.location, configured, byMarkers]
    rfl
  rw [location] at lineRange codeBlock
  cases range : node.lineRange? with
  | none =>
      rw [range] at lineRange
      exact Or.inl lineRange
  | some pair =>
      obtain ⟨first, last⟩ := pair
      rw [range] at lineRange codeBlock
      simp only [Option.getD_some] at lineRange codeBlock
      have length := RawLine.length_ofText text
      obtain ⟨lower, order, upper⟩ :=
        Yaml.Value.lineRange?_of_within_node (length ▸ small) within range
      have covered : ∀ n, first ≤ n → n ≤ last →
          ∃ line ∈ finding.codeBlock, line.number = n := by
        intro n first_le le_last
        rw [codeBlock]
        exact RawLine.exists_mem_snippet (by omega) first_le le_last (by omega)
      obtain ⟨line, member, _⟩ := covered first (Nat.le_refl _) order
      refine Or.inr ⟨first, last, lineRange, lower, order, by omega,
        List.ne_nil_of_mem member, ?_, covered⟩
      rw [codeBlock]
      exact RawLine.snippet_infix _ _ _

/-- A finding about the whole of a list of two mappings is located at all lines of the text: at
    the first one, and at the line in front of line 4. -/
theorem build?_inside_list :
    let context : FindingContext Unit :=
      { family :=
          { checkType := .yaml
            registry :=
              { initial := ()
                load := fun state _ => .ok state
                scan := fun _ _ _ _ _ => [] }
            parseFile := fun _ => none }
        currentDir := ⟨"/"⟩
        root := none
        display := .scanRoot
        pipeline := none }
    let text := "- a: 1\n- b:\n    c: 2\n"
    ∃ file, ParsedFile.ofYaml? text = some file ∧ context.family.lineRange = Node.lineRange? ∧
      (RawLine.ofText text).length < 2 ^ 63 ∧ Node.Within file.document file.document ∧
      ∃ finding,
        context.build? ⟨"/a.yml"⟩ "key"
            { check := some { id := "X", name := "x" }
              configuration := some file.document
              outcome := .failed } (RawLine.ofText text) = some finding ∧
          finding.PointsInto (RawLine.ofText text) ∧ finding.lineRange = (1, 4) ∧
          finding.codeBlock = [⟨1, "- a: 1"⟩, ⟨2, "- b:"⟩, ⟨3, "    c: 2"⟩] := by
  intro context text
  obtain ⟨file, parsed⟩ : ∃ file, ParsedFile.ofYaml? text = some file :=
    Option.isSome_iff_exists.mp (by decide +kernel)
  have small : (RawLine.ofText text).length < 2 ^ 63 := by decide +kernel
  let result : RawResult :=
    { check := some { id := "X", name := "x" }
      configuration := some file.document
      outcome := .failed }
  have hasCheck : result.check = some { id := "X", name := "x" } := rfl
  obtain ⟨finding, built, points⟩ :=
    build?_inside context rfl parsed small .here ⟨"/a.yml"⟩ "key" hasCheck (by decide) rfl
  have shown : ((ParsedFile.ofYaml? text).bind fun file =>
      (context.build? ⟨"/a.yml"⟩ "key"
        { check := some { id := "X", name := "x" }
          configuration := some file.document
          outcome := .failed } (RawLine.ofText text)).map fun finding =>
        (finding.lineRange, finding.codeBlock)) =
      some ((1, 4), [⟨1, "- a: 1"⟩, ⟨2, "- b:"⟩, ⟨3, "    c: 2"⟩]) := by decide +kernel
  rw [parsed, Option.bind_some, built, Option.map_some, Option.some.injEq, Prod.mk.injEq] at shown
  exact ⟨file, parsed, rfl, small, .here, finding, built, points, shown⟩

end FindingContext

end ConfigScan
