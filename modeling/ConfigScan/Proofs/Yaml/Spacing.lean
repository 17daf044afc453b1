/-
Module: ConfigScan.Proofs.Yaml.Spacing
Purpose: Blank lines and comments only shift the lines of a document: whatever stands between the
  lines with content, the same mappings carry the same lines with content.
Main exports: Respaced, respaced_iff, contentPlace, SameLine, sameLine_contentPlace,
  Value.node_respaced
-/
import Mathlib.Data.List.Count
import Mathlib.Data.List.GetD
import ConfigScan.Proofs.Yaml.MappingLines
import ConfigScan.Proofs.Yaml.MarkingPairs
import ConfigScan.Proofs.Yaml.Moving

namespace ConfigScan.Yaml

/-- Lines in which lines without content, blank ones and comments, have been put in or left out. -/
inductive Respaced : List (List Char) → List (List Char) → Prop where
  | nil : Respaced [] []
  | keep (line : List Char) {lines lines' : List (List Char)} (rest : Respaced lines lines') :
      Respaced (line :: lines) (line :: lines')
  | insert {line : List Char} (blank : isContent line = false) {lines lines' : List (List Char)}
      (rest : Respaced lines lines') : Respaced lines (line :: lines')
  | delete {line : List Char} (blank : isContent line = false) {lines lines' : List (List Char)}
      (rest : Respaced lines lines') : Respaced (line :: lines) lines'

theorem Respaced.filter_eq {lines lines' : List (List Char)} (respaced : Respaced lines lines') :
    lines.filter isContent = lines'.filter isContent := by
  induction respaced with
  | nil => rfl
  | keep line _ inductionHypothesis => rw [List.filter_cons, List.filter_cons, inductionHypothesis]
  | insert blank _ inductionHypothesis =>
      rw [List.filter_cons_of_neg (by simp [blank]), inductionHypothesis]
  | delete blank _ inductionHypothesis =>
      rw [List.filter_cons_of_neg (by simp [blank]), inductionHypothesis]

/-- Lines without content can be put in front one by one. -/
theorem Respaced.of_filter_eq_nil {lines : List (List Char)} (blank : lines.filter isContent = []) :
    Respaced [] lines := by
  induction lines with
  | nil => exact .nil
  | cons line rest inductionHypothesis =>
      rw [List.filter_eq_nil_iff] at blank
      refine .insert (by simpa using blank line List.mem_cons_self) (inductionHypothesis ?_)
      exact List.filter_eq_nil_iff.mpr fun other member =>
        blank other (List.mem_cons_of_mem _ member)

/-- Lines that differ in blank lines and comments only are those with the same lines with
    content. -/
theorem respaced_iff {lines lines' : List (List Char)} :
    Respaced lines lines' ↔ lines.filter isContent = lines'.filter isContent := by
  refine ⟨Respaced.filter_eq, ?_⟩
  intro same
  induction lines generalizing lines' with
  | nil => exact .of_filter_eq_nil same.symm
  | cons line rest inductionHypothesis =>
      cases content : isContent line with
      | false =>
          rw [List.filter_cons_of_neg (by simp [content])] at same
          exact .delete content (inductionHypothesis same)
      | true =>
          rw [List.filter_cons_of_pos content] at same
          induction lines' with
          | nil => cases same
          | cons line' rest' innerHypothesis =>
              cases content' : isContent line' with
              | false =>
                  rw [List.filter_cons_of_neg (by simp [content'])] at same
                  exact .insert content' (innerHypothesis same)
              | true =>
                  rw [List.filter_cons_of_pos content'] at same
                  obtain ⟨rfl, sameRest⟩ := List.cons.inj same
                  exact .keep line (inductionHypothesis sameRest)

/-! ### Where a line with content goes -/

/-- The number of lines in front of the line with content of `lines'` that has as many lines with
    content in front of it as the line of `lines` with the given index. -/
def contentPlace (lines lines' : List (List Char)) (index : Nat) : Nat :=
  (lines'.findIdxs isContent).getD ((lines.take index).countP isContent) 0

/-- A line with content of some lines is a line of others: it has the same text, and the same lines
    with content stand in front of it. -/
structure SameLine (lines lines' : List (List Char)) (index index' : Nat) : Prop where
  text : ∃ line, isContent line = true ∧ lines[index]? = some line ∧ lines'[index']? = some line
  inFront : (lines.take index).filter isContent = (lines'.take index').filter isContent

/-- In front of the member with the number `k` of those that a filter keeps, it keeps `k`. -/
theorem filter_take_findIdxs {α : Type} (p : α → Bool) {list : List α} {start k : Nat}
    (lt : k < (list.findIdxs p start).length) :
    (list.take ((list.findIdxs p start)[k] - start)).filter p = (list.filter p).take k := by
  induction list generalizing start k with
  | nil => simp
  | cons head rest inductionHypothesis =>
      have further : ∀ {k : Nat} (lt : k < (rest.findIdxs p (start + 1)).length),
          (rest.findIdxs p (start + 1))[k] - start =
            (rest.findIdxs p (start + 1))[k] - (start + 1) + 1 := by
        intro k lt
        have behind := List.le_getElem_findIdxs lt
        omega
      cases kept : p head with
      | true =>
          cases k with
          | zero => simp [kept]
          | succ k =>
              simp only [List.findIdxs_cons, kept, if_true, List.length_cons,
                Nat.add_lt_add_iff_right] at lt
              simp only [List.findIdxs_cons, kept, if_true, List.getElem_cons_succ, further lt,
                List.take_succ_cons, List.filter_cons_of_pos, inductionHypothesis lt]
      | false =>
          simp only [List.findIdxs_cons, kept, Bool.false_eq_true, if_false] at lt
          simp only [List.findIdxs_cons, kept, Bool.false_eq_true, if_false, further lt,
            List.take_succ_cons, not_false_eq_true, List.filter_cons_of_neg, inductionHypothesis lt]

theorem contentPlace_lt {lines lines' : List (List Char)} {bound : Nat} (pos : 0 < bound)
    (le : lines'.length ≤ bound) (index : Nat) : contentPlace lines lines' index < bound := by
  unfold contentPlace
  rw [List.getD_eq_getElem?_getD]
  cases found : (lines'.findIdxs isContent)[(lines.take index).countP isContent]? with
  | none => exact pos
  | some place =>
      obtain ⟨inside, _⟩ := List.mem_findIdxs_iff_exists_getElem_pos.mp (List.mem_of_getElem? found)
      exact Nat.lt_of_lt_of_le inside le

/-- The place of the line with content that has the number `k`. -/
theorem contentPlace_findIdxs (lines lines' : List (List Char)) {k : Nat}
    (lt : k < (lines.findIdxs isContent).length) :
    contentPlace lines lines' (lines.findIdxs isContent)[k] =
      (lines'.findIdxs isContent).getD k 0 := by
  have before := congrArg List.length (filter_take_findIdxs isContent lt)
  rw [List.length_findIdxs] at lt
  rw [Nat.sub_zero, ← List.countP_eq_length_filter, List.length_take,
    ← List.countP_eq_length_filter, Nat.min_eq_left (Nat.le_of_lt lt)] at before
  rw [contentPlace, before]

/-- The lines with content have the same numbers in both lists. -/
theorem map_contentPlace_findIdxs {lines lines' : List (List Char)}
    (respaced : Respaced lines lines') :
    (lines.findIdxs isContent).map (contentPlace lines lines') = lines'.findIdxs isContent := by
  have lengths : (lines.findIdxs isContent).length = (lines'.findIdxs isContent).length := by
    simp only [List.length_findIdxs, List.countP_eq_length_filter, respaced.filter_eq]
  refine List.ext_getElem (by simpa using lengths) ?_
  intro k lt lt'
  rw [List.getElem_map, contentPlace_findIdxs lines lines' (by simpa using lt),
    List.getD_eq_getElem _ _ lt']

/-- A line with content goes where the same line with content is. -/
theorem sameLine_contentPlace {lines lines' : List (List Char)} (respaced : Respaced lines lines')
    {index : Nat} {line : List Char} (found : lines[index]? = some line)
    (content : isContent line = true) :
    SameLine lines lines' index (contentPlace lines lines' index) := by
  have same := respaced.filter_eq
  obtain ⟨inside, atIndex⟩ := List.getElem?_eq_some_iff.mp found
  have listed : index ∈ lines.findIdxs isContent :=
    List.mem_findIdxs_iff_exists_getElem_pos.mpr ⟨inside, by rwa [atIndex]⟩
  obtain ⟨k, lt, rfl⟩ := List.mem_iff_getElem.mp listed
  have lt' : k < (lines'.findIdxs isContent).length := by
    rw [← map_contentPlace_findIdxs respaced, List.length_map]
    exact lt
  rw [contentPlace_findIdxs lines lines' lt, List.getD_eq_getElem _ _ lt']
  have kept : k < (lines.filter isContent).length := by
    rwa [← List.countP_eq_length_filter, ← List.length_findIdxs]
  have kept' : k < (lines'.filter isContent).length := same ▸ kept
  refine ⟨⟨line, content, found, ?_⟩, ?_⟩
  · rw [List.getElem?_eq_some_iff]
    refine ⟨by grind, ?_⟩
    rw [← List.getElem_filter_eq_getElem_getElem_findIdxs kept', ← atIndex,
      ← List.getElem_filter_eq_getElem_getElem_findIdxs kept]
    simp only [same]
  · have front := filter_take_findIdxs isContent lt
    have front' := filter_take_findIdxs isContent lt'
    rw [Nat.sub_zero] at front front'
    rw [front, front', same]

/-! ### The outline of respaced lines -/

/-- An outline pairs the indices of the lines with content with these lines. -/
theorem ofLinesFrom_eq_zipWith (index : Nat) (lines : List (List Char)) :
    Outline.ofLinesFrom index lines =
      List.zipWith OutlineLine.ofLine (lines.findIdxs isContent index)
        (lines.filter isContent) := by
  induction lines generalizing index with
  | nil => rfl
  | cons line rest inductionHypothesis =>
      cases content : isContent line with
      | true => simp [Outline.ofLinesFrom_cons_content content, inductionHypothesis, content]
      | false => simp [Outline.ofLinesFrom_cons_blank content, inductionHypothesis, content]

/-- The outline of respaced lines has the same lines, each at its new place. -/
theorem ofLines_respaced {lines lines' : List (List Char)} (respaced : Respaced lines lines') :
    Outline.ofLines lines' = (Outline.ofLines lines).move (contentPlace lines lines') := by
  rw [Outline.ofLines, Outline.ofLines, ofLinesFrom_eq_zipWith, ofLinesFrom_eq_zipWith,
    Outline.move, List.map_zipWith, ← respaced.filter_eq, ← map_contentPlace_findIdxs respaced,
    List.zipWith_map_left]
  rfl

namespace Value

/-- Blank lines and comments only shift the lines of a document. With such lines put in or left out
    it is the same document, but the lines that its mappings carry have their new numbers: the same
    mappings carry lines, and each number of a line is mapped to that of the same line with content.
    A list of lines in memory has fewer than `2 ^ 63` members. -/
theorem node_respaced (value : Value) {lines lines' : List (List Char)}
    (respaced : Respaced lines lines') (small : lines.length < 2 ^ 63)
    (small' : lines'.length < 2 ^ 63) :
    value.node lines' = (value.node lines).moveLines (contentPlace lines lines') ∧
      (value.node lines').spans [] =
        ((value.node lines).spans []).map (Span.move (contentPlace lines lines')) ∧
      ∀ span ∈ (value.node lines).spans [], ∀ number, number = span.first ∨ number = span.last →
        SameLine lines lines' (number - 1) (contentPlace lines lines' (number - 1)) := by
  have wellFormed := Outline.wellFormed_ofLines lines
  have beyond : ∀ line ∈ Outline.ofLines lines, line.index < lines.length :=
    fun _ member => Outline.index_lt_length member
  have moved : value.node lines' = (value.node lines).moveLines (contentPlace lines lines') := by
    have abreast : Outline.Abreast (contentPlace lines lines') (Outline.ofLines lines)
        (Outline.ofLines lines') [] [] (Outline.ofLines lines) 0 0 := by
      constructor
      · rw [Outline.startingAt_ofLines, List.drop_zero, List.append_nil]
        rfl
      · rw [Outline.startingAt_ofLines, List.drop_zero, List.append_nil]
        exact ofLines_respaced respaced
    have indexSmall : ∀ line ∈ Outline.ofLines lines, line.index + 1 < 2 ^ 63 :=
      fun line member => Nat.lt_of_le_of_lt (beyond line member) small
    exact (mark_move wellFormed (Outline.wellFormed_ofLines lines') indexSmall (.nil 0) (.nil 0)
      true abreast value).1
  refine ⟨moved, ?_, ?_⟩
  · rw [moved]
    refine Node.spans_moveLines small (fun index => ?_) [] _ fun entries within =>
      markedUpTo_of_within_mark wellFormed beyond small (Nat.zero_le _) true value within
    have place_lt : contentPlace lines lines' index < max 1 lines'.length :=
      contentPlace_lt (Nat.lt_of_lt_of_le Nat.one_pos (Nat.le_max_left 1 lines'.length))
        (Nat.le_max_right 1 lines'.length) index
    omega
  · intro span member number isNumber
    obtain ⟨_, ⟨head, headMember, headIndex, _⟩, foot, footMember, footIndex⟩ :=
      (mark_searched wellFormed (Outline.dashed_ofLines lines) beyond small 0 (Nat.zero_le _) true
        [] value).holds span member
    obtain ⟨line, onLine, index⟩ :
        ∃ line ∈ Outline.ofLines lines, line.index + 1 = number := by
      rcases isNumber with first | last
      · exact ⟨head, headMember, by rw [first, headIndex]⟩
      · exact ⟨foot, footMember, by rw [last, footIndex]⟩
    obtain ⟨text, found, content, _⟩ := Outline.mem_ofLines_iff.mp onLine
    rw [← index, Nat.add_sub_cancel]
    exact sameLine_contentPlace respaced found content

/-- A mapping in a mapping, with a comment in front, a blank line inside and a comment behind it. -/
theorem node_respaced_comments :
    let value : Value := .map [(.str "a", .map [(.str "b", .null)]), (.str "c", .null)]
    let lines := ["a:".toList, "  b:".toList, "c:".toList]
    let lines' := ["# top".toList, "a:".toList, [], "  b:".toList, "  # end".toList, "c:".toList]
    Respaced lines lines' ∧ (value.node lines).spans [] = [⟨[], 1, 3⟩, ⟨[0], 2, 2⟩] ∧
      (value.node lines').spans [] = [⟨[], 2, 6⟩, ⟨[0], 4, 4⟩] ∧
      value.node lines' = (value.node lines).moveLines (contentPlace lines lines') := by
  intro value lines lines'
  have respaced : Respaced lines lines' := respaced_iff.mpr (by decide +kernel)
  exact ⟨respaced, by decide +kernel, by decide +kernel,
    (node_respaced value respaced (by decide) (by decide)).1⟩

end Value

end ConfigScan.Yaml
