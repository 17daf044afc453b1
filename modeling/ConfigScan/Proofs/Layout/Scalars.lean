/-
Module: ConfigScan.Proofs.Layout.Scalars
Purpose: A document of scalars in block style gets exactly the lines of its block mappings, whatever
  its columns, spacing and comments, unless a text in it ends in a line like a comment.
Main exports: Layout.Block.undisturbed_of_scalars, Layout.Document.node_of_scalars,
  Layout.Document.spanned_of_scalars_iff
-/
import ConfigScan.Proofs.Document.Spans
import ConfigScan.Proofs.Layout.Exact
import ConfigScan.Proofs.Layout.TextEnd
import ConfigScan.Yaml.Document
import Mathlib

namespace ConfigScan.Yaml.Layout

mutual

/-- No scalar among the values of entries disturbs the search. -/
theorem Entries.undisturbed_of_scalars : ∀ {c : Nat} (entries : Entries c), entries.OfScalars →
    ∀ after : List (List Char), entries.Undisturbed after
  | _, .one entry, scalars, after => entry.undisturbed_of_scalars scalars after
  | _, .cons entry gap rest, scalars, after => by
      obtain ⟨entryScalars, restScalars⟩ := scalars
      constructor
      · exact entry.undisturbed_of_scalars entryScalars (gap.lines ++ (rest.lines ++ after))
      · exact rest.undisturbed_of_scalars restScalars after

/-- No scalar in the value of an entry disturbs the search. -/
theorem Entry.undisturbed_of_scalars : ∀ {c : Nat} (entry : Entry c), entry.OfScalars →
    ∀ after : List (List Char), entry.Undisturbed after
  | _, .leaf _ _ value _, scalar, after => by
      intro _ sought
      rw [Value.seeksKey_of_key? scalar] at sought
      cases sought
  | _, .mapping _ _ _ _ _ _ entries, scalars, after =>
      entries.undisturbed_of_scalars scalars after
  | c, .sequence _ _ _ _ _ _ items, scalars, after =>
      (items.undisturbed_of_scalars scalars (c + 1) after).1

/-- No scalar among items disturbs the search or leaves a key behind. -/
theorem Items.undisturbed_of_scalars : ∀ {s : Nat} (items : Items s), items.OfScalars →
    ∀ (least : Nat) (after : List (List Char)),
      items.Undisturbed least false after ∧ items.waits false = false
  | _, .one item, scalars, least, after => item.undisturbed_of_scalars scalars least after
  | _, .cons item gap rest, scalars, least, after => by
      obtain ⟨itemScalars, restScalars⟩ := scalars
      obtain ⟨undisturbed, noneWaits⟩ :=
        item.undisturbed_of_scalars itemScalars least (gap.lines ++ (rest.lines ++ after))
      obtain ⟨restUndisturbed, restWaits⟩ := rest.undisturbed_of_scalars restScalars least after
      rw [Items.Undisturbed, Items.waits, noneWaits]
      exact ⟨⟨undisturbed, restUndisturbed⟩, restWaits⟩

/-- No scalar in an item disturbs the search or leaves a key behind. -/
theorem Item.undisturbed_of_scalars : ∀ {s : Nat} (item : Item s), item.OfScalars →
    ∀ (least : Nat) (after : List (List Char)),
      item.Undisturbed least false after ∧ item.waits false = false
  | _, .leaf tail value more, scalars, least, after => by
      obtain ⟨scalar, noKey⟩ := scalars
      constructor
      · intro sought
        rw [Value.seeksKey_of_key? scalar] at sought
        cases sought
      · exact noKey
  | _, .beside _ block, scalars, least, after => block.undisturbed_of_scalars scalars least after
  | _, .beneath _ _ _ _ _ block, scalars, least, after =>
      block.undisturbed_of_scalars scalars least after

/-- No scalar in a collection disturbs the search or leaves a key behind. -/
theorem Block.undisturbed_of_scalars : ∀ {c : Nat} (block : Block c), block.OfScalars →
    ∀ (least : Nat) (after : List (List Char)),
      block.Undisturbed least false after ∧ block.waits false = false
  | _, .mapping entries, scalars, _, after =>
      ⟨⟨rfl, entries.undisturbed_of_scalars scalars after⟩, rfl⟩
  | _, .sequence items, scalars, least, after => items.undisturbed_of_scalars scalars least after

end

namespace Document

theorem undisturbed_of_scalars (document : Document) (scalars : document.OfScalars) :
    document.Undisturbed := by
  rw [OfScalars] at scalars
  rw [Undisturbed]
  cases root : document.root with
  | leaf value lines =>
      rw [root] at scalars
      intro sought
      rw [Value.seeksKey_of_key? scalars] at sought
      cases sought
  | block block =>
      rw [root] at scalars
      exact (block.undisturbed_of_scalars scalars 0 document.back).1

/-- Every mapping of a document of scalars in block style gets the line of its first key and the
    last line in its last entry that the loader counts as content. -/
theorem node_of_scalars (document : Document) (scalars : document.OfScalars) :
    document.value.node document.lines = document.marked :=
  document.node_eq (document.undisturbed_of_scalars scalars)

/-- Every mapping of a document of scalars in block style gets the line of its first key and the
    last line of its last entry that is neither blank nor a comment, exactly when no mapping ends in
    a text whose last line begins with a number sign. The same holds of every text with these lines
    that is read as their value. -/
theorem spanned_of_scalars_iff (document : Document) (scalars : document.OfScalars)
    (small : document.lines.length < 2 ^ 63) :
    (document.value.node document.lines = document.spanned ↔ document.EndsVisibly) ∧
      ∀ text : String, Text.lines text.toList = document.lines →
        Value.ofText? text.toList = some document.value → document.value.isNull = false →
        ∃ file, ParsedFile.ofYaml? text = some file ∧ file.lines = RawLine.ofText text ∧
          (file.document = document.spanned ↔ document.EndsVisibly) := by
  have exactly := document.node_of_scalars scalars
  have agrees : document.marked = document.spanned ↔ document.EndsVisibly :=
    document.marked_eq_spanned_iff small
  refine ⟨by rw [exactly, agrees], ?_⟩
  intro text written read notNull
  refine ⟨{ document := document.marked, lines := RawLine.ofText text }, ?_, rfl, agrees⟩
  simp only [ParsedFile.ofYaml?, read, bind, Option.bind_some, notNull, written, exactly]
  rfl

/-- A sequence that stands below its key, a text over two lines that reads like an entry, a quoted
    key, and lines without content between. -/
def steps : Document where
  header := .empty
  start := false
  preface := .empty
  root := .block (.mapping
    (.cons
      (.sequence
        ⟨.plain ⟨"steps".toList, by simp, by decide, by decide, by decide⟩, .str "steps", rfl⟩
        .empty rfl .empty 0 (Nat.le_refl 0)
        (.one (.beside 0 (.mapping
          (.cons
            (.leaf
              ⟨.plain ⟨"run".toList, by simp, by decide, by decide, by decide⟩, .str "run", rfl⟩
              (.spaced "|".toList) (.str "next: fake\n")
              ⟨["    next: fake".toList], by decide⟩)
            .empty
            (.one (.leaf
              ⟨.plain ⟨"name".toList, by simp, by decide, by decide, by decide⟩, .str "name", rfl⟩
              (.spaced "x".toList) (.str "x") .empty)))))))
      ⟨[[], "# note".toList], by decide⟩
      (.one (.leaf ⟨.single "it's".toList 0, .str "it's", rfl⟩ (.spaced "1".toList) (.int 1)
        .empty))))
  trailer := .empty
  stop := true
  appendix := .empty

theorem spanned_of_scalars_iff_steps :
    let text := "steps:\n- run: |\n    next: fake\n  name: x\n\n# note\n'it''s': 1\n...\n"
    steps.OfScalars ∧ steps.lines.length < 2 ^ 63 ∧ Text.lines text.toList = steps.lines ∧
      Value.ofText? text.toList = some steps.value ∧ steps.value.isNull = false ∧
      steps.EndsVisibly ∧ steps.value.node steps.lines = steps.spanned ∧
      (∃ file, ParsedFile.ofYaml? text = some file ∧ file.lines = RawLine.ofText text ∧
        file.document = steps.spanned) ∧
      steps.spanned.spans [] = [⟨[], 1, 7⟩, ⟨[0, 0], 2, 4⟩] := by
  intro text
  have scalars : steps.OfScalars := ⟨⟨rfl, rfl⟩, rfl⟩
  have small : steps.lines.length < 2 ^ 63 := by decide
  have lines : Text.lines text.toList = steps.lines := by decide +kernel
  have read : Value.ofText? text.toList = some steps.value := by cbv
  have visibly : steps.EndsVisibly := ⟨by decide, ⟨by decide, trivial, trivial⟩, trivial⟩
  obtain ⟨node_iff, ofText⟩ := steps.spanned_of_scalars_iff scalars small
  obtain ⟨file, parsed, fileLines, file_iff⟩ := ofText text lines read rfl
  exact ⟨scalars, small, lines, read, rfl, visibly, node_iff.mpr visibly,
    ⟨file, parsed, fileLines, file_iff.mpr visibly⟩, by decide +kernel⟩

/-- A text over two lines, the last of which begins with a number sign. -/
def signed : Document where
  header := .empty
  start := false
  preface := .empty
  root := .block (.mapping (.one (.leaf
    ⟨.plain ⟨"a".toList, by simp, by decide, by decide, by decide⟩, .str "a", rfl⟩
    (.spaced "|".toList) (.str "x\n# y\n")
    (⟨["  x".toList, "  # y".toList], by decide⟩ : Continuation 0))))
  trailer := .empty
  stop := false
  appendix := .empty

/-- The last line of a text is taken for a comment where it begins with a number sign. Besides, a
    plain key with nothing visible is on a line with content, but nothing is left of it when its end
    is trimmed, so that line is none with a key, and a line that begins with white space and a
    number sign counts as a comment. The mappings of such keys have no markers. -/
theorem not_spanned_of_sign :
    let text := "a: |\n  x\n  # y\n"
    (signed.OfScalars ∧ Text.lines text.toList = signed.lines ∧
        Value.ofText? text.toList = some signed.value ∧
        (ParsedFile.ofYaml? text).map (·.document.spans []) = some [⟨[], 1, 2⟩] ∧
        signed.spanned.spans [] = [⟨[], 1, 3⟩]) ∧
      (isContent "\u00a0: 1".toList = true ∧ KeyLine.read? "\u00a0: 1".toList = none ∧
        (ParsedFile.ofYaml? "\u00a0: 1\n").map (·.document.mapping?.map Mapping.keys) =
          some (some [.str "\u00a0"])) ∧
      (isContent "\u00a0#: 1".toList = false ∧
        (ParsedFile.ofYaml? "\u00a0#: 1\n").map (·.document.mapping?.map Mapping.keys) =
          some (some [.str "\u00a0#"])) :=
  ⟨⟨rfl, by decide +kernel, by cbv, by decide +kernel, by decide +kernel⟩,
    ⟨by decide, by decide, by decide +kernel⟩, by decide, by decide +kernel⟩

end Document

end ConfigScan.Yaml.Layout
