/-
Module: ConfigScan.Proofs.Yaml.MarkingImage
Purpose: Marking adds line markers to a document and nothing else. Without them the document is the
  plain image of its value, whatever the source and wherever the search for keys starts, and the
  markers of a mapping stand behind its other entries.
Main exports: Value.withoutLines_mark, Value.linesLast_of_within_mark,
  Value.mark_adds_lines_only
-/
import ConfigScan.Proofs.FindingLocation
import ConfigScan.Proofs.Pipeline.Names
import ConfigScan.Proofs.Yaml.Unmarked
import Mathlib

namespace ConfigScan.Yaml.Value

variable (outline : Outline)

/-- Marking a mapping marks its entries with some places for its keys, and may append lines. -/
theorem mark_map_entries (least next : Nat) (locate : Bool) (entries : List (Value × Value)) :
    ∃ positions lines, Mapping.Trailing lines ∧
      (mark outline least locate next (.map entries)).1 =
        .map ((markEntries outline least positions next entries).1 ++ lines) := by
  rw [mark]
  generalize (if locate = true then
    (outline.startingAt next).findKeys least none (entries.map fun e => e.1.key?.isSome)
    else []) = positions
  dsimp only
  split
  · exact ⟨positions, _, .lines _ _, rfl⟩
  · refine ⟨positions, [], .none, ?_⟩
    rw [List.append_nil]

/-- An entry is kept under its key, marked from some line on, and the others follow. One whose key
    is a collection is left out. -/
theorem markEntries_cons_entries (least next : Nat) (positions : List (Option KeyPosition))
    (key value : Value) (rest : List (Value × Value)) :
    ∃ valueLeast valueNext locate later,
      (markEntries outline least positions next ((key, value) :: rest)).1 =
        match key.key? with
        | some name =>
            (name, (mark outline valueLeast locate valueNext value).1) ::
              (markEntries outline least positions.tail later rest).1
        | none => (markEntries outline least positions.tail later rest).1 := by
  rw [markEntries]
  cases positions.head?.join with
  | none =>
      refine ⟨least, next, false, (mark outline least false next value).2, ?_⟩
      cases key.key? <;> rfl
  | some position =>
      refine ⟨position.column + 1, position.line + 1, !position.inline,
        (mark outline (position.column + 1) (!position.inline) (position.line + 1) value).2, ?_⟩
      cases key.key? <;> rfl

mutual

/-- Without its lines a marked value is its plain image. -/
theorem withoutLines_mark :
    ∀ (least next : Nat) (locate : Bool) (value : Value),
      (mark outline least locate next value).1.withoutLines = value.unmarked
  | _, _, _, .null => rfl
  | _, _, _, .bool _ => rfl
  | _, _, _, .int n => by
      rw [mark, unmarked, intNode]
      split <;> rfl
  | _, _, _, .float _ => rfl
  | _, _, _, .str _ => rfl
  | least, next, locate, .tagged _ value => by
      rw [mark, unmarked]
      exact withoutLines_mark least next locate value
  | least, next, locate, .seq items => by
      rw [mark, unmarked]
      exact congrArg Node.seq (withoutLines_markItems least next locate items)
  | least, next, locate, .map entries => by
      obtain ⟨positions, lines, trailing, markedEq⟩ :=
        mark_map_entries outline least next locate entries
      rw [markedEq, unmarked, Node.withoutLines, trailing.erased]
      exact congrArg Node.map (withoutLines_markEntries least next positions entries)

theorem withoutLines_markItems :
    ∀ (least next : Nat) (locate : Bool) (items : List Value),
      Node.itemsWithoutLines (markItems outline least locate next items).1 = unmarkedItems items
  | _, _, _, [] => rfl
  | least, next, locate, item :: rest => by
      rw [markItems, unmarkedItems]
      exact congrArg₂ List.cons (withoutLines_mark least next locate item)
        (withoutLines_markItems least _ locate rest)

theorem withoutLines_markEntries :
    ∀ (least next : Nat) (positions : List (Option KeyPosition))
      (entries : List (Value × Value)),
      Node.entriesWithoutLines (markEntries outline least positions next entries).1 =
        unmarkedEntries entries
  | _, _, _, [] => rfl
  | least, next, positions, (key, value) :: rest => by
      obtain ⟨valueLeast, valueNext, locate, later, entriesEq⟩ :=
        markEntries_cons_entries outline least next positions key value rest
      have others := withoutLines_markEntries least later positions.tail rest
      rw [entriesEq, unmarkedEntries]
      cases name : key.key? with
      | none => exact others
      | some written =>
          simp only [Node.entriesWithoutLines, isMarker_key? name]
          rw [withoutLines_mark valueLeast valueNext locate value, others]
          rfl

end

/-- A value holds a mapping: it is one, perhaps under tags, or one is held by an item, or by the
    value of an entry that a document keeps. -/
inductive Holds (pairs : List (Value × Value)) : Value → Prop where
  | here : Holds pairs (.map pairs)
  | tagged {tag : String} {value : Value} (held : Holds pairs value) :
      Holds pairs (.tagged tag value)
  | item {items : List Value} {item : Value} (member : item ∈ items) (held : Holds pairs item) :
      Holds pairs (.seq items)
  | entry {entries : List (Value × Value)} {key value : Value} {name : Key}
      (member : (key, value) ∈ entries) (named : key.key? = some name)
      (held : Holds pairs value) : Holds pairs (.map entries)

/-- A mapping is the image of another one: without its lines it is the plain image, and its lines
    stand behind its other entries. -/
structure IsImage (pairs : List (Value × Value)) (marked : Mapping) : Prop where
  plain : Node.entriesWithoutLines marked = unmarkedEntries pairs
  last : marked.LinesLast

theorem isImage_append (least next : Nat) (positions : List (Option KeyPosition))
    (entries : List (Value × Value)) {lines : Mapping} (trailing : Mapping.Trailing lines) :
    IsImage entries ((markEntries outline least positions next entries).1 ++ lines) where
  plain := trailing.erased.trans (withoutLines_markEntries outline least next positions entries)
  last := trailing.linesLast (unmarked_markEntries outline least positions next entries)

mutual

/-- Every mapping in a marked value is the image of one that the value holds. -/
theorem image_of_within_mark {marked : Mapping} :
    ∀ (least next : Nat) (locate : Bool) (value : Value),
      Node.Within (.map marked) (mark outline least locate next value).1 →
        ∃ pairs, value.Holds pairs ∧ IsImage pairs marked
  | _, _, _, .null, within => by cases within
  | _, _, _, .bool _, within => by cases within
  | _, _, _, .int n, within => by
      rw [mark, intNode] at within
      split at within <;> cases within
  | _, _, _, .float _, within => by cases within
  | _, _, _, .str _, within => by cases within
  | least, next, locate, .tagged _ value, within => by
      rw [mark] at within
      obtain ⟨pairs, held, image⟩ := image_of_within_mark least next locate value within
      exact ⟨pairs, .tagged held, image⟩
  | least, next, locate, .seq items, within => by
      rw [mark] at within
      cases within with
      | item member inside =>
          obtain ⟨item, isItem, pairs, held, image⟩ :=
            image_of_within_markItems least next locate items member inside
          exact ⟨pairs, .item isItem held, image⟩
  | least, next, locate, .map entries, within => by
      obtain ⟨positions, lines, trailing, markedEq⟩ :=
        mark_map_entries outline least next locate entries
      rw [markedEq] at within
      cases within with
      | here =>
          exact ⟨entries, .here, isImage_append outline least next positions entries trailing⟩
      | entry member inside =>
          rcases List.mem_append.mp member with own | appended
          · obtain ⟨key, value, isEntry, written, pairs, held, image⟩ :=
              image_of_within_markEntries least next positions entries own inside
            exact ⟨pairs, .entry isEntry written held, image⟩
          · cases trailing.not_within appended inside

theorem image_of_within_markItems {marked : Mapping} {node : Node} :
    ∀ (least next : Nat) (locate : Bool) (items : List Value),
      node ∈ (markItems outline least locate next items).1 → Node.Within (.map marked) node →
        ∃ item ∈ items, ∃ pairs, item.Holds pairs ∧ IsImage pairs marked
  | _, _, _, [], member, _ => by cases member
  | least, next, locate, item :: rest, member, within => by
      rw [markItems] at member
      rcases List.mem_cons.mp member with same | later
      · rw [same] at within
        exact ⟨item, List.mem_cons_self, image_of_within_mark least next locate item within⟩
      · obtain ⟨other, inRest, image⟩ :=
          image_of_within_markItems least _ locate rest later within
        exact ⟨other, List.mem_cons_of_mem _ inRest, image⟩

theorem image_of_within_markEntries {marked : Mapping} {name : Key} {node : Node} :
    ∀ (least next : Nat) (positions : List (Option KeyPosition))
      (entries : List (Value × Value)),
      (name, node) ∈ (markEntries outline least positions next entries).1 →
        Node.Within (.map marked) node →
          ∃ key value, (key, value) ∈ entries ∧ key.key? = some name ∧
            ∃ pairs, value.Holds pairs ∧ IsImage pairs marked
  | _, _, _, [], member, _ => by cases member
  | least, next, positions, (key, value) :: rest, member, within => by
      obtain ⟨valueLeast, valueNext, locate, later, entriesEq⟩ :=
        markEntries_cons_entries outline least next positions key value rest
      have fromRest : (name, node) ∈ (markEntries outline least positions.tail later rest).1 →
          ∃ other content, (other, content) ∈ (key, value) :: rest ∧ other.key? = some name ∧
            ∃ pairs, content.Holds pairs ∧ IsImage pairs marked := by
        intro inRest
        obtain ⟨other, content, isEntry, image⟩ :=
          image_of_within_markEntries least later positions.tail rest inRest within
        exact ⟨other, content, List.mem_cons_of_mem _ isEntry, image⟩
      rw [entriesEq] at member
      cases written : key.key? with
      | none =>
          rw [written] at member
          exact fromRest member
      | some own =>
          rw [written] at member
          rcases List.mem_cons.mp member with same | inRest
          · cases same
            exact ⟨key, value, List.mem_cons_self, written,
              image_of_within_mark valueLeast valueNext locate value within⟩
          · exact fromRest inRest

end

/-- Marking an item of a sequence gives an item of its node. -/
theorem mem_markItems {items : List Value} {item : Value} (member : item ∈ items)
    (least next : Nat) (locate : Bool) :
    ∃ itemNext, (mark outline least locate itemNext item).1 ∈
      (markItems outline least locate next items).1 := by
  induction items generalizing next with
  | nil => cases member
  | cons head rest inductionHypothesis =>
      rw [markItems]
      rcases List.mem_cons.mp member with same | later
      · rw [same]
        exact ⟨next, List.mem_cons_self⟩
      · obtain ⟨itemNext, inRest⟩ :=
          inductionHypothesis later (mark outline least locate next head).2
        exact ⟨itemNext, List.mem_cons_of_mem _ inRest⟩

/-- Marking an entry whose key is a scalar gives an entry of the marked mapping. -/
theorem mem_markEntries {entries : List (Value × Value)} {key value : Value} {name : Key}
    (member : (key, value) ∈ entries) (named : key.key? = some name) (least next : Nat)
    (positions : List (Option KeyPosition)) :
    ∃ valueLeast valueNext locate, (name, (mark outline valueLeast locate valueNext value).1) ∈
      (markEntries outline least positions next entries).1 := by
  induction entries generalizing next positions with
  | nil => cases member
  | cons head rest inductionHypothesis =>
      obtain ⟨headKey, headValue⟩ := head
      obtain ⟨valueLeast, valueNext, locate, later, entriesEq⟩ :=
        markEntries_cons_entries outline least next positions headKey headValue rest
      rw [entriesEq]
      rcases List.mem_cons.mp member with same | inRest
      · cases same
        rw [named]
        exact ⟨valueLeast, valueNext, locate, List.mem_cons_self⟩
      · obtain ⟨ownLeast, ownNext, ownLocate, marked⟩ :=
          inductionHypothesis inRest later positions.tail
        refine ⟨ownLeast, ownNext, ownLocate, ?_⟩
        cases headKey.key? with
        | none => exact marked
        | some _ => exact List.mem_cons_of_mem _ marked

/-- Every mapping that a value holds has its image in the marked value. -/
theorem Holds.within_mark {pairs : List (Value × Value)} {value : Value}
    (held : value.Holds pairs) (least next : Nat) (locate : Bool) :
    ∃ marked, Node.Within (.map marked) (mark outline least locate next value).1 ∧
      IsImage pairs marked := by
  induction held generalizing least next locate with
  | here =>
      obtain ⟨positions, lines, trailing, markedEq⟩ :=
        mark_map_entries outline least next locate pairs
      rw [markedEq]
      exact ⟨_, .here, isImage_append outline least next positions pairs trailing⟩
  | tagged _ inductionHypothesis =>
      rw [mark]
      exact inductionHypothesis least next locate
  | item member _ inductionHypothesis =>
      obtain ⟨itemNext, isItem⟩ := mem_markItems outline member least next locate
      obtain ⟨marked, within, image⟩ := inductionHypothesis least itemNext locate
      rw [mark]
      exact ⟨marked, .item isItem within, image⟩
  | @entry entries _ _ _ member named _ inductionHypothesis =>
      obtain ⟨positions, lines, _, markedEq⟩ :=
        mark_map_entries outline least next locate entries
      obtain ⟨valueLeast, valueNext, valueLocate, isEntry⟩ :=
        mem_markEntries outline member named least next positions
      obtain ⟨marked, within, image⟩ := inductionHypothesis valueLeast valueNext valueLocate
      rw [markedEq]
      exact ⟨marked, .entry (List.mem_append_left _ isEntry) within, image⟩

/-- The document of a text without its lines is the plain image of its value. -/
theorem withoutLines_document {text : String} {file : ParsedFile}
    (parsed : ParsedFile.ofYaml? text = some file) {value : Value}
    (read : ofText? text.toList = some value) : file.document.withoutLines = value.unmarked := by
  obtain ⟨own, ownRead, documentEq, _⟩ := ParsedFile.ofYaml?_eq_some parsed
  rw [read] at ownRead
  cases ownRead
  rw [documentEq]
  exact withoutLines_mark _ 0 0 true value

/-- A text is a document when it has a value other than null. -/
theorem isSome_ofYaml? (text : String) :
    (ParsedFile.ofYaml? text).isSome = (ofText? text.toList).any fun value => !value.isNull := by
  rw [ParsedFile.ofYaml?]
  cases ofText? text.toList with
  | none => rfl
  | some value =>
      rw [Option.bind_eq_bind, Option.bind_some, Option.any_some]
      cases value.isNull <;> rfl

/-- Marking adds line markers and changes nothing else. From any line and any column on, in any
    source, a marked value without its lines is the plain image of the value, and each of its
    mappings has no markers or one start and one end marker as its last two entries. So two texts
    with the same value have the same document but for the lines, and the same names of the
    pipeline, of its jobs and of its triggers. -/
theorem mark_adds_lines_only :
    (∀ (value : Value) (lines : List (List Char)) (least next : Nat) (locate : Bool),
        (mark (Outline.ofLines lines) least locate next value).1.withoutLines = value.unmarked ∧
          ∀ entries : Mapping, Node.Within (.map entries)
              (mark (Outline.ofLines lines) least locate next value).1 → entries.LinesLast) ∧
      ∀ text other : String, ofText? text.toList = ofText? other.toList →
        (ParsedFile.ofYaml? text).isSome = (ParsedFile.ofYaml? other).isSome ∧
          ∀ file otherFile, ParsedFile.ofYaml? text = some file →
            ParsedFile.ofYaml? other = some otherFile →
              file.document.withoutLines = otherFile.document.withoutLines ∧
                (Pipeline.ofDocument file.document).name =
                  (Pipeline.ofDocument otherFile.document).name ∧
                (Pipeline.ofDocument file.document).jobs.map Job.name =
                  (Pipeline.ofDocument otherFile.document).jobs.map Job.name ∧
                (Pipeline.ofDocument file.document).triggers =
                  (Pipeline.ofDocument otherFile.document).triggers := by
  constructor
  · intro value lines least next locate
    refine ⟨withoutLines_mark _ least next locate value, ?_⟩
    intro entries within
    obtain ⟨_, _, image⟩ := image_of_within_mark _ least next locate value within
    exact image.last
  · intro text other same
    refine ⟨by rw [isSome_ofYaml?, isSome_ofYaml?, same], ?_⟩
    intro file otherFile parsed otherParsed
    obtain ⟨value, read, _⟩ := ParsedFile.ofYaml?_eq_some parsed
    have alike : file.document.withoutLines = otherFile.document.withoutLines := by
      rw [withoutLines_document parsed read, withoutLines_document otherParsed (same ▸ read)]
    obtain ⟨name, jobs, triggers⟩ := Pipeline.names_withoutLines file.document
    obtain ⟨otherName, otherJobs, otherTriggers⟩ := Pipeline.names_withoutLines otherFile.document
    rw [alike] at name jobs triggers
    exact ⟨alike, name.symm.trans otherName, jobs.symm.trans otherJobs,
      triggers.symm.trans otherTriggers⟩

/-- A mapping below the key of another one, searched behind a comment, and a job that is written in
    block style and in flow style. -/
theorem mark_adds_lines_only_respelled :
    let value : Value := .map [(.str "a", .map [(.str "b", .null)])]
    let lines := ["#".toList, "a:".toList, "  b:".toList]
    let inner : Mapping := Mapping.withLines [(.str "b", .null)] 3 3
    Node.Within (.map inner) (mark (Outline.ofLines lines) 0 true 1 value).1 ∧ inner.LinesLast ∧
      (mark (Outline.ofLines lines) 0 true 1 value).1.withoutLines = value.unmarked ∧
      ofText? "jobs:\n  build:\n    a: 1\n".toList =
        ofText? "'jobs': \x7b\"build\": \x7ba: 1\x7d\x7d\n".toList ∧
      ∃ file otherFile,
        ParsedFile.ofYaml? "jobs:\n  build:\n    a: 1\n" = some file ∧
          ParsedFile.ofYaml? "'jobs': \x7b\"build\": \x7ba: 1\x7d\x7d\n" = some otherFile ∧
          file.document.withoutLines = otherFile.document.withoutLines ∧
          (Pipeline.ofDocument file.document).jobs.map Job.name =
            (Pipeline.ofDocument otherFile.document).jobs.map Job.name := by
  have same : ofText? "jobs:\n  build:\n    a: 1\n".toList =
      ofText? "'jobs': \x7b\"build\": \x7ba: 1\x7d\x7d\n".toList := by cbv
  obtain ⟨file, parsed⟩ : ∃ file,
      ParsedFile.ofYaml? "jobs:\n  build:\n    a: 1\n" = some file :=
    Option.isSome_iff_exists.mp (by decide +kernel)
  obtain ⟨marked, alike⟩ := mark_adds_lines_only
  obtain ⟨accepted, files⟩ := alike _ _ same
  obtain ⟨otherFile, otherParsed⟩ := Option.isSome_iff_exists.mp
    (accepted.symm.trans (Option.isSome_iff_exists.mpr ⟨file, parsed⟩))
  obtain ⟨document, _, jobNames, _⟩ := files file otherFile parsed otherParsed
  intro value lines inner
  obtain ⟨image, last⟩ := marked value lines 0 1 true
  have entry : (Key.str "a", Node.map inner) ∈ Mapping.withLines [(.str "a", .map inner)] 2 3 :=
    List.mem_cons_self
  have within : Node.Within (.map inner) (mark (Outline.ofLines lines) 0 true 1 value).1 :=
    Node.Within.entry entry .here
  exact ⟨within, last inner within, image, same, file, otherFile, parsed, otherParsed, document,
    jobNames⟩

end ConfigScan.Yaml.Value
