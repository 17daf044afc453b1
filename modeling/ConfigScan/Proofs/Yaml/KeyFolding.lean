/-
Module: ConfigScan.Proofs.Yaml.KeyFolding
Purpose: Which different keys of a YAML text become one key of its document, and that the keys of a
  document are unique exactly where no two of them do.
Main exports: Value.FoldsWith, Value.foldsWith_iff, Node.KeysUnique, ParsedFile.keysUnique_iff
-/
import ConfigScan.Proofs.Yaml.DistinctKeys

namespace ConfigScan

namespace Yaml.Value

/-- The value behind all tags in front of it. -/
def bare : Value → Value
  | .tagged _ value => value.bare
  | value => value

/-- The truth value that a scalar spells. -/
def truth? : Value → Option Bool
  | .bool value => some value
  | .str text => truthWord? text
  | _ => none

/-- The text that a scalar becomes as a key, unless it spells a truth value: null and numbers other
    than signed 64-bit integers are texts too. -/
def wording? : Value → Option String
  | .null => some "null"
  | .int n => if isSigned64 n then none else some (toString n)
  | .float x => some x.text
  | .str text => if (truthWord? text).isSome then none else some text
  | _ => none

/-- Two keys that a document does not tell apart: their tags do not count, and what is left spells
    the same truth value, becomes the same text or is the same integer. -/
inductive FoldsWith (key other : Value) : Prop where
  | truth (value : Bool) (spelled : key.bare.truth? = some value)
      (otherSpelled : other.bare.truth? = some value)
  | wording (text : String) (worded : key.bare.wording? = some text)
      (otherWorded : other.bare.wording? = some text)
  | integer (n : Int) (small : isSigned64 n = true) (equal : key.bare = .int n)
      (otherEqual : other.bare = .int n)

/-- Which key of a document a value is, if it is one. -/
theorem key?_eq_some_iff {name : Key} :
    ∀ value : Value, value.key? = some name ↔
      match name with
      | .bool truth => value.bare.truth? = some truth
      | .str text => value.bare.wording? = some text
      | .int n => isSigned64 n = true ∧ value.bare = .int n
      | .startLine | .endLine => False
  | .tagged _ value => key?_eq_some_iff value
  | .null => by cases name <;> simp [key?, bare, truth?, wording?]
  | .bool _ => by cases name <;> simp [key?, bare, truth?, wording?]
  | .float _ => by cases name <;> simp [key?, bare, truth?, wording?]
  | .seq _ => by cases name <;> simp [key?, bare, truth?, wording?]
  | .map _ => by cases name <;> simp [key?, bare, truth?, wording?]
  | .str text => by
      cases word : truthWord? text <;> cases name <;> simp [key?, bare, truth?, wording?, word]
  | .int n => by
      by_cases small : isSigned64 n = true
      · cases name with
        | int m =>
            suffices n = m → isSigned64 m = true by simpa [key?, bare, small]
            rintro rfl
            exact small
        | _ => simp [key?, bare, truth?, wording?, small]
      · cases name with
        | int m =>
            suffices isSigned64 m = true → n ≠ m by simpa [key?, bare, small]
            rintro otherSmall rfl
            exact small otherSmall
        | _ => simp [key?, bare, truth?, wording?, small]

/-- Two values fold when they are the same key of a document. -/
theorem foldsWith_iff {key other : Value} :
    key.FoldsWith other ↔ ∃ name, key.key? = some name ∧ other.key? = some name := by
  constructor
  · intro folds
    cases folds with
    | truth value spelled otherSpelled =>
        exact ⟨.bool value, (key?_eq_some_iff key).mpr spelled,
          (key?_eq_some_iff other).mpr otherSpelled⟩
    | wording text worded otherWorded =>
        exact ⟨.str text, (key?_eq_some_iff key).mpr worded,
          (key?_eq_some_iff other).mpr otherWorded⟩
    | integer n small equal otherEqual =>
        exact ⟨.int n, (key?_eq_some_iff key).mpr ⟨small, equal⟩,
          (key?_eq_some_iff other).mpr ⟨small, otherEqual⟩⟩
  · rintro ⟨name, named, otherNamed⟩
    have reading := (key?_eq_some_iff key).mp named
    have otherReading := (key?_eq_some_iff other).mp otherNamed
    cases name with
    | bool value => exact .truth value reading otherReading
    | str text => exact .wording text reading otherReading
    | int n => exact .integer n reading.1 reading.2 otherReading.2
    | startLine => exact reading.elim
    | endLine => exact reading.elim

instance (key other : Value) : Decidable (key.FoldsWith other) :=
  decidable_of_iff (key.key?.isSome = true ∧ key.key? = other.key?) <| by
    rw [foldsWith_iff]
    constructor
    · rintro ⟨isKey, same⟩
      obtain ⟨name, named⟩ := Option.isSome_iff_exists.mp isKey
      exact ⟨name, named, same ▸ named⟩
    · rintro ⟨name, named, otherNamed⟩
      exact ⟨Option.isSome_iff_exists.mpr ⟨name, named⟩, named.trans otherNamed.symm⟩

theorem keys_unmarkedEntries (pairs : List (Value × Value)) :
    Mapping.keys (unmarkedEntries pairs) = pairs.filterMap fun pair => pair.1.key? := by
  induction pairs with
  | nil => rfl
  | cons pair rest inductionHypothesis =>
      obtain ⟨key, value⟩ := pair
      rw [unmarkedEntries]
      cases named : key.key? with
      | none => simpa [Mapping.keys, named] using inductionHypothesis
      | some name => simpa [Mapping.keys, named] using inductionHypothesis

/-- The keys of an image are different exactly when no two of the keys that it shows fold. -/
theorem IsImage.nodup_iff {pairs : List (Value × Value)} {marked : Mapping}
    (image : IsImage pairs marked) :
    (marked.keys.filter (!·.isMarker)).Nodup ↔
      pairs.Pairwise fun entry later => ¬ entry.1.FoldsWith later.1 := by
  rw [← Mapping.keys_entriesWithoutLines, image.plain, keys_unmarkedEntries, List.Nodup,
    List.pairwise_filterMap]
  apply List.Pairwise.iff
  intro entry later
  rw [foldsWith_iff]
  constructor
  · rintro different ⟨name, named, laterNamed⟩
    exact different name named name laterNamed rfl
  · intro apart name named other otherNamed same
    exact apart ⟨name, named, same ▸ otherNamed⟩

end Yaml.Value

/-- With different keys an entry is found by its key. -/
theorem Mapping.get?_of_nodup {entries : Mapping}
    (nodup : (entries.keys.filter (!·.isMarker)).Nodup) {entry : Key × Node}
    (member : entry ∈ entries) (ordinary : entry.1.isMarker = false) :
    entries.get? entry.1 = some entry.2 := by
  induction entries with
  | nil => cases member
  | cons head rest inductionHypothesis =>
      obtain ⟨key, node⟩ := head
      have keysEq : keys ((key, node) :: rest) = key :: keys rest := rfl
      rw [keysEq] at nodup
      rcases List.mem_cons.mp member with same | later
      · cases same
        simp [get?]
      · have inRest : entry.1 ∈ (keys rest).filter (!·.isMarker) :=
          List.mem_filter.mpr ⟨List.mem_map_of_mem later, by simp [ordinary]⟩
        by_cases same : key = entry.1
        · rw [same, List.filter_cons_of_pos (by simp [ordinary])] at nodup
          exact absurd inRest (List.nodup_cons.mp nodup).1
        · have restNodup : ((keys rest).filter (!·.isMarker)).Nodup :=
            nodup.sublist ((List.sublist_cons_self _ _).filter _)
          have skipped : get? ((key, node) :: rest) entry.1 = get? rest entry.1 := by
            simp [get?, same]
          rw [skipped]
          exact inductionHypothesis restNodup later

/-- In every mapping of the node the keys other than line markers are different, and a look-up of
    such a key gives the value of its own entry. -/
def Node.KeysUnique (node : Node) : Prop :=
  ∀ entries : Mapping, Within (.map entries) node →
    (entries.keys.filter (!·.isMarker)).Nodup ∧
      ∀ entry ∈ entries, entry.1.isMarker = false → entries.get? entry.1 = some entry.2

/-- The keys of a document are unique exactly when no mapping that its value holds has two keys
    that fold together. A text that repeats a key is refused, so those two are different values. -/
theorem ParsedFile.keysUnique_iff {text : String} {file : ParsedFile}
    (parsed : ParsedFile.ofYaml? text = some file) :
    ∃ value, Yaml.Value.ofText? text.toList = some value ∧ value.Distinct ∧
      (file.document.KeysUnique ↔
        ∀ pairs, value.Holds pairs →
          pairs.Pairwise fun entry later => ¬ entry.1.FoldsWith later.1) := by
  obtain ⟨value, read, documentEq, _⟩ := ParsedFile.ofYaml?_eq_some parsed
  refine ⟨value, read, Yaml.Value.distinct_of_ofText? read, ?_⟩
  rw [documentEq]
  constructor
  · intro unique pairs held
    obtain ⟨marked, within, image⟩ := held.within_mark _ 0 0 true
    exact image.nodup_iff.mp (unique marked within).1
  · intro apart entries within
    obtain ⟨pairs, held, image⟩ := Yaml.Value.image_of_within_mark _ 0 0 true value within
    have nodup := image.nodup_iff.mpr (apart pairs held)
    exact ⟨nodup, fun entry member ordinary => Mapping.get?_of_nodup nodup member ordinary⟩

/-- A truth value, an integer in quotes and the same integer without them are three keys, and so are
    null and a number two. -/
theorem ParsedFile.keysUnique_iff_mixed :
    let text := "on: 1\n'2': \x7b~: 2, 3: 4\x7d\n2: 5\n"
    ∃ file, ParsedFile.ofYaml? text = some file ∧
      (∃ value, Yaml.Value.ofText? text.toList = some value ∧ value.Distinct ∧
        (file.document.KeysUnique ↔
          ∀ pairs, value.Holds pairs →
            pairs.Pairwise fun entry later => ¬ entry.1.FoldsWith later.1)) ∧
      file.document.KeysUnique := by
  intro text
  have isRead : Yaml.Value.ofText? text.toList = some (.map [(.str "on", .int 1),
      (.str "2", .map [(.null, .int 2), (.int 3, .int 4)]), (.int 2, .int 5)]) := by cbv
  obtain ⟨file, parsed⟩ : ∃ file, ParsedFile.ofYaml? text = some file :=
    Option.isSome_iff_exists.mp (by decide +kernel)
  obtain ⟨value, read, distinct, unique_iff⟩ := ParsedFile.keysUnique_iff parsed
  refine ⟨file, parsed, ⟨value, read, distinct, unique_iff⟩, unique_iff.mpr ?_⟩
  obtain rfl := Option.some.inj (isRead.symm.trans read)
  intro pairs held
  cases held with
  | here => decide
  | entry member _ heldInside =>
      simp only [List.mem_cons, Prod.mk.injEq, List.not_mem_nil, or_false] at member
      rcases member with ⟨rfl, rfl⟩ | ⟨rfl, rfl⟩ | ⟨rfl, rfl⟩
      · cases heldInside
      · cases heldInside with
        | here => decide
        | entry member _ heldInside =>
            simp only [List.mem_cons, Prod.mk.injEq, List.not_mem_nil, or_false] at member
            rcases member with ⟨rfl, rfl⟩ | ⟨rfl, rfl⟩ <;> cases heldInside
      · cases heldInside

/-- The keys of the mapping at the top of a text's document. -/
def ParsedFile.topKeys? (text : String) : Option (List Key) :=
  (ParsedFile.ofYaml? text).bind fun file => file.document.mapping?.map Mapping.keys

theorem ParsedFile.not_keysUnique_of_topKeys? {text : String} (keys : List Key)
    (top : topKeys? text = some keys) (repeated : ¬ (keys.filter (!·.isMarker)).Nodup) :
    ∃ file, ParsedFile.ofYaml? text = some file ∧ ¬ file.document.KeysUnique := by
  obtain ⟨file, parsed, mapped⟩ := Option.bind_eq_some_iff.mp top
  obtain ⟨entries, isMapping, rfl⟩ := Option.map_eq_some_iff.mp mapped
  refine ⟨file, parsed, fun unique => repeated (unique entries ?_).1⟩
  rw [Node.mapping?_eq_some.mp isMapping]
  exact .here

/-- Two words for one truth value, null beside its spelling, and a float beside its text: such keys
    are different in the text and one key in the document. -/
theorem ParsedFile.not_keysUnique_of_folded_words :
    (∃ file, ParsedFile.ofYaml? "on: 1\ntrue: 2\n" = some file ∧
        ¬ file.document.KeysUnique) ∧
      (∃ file, ParsedFile.ofYaml? "~: 1\n'null': 2\n" = some file ∧
        ¬ file.document.KeysUnique) ∧
      ∃ file, ParsedFile.ofYaml? "1.5: 1\n'1.5': 2\n" = some file ∧
        ¬ file.document.KeysUnique := by
  refine ⟨?_, ?_, ?_⟩
  · exact not_keysUnique_of_topKeys? [.bool true, .bool true, .startLine, .endLine]
      (by decide +kernel) (by decide)
  · exact not_keysUnique_of_topKeys? [.str "null", .str "null", .startLine, .endLine]
      (by decide +kernel) (by decide)
  · exact not_keysUnique_of_topKeys? [.str "1.5", .str "1.5", .startLine, .endLine]
      (by decide +kernel) (by decide)

end ConfigScan
