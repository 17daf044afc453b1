/-
Module: ConfigScan.Proofs.Filter.Reader
Purpose: A scan filter is read back from every JSON object that describes it, and an object with a
  stray, repeated or wrong member is refused.
Main exports: ScanFilter.Describes, ScanFilter.Spoils, ScanFilter.ofText_roundTrip
-/
import ConfigScan.Proofs.Json.TextList
import Mathlib.Data.List.Nodup

namespace ConfigScan

namespace Json

open Text.Utf8 (encode encode_ascii encode_append)

variable {rest : List UInt8} {place : Place}

/-! ### Keys of an object -/

theorem WritesMember.starts {member : String × Value} {text : List Char}
    (writes : WritesMember member text) : ∃ others, encode text = 34 :: others := by
  cases writes with
  | member writesName =>
      cases writesName with
      | quotes => exact ⟨_, rfl⟩

theorem nextKey_closing (first : Bool) {blanks : List Char} (areBlank : Blanks blanks) :
    nextKey first ⟨encode blanks ++ 125 :: rest, place⟩ =
      .ok (false, ⟨125 :: rest, place.behind (encode blanks)⟩) := by
  rw [nextKey, skipBlanks_to areBlank (by decide)]
  rfl

variable {member : String × Value} {before after text : List Char}

/-- The first key of an object is next behind the opening brace. -/
theorem nextKey_first (areBlank : Blanks before) (writes : WritesMember member text) :
    ∃ behind, nextKey true ⟨encode before ++ (encode text ++ rest), place⟩ =
      .ok (true, ⟨encode text ++ rest, behind⟩) := by
  obtain ⟨others, bytes⟩ := writes.starts
  refine ⟨place.behind (encode before), ?_⟩
  rw [bytes, List.cons_append, nextKey, skipBlanks_to areBlank (by decide)]
  rfl

/-- Each further key is next behind a comma. -/
theorem nextKey_comma (isBlankBehind : Blanks after) (areBlank : Blanks before)
    (writes : WritesMember member text) :
    ∃ behind,
      nextKey false ⟨encode after ++ 44 :: (encode before ++ (encode text ++ rest)), place⟩ =
        .ok (true, ⟨encode text ++ rest, behind⟩) := by
  obtain ⟨others, bytes⟩ := writes.starts
  rw [bytes, List.cons_append, nextKey, skipBlanks_to isBlankBehind (by decide)]
  simp [Cursor.skip, skipBlanks_to areBlank (b := 34) (by decide)]

theorem readColon_blanks (areBlank : Blanks before) :
    readColon ⟨encode before ++ 58 :: rest, place⟩ =
      .ok ⟨rest, (place.behind (encode before)).after 58⟩ := by
  rw [readColon, skipBlanks_to areBlank (by decide)]
  rfl

theorem failKey_fails {α : Type} (c : Cursor) (fault : Fault) :
    ∃ e, (failKey c fault : Except Error α) = .error e := ⟨_, rfl⟩

end Json

namespace ScanFilter

open Json (Value Writes WritesMember WritesDocument Follows Encloses Blanks Gives Place Cursor)
open Text.Utf8 (encode encode_ascii encode_append)

/-! ### Reading the members -/

/-- The lists with one more member: its name is known and new, and its value is a list of texts. -/
def take? (done : List (Field × List String)) (member : String × Value) :
    Option (List (Field × List String)) := do
  let field ← Field.all.find? fun field => field.name == member.1
  if (done.lookup field).isSome then none
  else return (field, ← member.2.texts?) :: done

variable {rest : List UInt8} {place : Place} {member : String × Value}
  {members : List (String × Value)} {done : List (Field × List String)}

/-- The bytes of a member. -/
theorem encode_member (key before after text : List Char) :
    encode (key ++ (before ++ ':' :: (after ++ text))) ++ rest =
      encode key ++ (encode before ++ 58 :: (encode after ++ (encode text ++ rest))) := by
  rw [encode_append, encode_append, encode_ascii (by decide), encode_append]
  simp only [List.append_assoc, List.cons_append]
  rfl

/-- A member and the members behind it give the lists of them all. -/
theorem readFields_part {text : List Char} {fuel : Nat} {c : Cursor} {bytes : List UInt8}
    (writes : WritesMember member text)
    (next : ∃ behind, Json.nextKey done.isEmpty c = .ok (true, ⟨encode text ++ bytes, behind⟩))
    (others : ∀ entry place, Gives rest (members.foldlM take? (entry :: done))
      (readFields fuel (entry :: done) ⟨bytes, place⟩)) :
    Gives rest ((member :: members).foldlM take? done) (readFields (fuel + 1) done c) := by
  obtain ⟨behind, next⟩ := next
  cases writes with
  | @member name value _ before after text writesName areBlank isBlankBehind writesValue =>
    cases writesName with
    | quotes chars =>
      rw [encode_member, Json.encode_quotes] at next
      obtain ⟨behindKey, read⟩ := Json.readText_writes chars
        (encode before ++ 58 :: (encode after ++ (encode text ++ bytes))) (behind.after 34)
      rw [readFields, next, List.foldlM_cons]
      change Gives rest _ ((Json.readText ⟨_, behind.after 34⟩).bind _)
      simp only [read, Except.bind, String.ofList_toList]
      -- An unknown or repeated name is refused before its value is looked at.
      cases known : Field.all.find? fun field => field.name == name with
      | none =>
        have refused : take? done (name, value) = none := by simp [take?, known]
        rw [refused]
        exact Json.gives_none (Json.failKey_fails _ _)
      | some field =>
        by_cases again : (done.lookup field).isSome
        · have refused : take? done (name, value) = none := by simp [take?, known, again]
          rw [refused]
          simp only [again, if_true]
          exact Json.gives_none (Json.failKey_fails _ _)
        · have taken : take? done (name, value) =
              value.texts?.bind fun items => some ((field, items) :: done) := by
            simp [take?, known, again]
          rw [taken]
          change Gives rest ((value.texts?.bind _).bind _) _
          simp only [again, Json.readColon_blanks areBlank, Option.bind_assoc]
          exact (Json.textList_gives isBlankBehind writesValue).bind fun items place _ =>
            others _ place

/-- The members behind a member are read up to the closing brace. -/
theorem readFields_follows {written after : List Char}
    (follows : Follows WritesMember '}' members written) (isBlankBehind : Blanks after)
    {fuel : Nat} (enough : members.length ≤ fuel) (entry : Field × List String) (place : Place) :
    Gives (125 :: rest) (members.foldlM take? (entry :: done))
      (readFields (fuel + 1) (entry :: done)
        ⟨encode after ++ (encode written ++ rest), place⟩) := by
  -- Behind a member something is done already, so that a comma has to come in front of the next key.
  induction follows generalizing done after fuel entry place with
  | close =>
      rw [readFields, show encode ['}'] ++ rest = 125 :: rest from rfl, List.isEmpty_cons,
        Json.nextKey_closing false isBlankBehind]
      exact .value _ _
  | part areBlank writes isBlankAfter _ inductionHypothesis =>
      obtain ⟨fuel, rfl⟩ := Nat.exists_eq_add_of_le' (Nat.zero_lt_of_lt enough)
      simp only [encode_ascii (c := ',') (by decide), encode_append, List.cons_append,
        List.append_assoc]
      refine readFields_part writes (Json.nextKey_comma isBlankBehind areBlank writes)
        fun entry place => ?_
      exact inductionHypothesis isBlankAfter (Nat.le_of_succ_le_succ enough) entry place

theorem readFields_encloses {body : List Char}
    (encloses : Encloses WritesMember '}' members body) :
    Gives (125 :: rest) (members.foldlM take? [])
      (readFields ((encode body ++ rest).length + 2) [] ⟨encode body ++ rest, place⟩) := by
  have enough := encloses.length_le_bytes rest
  cases encloses with
  | empty areBlank =>
      rw [encode_append, List.append_assoc, readFields,
        show encode ['}'] ++ rest = 125 :: rest from rfl, List.isEmpty_nil,
        Json.nextKey_closing true areBlank]
      exact .value _ _
  | parts areBlank writes isBlankBehind follows =>
      simp only [encode_append, List.append_assoc] at enough ⊢
      exact readFields_part writes (Json.nextKey_first areBlank writes)
        (readFields_follows follows isBlankBehind (Nat.le_of_succ_le enough))

theorem readValue_gives {before text : List Char} (areBlank : Blanks before)
    (writes : Writes (.object members) text) :
    Gives rest ((members.foldlM take? []).map ofFields)
      (readValue ⟨encode before ++ (encode text ++ rest), place⟩) := by
  cases writes with
  | object encloses =>
    rw [encode_ascii (by decide), List.cons_append, readValue,
      Json.skipBlanks_to areBlank (by decide), Option.map_eq_bind]
    exact (readFields_encloses encloses).bind fun fields place _ => .value _ _

/-- A text that writes an object is read as the filter of its members, if they give one. -/
theorem ofJson_eq_ok_iff {text : String} (writes : WritesDocument (.object members) text.toList)
    (filter : ScanFilter) :
    ofJson text = .ok filter ↔ (members.foldlM take? []).map ofFields = some filter := by
  rw [ofJson]
  generalize text.toList = characters at writes
  cases writes with
  | @padded before text after areBlank writes isBlankBehind =>
    have gives : Gives (encode after) ((members.foldlM take? []).map ofFields)
        (readValue ⟨encode before ++ (encode text ++ encode after), {}⟩) :=
      readValue_gives areBlank writes
    rw [encode_append, encode_append]
    -- Nothing but white space is left, so that reading the value decides.
    generalize readValue _ = result, (members.foldlM take? []).map ofFields = outcome at gives ⊢
    cases gives with
    | fault e => exact iff_of_false nofun nofun
    | value read place =>
      change (if (Cursor.skipBlanks ⟨encode after, place⟩).rest.isEmpty then _ else _) = _ ↔ _
      rw [Json.skipBlanks_all isBlankBehind, Option.some_inj]
      exact ⟨Except.ok.inj, congrArg Except.ok⟩

/-! ### Objects that describe a filter -/

/-- The member that writes a list of a filter. -/
def written (entry : Field × List String) : String × Value :=
  (entry.1.name, .list (entry.2.map .text))

/-- The list with this name. -/
def listOf (filter : ScanFilter) : Field → List String
  | .checks => filter.checks
  | .skipChecks => filter.skipChecks
  | .excludedPaths => filter.excludedPaths

/-- The members of an object that describes a filter: its lists in any order, each of them once, and
    an empty list may be left out. -/
inductive Describes (filter : ScanFilter) : List (String × Value) → Prop where
  | inOrder (fields : List Field) (distinct : fields.Nodup)
      (leftOut : ∀ field, field ∉ fields → filter.listOf field = []) :
      Describes filter (fields.map fun field => written (field, filter.listOf field))

/-- Ways to spoil the members of an object: a member with an unknown name more, or with a name
    that is there already, or another kind of value in place of a member's value or of an item. -/
inductive Spoils : List (String × Value) → List (String × Value) → Prop where
  | stranger (front back : List (String × Value)) {name : String} (value : Value)
      (unknown : ∀ field : Field, field.name ≠ name) :
      Spoils (front ++ back) (front ++ (name, value) :: back)
  | again (front back : List (String × Value)) {name : String} (value : Value)
      (present : name ∈ (front ++ back).map Prod.fst) :
      Spoils (front ++ back) (front ++ (name, value) :: back)
  | otherKind (front back : List (String × Value)) {name : String} {value other : Value}
      (noList : ∀ items, other ≠ .list items) :
      Spoils (front ++ (name, value) :: back) (front ++ (name, other) :: back)
  | otherItem (front back : List (String × Value)) {name : String} {before after : List Value}
      {item other : Value} (noText : ∀ s, other ≠ .text s) :
      Spoils (front ++ (name, .list (before ++ item :: after)) :: back)
        (front ++ (name, .list (before ++ other :: after)) :: back)

theorem Field.name_injective : Function.Injective Field.name := by
  intro field other same
  cases field <;> cases other <;> first | rfl | exact absurd same (by decide)

theorem Field.find?_eq_some {name : String} {field : Field} :
    (Field.all.find? fun field => field.name == name) = some field ↔ field.name = name := by
  constructor
  · intro found
    exact beq_iff_eq.mp (List.find?_some (p := fun other : Field => other.name == name) found)
  · rintro rfl
    cases field <;> decide

theorem lookup_isSome_iff {field : Field} :
    (done.lookup field).isSome ↔ field ∈ done.map Prod.fst := by
  simp only [List.lookup_isSome_iff, List.mem_map, beq_iff_eq]
  simp only [eq_comm]

/-- A member adds a list just if it writes one under a new name. -/
theorem take?_eq_some {all : List (Field × List String)} :
    take? done member = some all ↔
      ∃ entry, member = written entry ∧ entry.1 ∉ done.map Prod.fst ∧ all = entry :: done := by
  obtain ⟨name, value⟩ := member
  simp only [take?, Option.bind_eq_bind, Option.bind_eq_some_iff, Field.find?_eq_some]
  constructor
  · rintro ⟨field, rfl, taken⟩
    split at taken
    · cases taken
    · next new =>
      obtain ⟨items, texts, ⟨⟩⟩ := Option.bind_eq_some_iff.mp taken
      obtain rfl := Value.texts?_eq_some.mp texts
      exact ⟨(field, items), rfl, mt lookup_isSome_iff.mpr new, rfl⟩
  · rintro ⟨⟨field, items⟩, ⟨rfl, rfl⟩, new, rfl⟩
    refine ⟨field, rfl, ?_⟩
    rw [if_neg (mt lookup_isSome_iff.mp new)]
    exact Option.bind_eq_some_iff.mpr ⟨items, Value.texts?_eq_some.mpr rfl, rfl⟩

/-- The members of an object add lists just if each writes one, all under different names. -/
theorem foldlM_take?_eq_some {all : List (Field × List String)}
    (distinct : (done.map Prod.fst).Nodup) :
    members.foldlM take? done = some all ↔ (all.map Prod.fst).Nodup ∧
      ∃ entries : List (Field × List String),
        members = entries.map written ∧ all = entries.reverse ++ done := by
  -- Each list is put in front of those that are done, so that the last one comes first in the end.
  induction members generalizing done all with
  | nil =>
      constructor
      · rintro ⟨⟩
        exact ⟨distinct, [], rfl, rfl⟩
      · rintro ⟨_, entries, none, rfl⟩
        rw [List.map_eq_nil_iff.mp none.symm]
        rfl
  | cons member members inductionHypothesis =>
      simp only [List.foldlM_cons, Option.bind_eq_bind, Option.bind_eq_some_iff, take?_eq_some]
      constructor
      · rintro ⟨_, ⟨entry, rfl, new, rfl⟩, taken⟩
        have distinctDone : ((entry :: done).map Prod.fst).Nodup :=
          List.nodup_cons.mpr ⟨new, distinct⟩
        obtain ⟨distinctAll, entries, rfl, rfl⟩ := (inductionHypothesis distinctDone).mp taken
        exact ⟨distinctAll, entry :: entries, rfl, by simp⟩
      · rintro ⟨distinctAll, entries, same, rfl⟩
        cases entries with
        | nil => cases same
        | cons entry entries =>
          obtain ⟨rfl, rfl⟩ := List.cons.inj same
          rw [List.reverse_cons, List.append_assoc, List.singleton_append] at distinctAll ⊢
          have distinctDone : ((entry :: done).map Prod.fst).Nodup := by
            rw [List.map_append] at distinctAll
            exact (List.nodup_append.mp distinctAll).2.1
          exact ⟨_, ⟨entry, rfl, (List.nodup_cons.mp distinctDone).1, rfl⟩,
            (inductionHypothesis distinctDone).mpr ⟨distinctAll, entries, rfl, rfl⟩⟩

/-- A text that writes an object is read just if each member writes a list, all under different
    names. -/
theorem ofJson_object_iff {text : String} (writes : WritesDocument (.object members) text.toList)
    (filter : ScanFilter) :
    ofJson text = .ok filter ↔ ∃ entries : List (Field × List String),
      (entries.map Prod.fst).Nodup ∧ members = entries.map written ∧
        filter = ofFields entries.reverse := by
  rw [ofJson_eq_ok_iff writes, Option.map_eq_some_iff]
  have noneDone : (([] : List (Field × List String)).map Prod.fst).Nodup := List.nodup_nil
  simp only [foldlM_take?_eq_some noneDone, List.append_nil]
  constructor
  · rintro ⟨_, ⟨distinct, entries, rfl, rfl⟩, rfl⟩
    rw [List.map_reverse, List.nodup_reverse] at distinct
    exact ⟨entries, distinct, rfl, rfl⟩
  · rintro ⟨entries, distinct, rfl, rfl⟩
    rw [← List.nodup_reverse, ← List.map_reverse] at distinct
    exact ⟨_, ⟨distinct, entries, rfl, rfl⟩, rfl⟩

/-! ### Both ways -/

theorem listOf_ofFields (entries : List (Field × List String)) (field : Field) :
    (ofFields entries).listOf field = (entries.lookup field).getD [] := by
  cases field <;> rfl

theorem eq_of_listOf {filter other : ScanFilter}
    (same : ∀ field, filter.listOf field = other.listOf field) : filter = other := by
  obtain ⟨checks, skipChecks, excludedPaths⟩ := filter
  obtain rfl : checks = _ := same .checks
  obtain rfl : skipChecks = _ := same .skipChecks
  obtain rfl : excludedPaths = _ := same .excludedPaths
  rfl

theorem lookup_listOf (filter : ScanFilter) {fields : List Field} {field : Field}
    (leftOut : field ∉ fields → filter.listOf field = []) :
    ((fields.map fun field => (field, filter.listOf field)).lookup field).getD [] =
      filter.listOf field := by
  induction fields with
  | nil => exact (leftOut List.not_mem_nil).symm
  | cons first fields inductionHypothesis =>
      rw [List.map_cons, List.lookup_cons]
      by_cases same : field = first
      · rw [same, beq_self_eq_true]
        rfl
      · rw [beq_false_of_ne same]
        exact inductionHypothesis fun absent =>
          leftOut (List.not_mem_cons_of_ne_of_not_mem same absent)

/-- The lists of a filter make up the filter, in any order and without some that are empty. -/
theorem ofFields_listOf (filter : ScanFilter) (fields : List Field)
    (leftOut : ∀ field, field ∉ fields → filter.listOf field = []) :
    ofFields (fields.map fun field => (field, filter.listOf field)) = filter :=
  eq_of_listOf fun field => (listOf_ofFields _ field).trans (lookup_listOf filter (leftOut field))

/-- Spoiled members do not write lists under different names. -/
theorem Spoils.refused {spoiled : List (String × Value)} (spoils : Spoils members spoiled)
    {entries : List (Field × List String)} (distinct : (entries.map Prod.fst).Nodup) :
    spoiled ≠ entries.map written := by
  intro same
  cases spoils with
  | @stranger front back name value unknown =>
      have within : (name, value) ∈ entries.map written :=
        same ▸ List.mem_append_right _ List.mem_cons_self
      obtain ⟨entry, -, writes⟩ := List.mem_map.mp within
      exact unknown entry.1 (congrArg Prod.fst writes)
  | @again front back name value present =>
      have names : (front ++ (name, value) :: back).map Prod.fst =
          (entries.map Prod.fst).map Field.name := by
        rw [same, List.map_map, List.map_map]
        rfl
      have once := distinct.map Field.name_injective
      rw [← names, List.map_append, List.map_cons, List.nodup_middle, List.nodup_cons,
        ← List.map_append] at once
      exact once.1 present
  | @otherKind front back name _ other noList =>
      have within : (name, other) ∈ entries.map written :=
        same ▸ List.mem_append_right _ List.mem_cons_self
      obtain ⟨entry, -, writes⟩ := List.mem_map.mp within
      exact noList _ (congrArg Prod.snd writes).symm
  | @otherItem front back name before after _ other noText =>
      have within : (name, .list (before ++ other :: after)) ∈ entries.map written :=
        same ▸ List.mem_append_right _ List.mem_cons_self
      obtain ⟨entry, -, writes⟩ := List.mem_map.mp within
      have items : entry.2.map .text = before ++ other :: after :=
        Value.list.inj (congrArg Prod.snd writes)
      have item : other ∈ entry.2.map .text := items ▸ List.mem_append_right _ List.mem_cons_self
      obtain ⟨s, -, isText⟩ := List.mem_map.mp item
      exact noText s isText.symm

/-- Every text that describes a filter is read back as this filter, and every text of an object that
    is spoiled by a stray, repeated or wrong part is refused. -/
theorem ofText_roundTrip {filter : ScanFilter} {members : List (String × Value)}
    (describes : Describes filter members) :
    (∀ text : String, WritesDocument (.object members) text.toList → ofText text = .ok filter) ∧
      ∀ (spoiled : List (String × Value)) (text : String), Spoils members spoiled →
        WritesDocument (.object spoiled) text.toList →
          ∃ message, ofText text = .error (.config ("Invalid scan filter: " ++ message)) := by
  constructor
  · intro text writes
    cases describes with
    | inOrder fields distinct leftOut =>
      have lists := ofFields_listOf filter fields.reverse fun field absent =>
        leftOut field (mt List.mem_reverse.mpr absent)
      have read : ofJson text = .ok filter := by
        refine (ofJson_object_iff writes filter).mpr
          ⟨fields.map fun field => (field, filter.listOf field), ?_, ?_, ?_⟩
        · rw [List.map_map]
          exact (List.map_id fields).symm ▸ distinct
        · rw [List.map_map]
          rfl
        · rw [← List.map_reverse, lists]
      rw [ofText, read]
      rfl
  · intro spoiled text spoils writes
    rw [ofText]
    cases read : ofJson text with
    | ok filter =>
      obtain ⟨entries, distinct, same, -⟩ := (ofJson_object_iff writes filter).mp read
      exact absurd same (spoils.refused distinct)
    | error e => exact ⟨e.message, rfl⟩

theorem ofText_roundTrip_escapes :
    ofText "\x7b\"skip_checks\":[\"X\"],\"checks\":[\"a\\\"\\\\\\u0001é😀\"]\x7d" =
        .ok { checks := ["a\"\\\x01é😀"], skipChecks := ["X"] } ∧
      ∃ message, ofText "\x7b\"skip_checks\":[\"X\"],\"skip\":null,\"checks\":[]\x7d" =
        .error (.config ("Invalid scan filter: " ++ message)) := by
  have describes : Describes { checks := ["a\"\\\x01é😀"], skipChecks := ["X"] }
      [written (.skipChecks, ["X"]), written (.checks, ["a\"\\\x01é😀"])] :=
    .inOrder [.skipChecks, .checks] (by decide) (by rintro ⟨⟩ <;> simp [listOf])
  have without : Describes { skipChecks := ["X"] }
      [written (.skipChecks, ["X"]), written (.checks, [])] :=
    .inOrder [.skipChecks, .checks] (by decide) (by rintro ⟨⟩ <;> simp [listOf])
  have spoils : Spoils [written (.skipChecks, ["X"]), written (.checks, [])]
      [written (.skipChecks, ["X"]), ("skip", .null), written (.checks, [])] :=
    .stranger [written (.skipChecks, ["X"])] _ .null (by rintro ⟨⟩ <;> decide)
  exact ⟨(ofText_roundTrip describes).1 _ (Json.writesDocument_compact (by decide)),
    (ofText_roundTrip without).2 _ _ spoils (Json.writesDocument_compact (by decide))⟩

end ScanFilter

end ConfigScan
