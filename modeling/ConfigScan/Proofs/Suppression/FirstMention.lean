/-
Module: ConfigScan.Proofs.Suppression.FirstMention
Purpose: Suppressions keep the first mention of each check. Those of more lines are those of the
  first lines and then the new ones of the others.
Main exports: Suppressions.Keeps, Suppressions.keeps_insertAll, Suppressions.entries_insertAll,
  Suppressions.collect_keeps_first
-/
import ConfigScan.Suppression
import Mathlib.Data.List.Induction
import Mathlib.Data.List.Nodup

namespace ConfigScan.Suppressions

/-- The ids of the checks that are switched off, in order. -/
def ids (s : Suppressions) : List String := s.entries.map (·.1)

/-- The directives of a file in order: line by line, and from left to right on each line. -/
def directives (lines : List RawLine) : List (String × Option String) :=
  lines.flatMap fun line => Directive.ofLine line.text

variable {s : Suppressions} {found : List (String × Option String)} {id : String}
variable {comment : Option String}

/-! ### One insertion -/

theorem contains_iff : s.contains id = true ↔ id ∈ s.ids := by
  simp [contains, ids]

theorem exists_entry_of_mem (known : id ∈ s.ids) :
    ∃ entry, s.entries.find? (·.1 == id) = some entry := by
  rw [← Option.isSome_iff_exists, List.isSome_find?]
  exact contains_iff.mpr known

theorem insert_of_mem (known : id ∈ s.ids) : s.insert id comment = s :=
  if_pos (contains_iff.mpr known)

theorem entries_insert_of_not_mem (new : id ∉ s.ids) :
    (s.insert id comment).entries = s.entries ++ [(id, comment)] := by
  rw [insert, if_neg (mt contains_iff.mp new)]

theorem ids_insert_of_not_mem (new : id ∉ s.ids) : (s.insert id comment).ids = s.ids ++ [id] := by
  rw [ids, entries_insert_of_not_mem new, List.map_append]
  rfl

/-! ### First mentions -/

/-- The checks that are switched off are those that `found` mentions, in the order of their first
    mention, and each has the entry of that mention. -/
structure Keeps (s : Suppressions) (found : List (String × Option String)) : Prop where
  ids_eq : s.ids = (found.map (·.1)).eraseDups
  nodup : s.ids.Nodup
  entry_eq : ∀ id, s.entries.find? (·.1 == id) = found.find? (·.1 == id)

theorem Keeps.nil : Keeps {} [] := ⟨rfl, List.nodup_nil, fun _ => rfl⟩

theorem Keeps.mem_ids_iff (keeps : s.Keeps found) : id ∈ s.ids ↔ id ∈ found.map (·.1) := by
  rw [keeps.ids_eq, List.mem_eraseDups]

theorem eraseDups_concat (texts : List String) (text : String) :
    (texts ++ [text]).eraseDups =
      if text ∈ texts then texts.eraseDups else texts.eraseDups ++ [text] := by
  rw [List.eraseDups_append]
  by_cases known : text ∈ texts
  · simp [List.removeAll, known]
  · simp [List.removeAll, known, List.eraseDups_cons]

/-- A check that was mentioned before keeps the entry of its first mention. -/
theorem Keeps.again (keeps : s.Keeps found) (known : id ∈ s.ids) (comment : Option String) :
    s.Keeps (found ++ [(id, comment)]) where
  ids_eq := by
    rw [List.map_append, List.map_singleton, eraseDups_concat, if_pos (keeps.mem_ids_iff.mp known)]
    exact keeps.ids_eq
  nodup := keeps.nodup
  entry_eq := by
    intro other
    rw [List.find?_append, ← keeps.entry_eq other]
    by_cases same : id = other
    · subst same
      -- the entry that is there already stands in front of the new one
      obtain ⟨entry, first⟩ := exists_entry_of_mem known
      rw [first, Option.some_or]
    · simp [same]

/-- A check that is mentioned for the first time has the entry of this mention. -/
theorem Keeps.new (keeps : s.Keeps found) (isNew : id ∉ s.ids) (comment : Option String) :
    (s.insert id comment).Keeps (found ++ [(id, comment)]) where
  ids_eq := by
    rw [List.map_append, List.map_singleton, eraseDups_concat,
      if_neg (mt keeps.mem_ids_iff.mpr isNew), ids_insert_of_not_mem isNew, keeps.ids_eq]
  nodup := by
    rw [ids_insert_of_not_mem isNew, ← List.concat_eq_append]
    exact keeps.nodup.concat isNew
  entry_eq := by
    intro other
    rw [entries_insert_of_not_mem isNew, List.find?_append, List.find?_append,
      keeps.entry_eq other]

/-- One more mention. -/
theorem Keeps.insert (keeps : s.Keeps found) (id : String) (comment : Option String) :
    (s.insert id comment).Keeps (found ++ [(id, comment)]) := by
  by_cases known : id ∈ s.ids
  · rw [insert_of_mem known]
    exact keeps.again known comment
  · exact keeps.new known comment

/-- Mentions that are inserted one after another. -/
theorem keeps_insertAll (found : List (String × Option String)) :
    (insertAll {} found).Keeps found := by
  induction found using List.reverseRecOn with
  | nil => exact .nil
  | append_singleton found entry inductionHypothesis =>
      rw [insertAll, List.foldl_append]
      exact inductionHypothesis.insert entry.1 entry.2

/-! ### Merging -/

/-- `whole` has what `s` has, and behind that what only `later` has. -/
def Merges (s later whole : Suppressions) : Prop :=
  whole.entries = s.entries ++ later.entries.filter fun entry => entry.1 ∉ s.ids

variable {later whole : Suppressions}

theorem Merges.mem_ids_iff (merges : Merges s later whole) :
    id ∈ whole.ids ↔ id ∈ s.ids ∨ id ∈ later.ids := by
  have ids_eq : whole.ids = s.ids ++ later.ids.filter fun id => id ∉ s.ids := by
    rw [ids, merges, List.map_append, ids, ids, List.filter_map]
    rfl
  rw [ids_eq, List.mem_append, List.mem_filter, decide_eq_true_eq]
  by_cases known : id ∈ s.ids <;> simp [known]

/-- One more mention changes both sides alike. -/
theorem Merges.insert (merges : Merges s later whole) (id : String) (comment : Option String) :
    Merges s (later.insert id comment) (whole.insert id comment) := by
  by_cases inLater : id ∈ later.ids
  · rw [insert_of_mem inLater, insert_of_mem (merges.mem_ids_iff.mpr (Or.inr inLater))]
    exact merges
  · rw [Merges, entries_insert_of_not_mem inLater, List.filter_append]
    by_cases inFront : id ∈ s.ids
    · rw [insert_of_mem (merges.mem_ids_iff.mpr (Or.inl inFront)), merges]
      simp [inFront]
    · have isNew : id ∉ whole.ids := by
        rw [merges.mem_ids_iff, not_or]
        exact ⟨inFront, inLater⟩
      rw [entries_insert_of_not_mem isNew, merges, List.append_assoc]
      simp [inFront]

/-- Insertions into suppressions that are there already. -/
theorem merges_insertAll (s : Suppressions) (found : List (String × Option String)) :
    Merges s (insertAll {} found) (s.insertAll found) := by
  induction found using List.reverseRecOn with
  | nil => exact (List.append_nil _).symm
  | append_singleton found entry inductionHypothesis =>
      rw [insertAll, insertAll, List.foldl_append, List.foldl_append]
      exact inductionHypothesis.insert entry.1 entry.2

/-- Nothing is lost and no comment changes when more is merged in. -/
theorem Merges.keeps (merges : Merges s later whole) (known : s.contains id = true) :
    whole.contains id = true ∧ whole.commentFor? id = s.commentFor? id := by
  have inFront : id ∈ s.ids := contains_iff.mp known
  have inWhole : id ∈ whole.ids := merges.mem_ids_iff.mpr (Or.inl inFront)
  obtain ⟨entry, first⟩ := exists_entry_of_mem inFront
  refine ⟨contains_iff.mpr inWhole, ?_⟩
  rw [commentFor?, commentFor?, merges, List.find?_append, first, Option.some_or]

/-- Suppressions merged with themselves stay what they are. -/
theorem Merges.eq_of_self (merges : Merges s s whole) : whole = s := by
  have nothing : s.entries.filter (fun entry => entry.1 ∉ s.ids) = [] := by
    rw [List.filter_eq_nil_iff]
    intro entry member
    have known : entry.1 ∈ s.ids := List.mem_map_of_mem member
    simp [known]
  have entries_eq : whole.entries = s.entries := by rw [merges, nothing, List.append_nil]
  cases whole
  cases s
  exact congrArg mk entries_eq

/-! ### The lines of a file -/

theorem collect_append_eq_insertAll (lines later : List RawLine) :
    collect (lines ++ later) = (collect lines).insertAll (directives later) := by
  rw [collect, List.foldl_append, ← collect]
  induction later using List.reverseRecOn with
  | nil => rfl
  | append_singleton later line inductionHypothesis =>
      rw [List.foldl_append, inductionHypothesis, directives, directives, List.flatMap_append,
        List.flatMap_singleton, insertAll, insertAll, List.foldl_append]
      rfl

theorem collect_eq_insertAll (lines : List RawLine) :
    collect lines = insertAll {} (directives lines) :=
  collect_append_eq_insertAll [] lines

theorem merges_collect (lines later : List RawLine) :
    Merges (collect lines) (collect later) (collect (lines ++ later)) := by
  rw [collect_append_eq_insertAll, collect_eq_insertAll later]
  exact merges_insertAll _ _

theorem keeps_collect (lines : List RawLine) : (collect lines).Keeps (directives lines) := by
  rw [collect_eq_insertAll]
  exact keeps_insertAll _

/-- Later lines add the entries of the checks that the lines in front of them do not switch off.
    So each check is there once, in the order of the first mentions, with the comment of its first
    mention or without one if that has none. More lines take nothing away and change no comment, and
    the same lines again change nothing. -/
theorem collect_keeps_first (lines later : List RawLine) :
    (collect (lines ++ later)).entries =
        (collect lines).entries ++
          (collect later).entries.filter (fun entry => entry.1 ∉ (collect lines).ids) ∧
      (collect lines).ids = ((directives lines).map (·.1)).eraseDups ∧
      (collect lines).ids.Nodup ∧
      (∀ id, (collect lines).contains id = true ↔ id ∈ (directives lines).map (·.1)) ∧
      (∀ id, (collect lines).commentFor? id =
        ((directives lines).find? (·.1 == id)).bind (·.2)) ∧
      (∀ id, (collect lines).contains id = true →
        (collect (lines ++ later)).contains id = true ∧
          (collect (lines ++ later)).commentFor? id = (collect lines).commentFor? id) ∧
      collect (lines ++ lines) = collect lines := by
  have keeps := keeps_collect lines
  refine ⟨merges_collect lines later, keeps.ids_eq, keeps.nodup, ?_, ?_, ?_, ?_⟩
  · intro id
    rw [contains_iff]
    exact keeps.mem_ids_iff
  · intro id
    rw [commentFor?, keeps.entry_eq]
  · intro id known
    exact (merges_collect lines later).keeps known
  · exact (merges_collect lines lines).eq_of_self

/-- The first mention of `A` has no comment, and the later one does not give it any. -/
example :
    collect [⟨1, "# checkov:skip=A confcheck:skip=B: why"⟩, ⟨2, "# checkov:skip=A: late"⟩] =
      ⟨[("A", none), ("B", some "why")]⟩ := by decide +kernel

end ConfigScan.Suppressions
