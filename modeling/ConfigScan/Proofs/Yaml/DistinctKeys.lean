/-
Module: ConfigScan.Proofs.Yaml.DistinctKeys
Purpose: No mapping in the value of a text has a key twice, since a text that repeats one has no
  value.
Main exports: Value.Distinct, Expansion.Yields, Value.distinct_of_ofText?
-/
import ConfigScan.Proofs.Yaml.MarkingImage

namespace ConfigScan.Yaml

namespace Value

/-- The keys of every mapping that the value holds are different values. -/
def Distinct (value : Value) : Prop :=
  ∀ pairs, value.Holds pairs → pairs.Pairwise fun entry later => entry.1.same later.1 = false

/-- A value that is neither a collection nor under a tag. -/
def isLeaf : Value → Bool
  | .seq _ | .map _ | .tagged _ _ => false
  | _ => true

theorem distinct_of_isLeaf {value : Value} (leaf : value.isLeaf = true) : value.Distinct := by
  intro pairs held
  cases held <;> cases leaf

theorem Distinct.tagged {value : Value} (distinct : value.Distinct) (tag : String) :
    (Value.tagged tag value).Distinct := by
  intro pairs held
  cases held with
  | tagged inner => exact distinct pairs inner

theorem distinct_seq {items : List Value} (distinct : ∀ item ∈ items, item.Distinct) :
    (Value.seq items).Distinct := by
  intro pairs held
  cases held with
  | item member inner => exact distinct _ member pairs inner

theorem distinct_map {entries : List (Value × Value)}
    (apart : entries.Pairwise fun entry later => entry.1.same later.1 = false)
    (distinct : ∀ entry ∈ entries, entry.2.Distinct) : (Value.map entries).Distinct := by
  intro pairs held
  cases held with
  | here => exact apart
  | entry member _ inner => exact distinct _ member pairs inner

end Value

/-! ### Scalars -/

namespace Scalar

theorem isLeaf_integerValue? {text : List Char} {value : Value}
    (read : integerValue? text = some (some value)) : value.isLeaf = true := by
  rw [integerValue?] at read
  split at read
  · split at read
    · cases read
      rfl
    · split at read <;> cases read
  · cases read

theorem isLeaf_plainValue? {text : List Char} {value : Value}
    (read : plainValue? text = some value) : value.isLeaf = true := by
  simp only [plainValue?] at read
  split at read
  · cases read
    rfl
  · split at read
    · cases read
      rfl
    · split at read
      · next integer => exact isLeaf_integerValue? (integer.trans (congrArg some read))
      · split at read <;> cases read <;> rfl

theorem isLeaf_core {tag : CoreTag} {text : List Char} {value : Value}
    (read : tag.value? text = some value) : value.isLeaf = true := by
  cases tag with
  | bool =>
      obtain ⟨_, _, rfl⟩ := Option.map_eq_some_iff.mp read
      rfl
  | int => exact isLeaf_integerValue? (Option.join_eq_some_iff.mp read)
  | float =>
      obtain ⟨_, _, rfl⟩ := Option.map_eq_some_iff.mp read
      rfl
  | null =>
      rw [CoreTag.value?] at read
      split at read <;> cases read
      rfl

/-- A scalar is never read as a collection. -/
theorem isLeaf_value? {tag : Option (List UInt8)} {plain : Bool} {text : List Char}
    {value : Value} (read : value? tag plain text = some value) : value.isLeaf = true := by
  unfold value? at read
  split at read
  · split at read
    · exact isLeaf_plainValue? read
    · cases read
      rfl
  · split at read
    · exact isLeaf_core read
    · split at read
      · exact isLeaf_plainValue? read
      · cases read
        rfl

end Scalar

/-! ### Trees -/

namespace Expansion

/-- Whatever the computation yields has the property. -/
def Yields {α : Type} (property : α → Prop) (computation : Expand α) : Prop :=
  ∀ left result, computation.run left = some result → property result.1

namespace Yields

variable {α β : Type} {property : α → Prop} {other : β → Prop}

theorem pure {result : α} (holds : property result) : Yields property (Pure.pure result) := by
  intro left yielded run
  cases run
  exact holds

theorem failure : Yields property (failure : Expand α) := by
  intro left yielded run
  cases run

theorem lift {result : Option α} (holds : ∀ value, result = some value → property value) :
    Yields property (liftM result : Expand α) := by
  intro left yielded run
  cases result with
  | none => cases run
  | some value =>
      cases run
      exact holds value rfl

theorem bind {computation : Expand α} {later : α → Expand β}
    (first : Yields property computation)
    (rest : ∀ value, property value → Yields other (later value)) :
    Yields other (computation >>= later) := by
  intro left yielded run
  rw [StateT.run_bind] at run
  obtain ⟨middle, firstRun, restRun⟩ := Option.bind_eq_some_iff.mp run
  exact rest middle.1 (first left middle firstRun) middle.2 yielded restRun

/-- Nothing is known about what a computation yields. -/
theorem trivial (computation : Expand α) : Yields (fun _ => True) computation :=
  fun _ _ _ => True.intro

theorem mapM {step : β → Expand α} (each : ∀ item, Yields property (step item))
    (items : List β) : Yields (fun results => ∀ result ∈ results, property result)
      (items.mapM step) := by
  induction items with
  | nil => exact pure (by simp)
  | cons item rest inductionHypothesis =>
      rw [List.mapM_cons]
      refine bind (each item) fun result holds => ?_
      refine bind inductionHypothesis fun results hold => ?_
      exact pure (List.forall_mem_cons.mpr ⟨holds, hold⟩)

end Yields

/-- Entries are read one after the other, and none has a key that came before. -/
theorem yields_entries {key value : Tree → Expand Value}
    (member : ∀ tree, Yields Value.Distinct (value tree)) (pairs : List (Tree × Tree)) :
    ∀ done : List (Value × Value),
      done.Pairwise (fun entry later => entry.1.same later.1 = false) →
      (∀ entry ∈ done, entry.2.Distinct) →
      Yields (fun all => (Value.map all).Distinct) (entries key value done pairs) := by
  induction pairs with
  | nil =>
      intro done apart distinct
      exact .pure (Value.distinct_map apart distinct)
  | cons pair rest inductionHypothesis =>
      intro done apart distinct
      obtain ⟨k, v⟩ := pair
      rw [entries]
      refine Yields.bind (Yields.trivial (key k)) fun name _ => ?_
      by_cases repeated : (done.any fun entry => entry.1.same name) = true
      · rw [if_pos repeated]
        exact .failure
      · rw [if_neg repeated]
        refine Yields.bind (member v) fun content contentDistinct => ?_
        have fresh : ∀ entry ∈ done, entry.1.same name = false := by
          intro entry isDone
          by_contra same
          exact repeated (List.any_eq_true.mpr ⟨entry, isDone, by simpa using same⟩)
        apply inductionHypothesis
        · refine List.pairwise_append.mpr ⟨apart, List.pairwise_singleton _ _, ?_⟩
          intro entry isDone later isNew
          rw [List.mem_singleton.mp isNew]
          exact fresh entry isDone
        · intro entry isEntry
          rcases List.mem_append.mp isEntry with isDone | isNew
          · exact distinct entry isDone
          · rw [List.mem_singleton.mp isNew]
            exact contentDistinct

variable {whole : Reading}

theorem yields_collection (member : ∀ tagDone tree, Yields Value.Distinct (whole tagDone tree))
    (tagDone : Bool) : ∀ tree, Yields Value.Distinct (collection whole tagDone tree)
  | .alias _ => .failure
  | .scalar _ _ _ _ => .failure
  | .seq _ _ items =>
      .bind (Yields.mapM (member false) items) fun _ distinct =>
        .pure (Value.distinct_seq distinct)
  | .map _ _ pairs =>
      .bind (yields_entries (member false) pairs [] List.Pairwise.nil (by simp))
        fun _ distinct => .pure distinct

theorem yields_content (member : ∀ tagDone tree, Yields Value.Distinct (whole tagDone tree))
    (tagDone : Bool) : ∀ tree, Yields Value.Distinct (content whole tagDone tree)
  | .scalar _ _ _ _ =>
      .lift fun _ read => Value.distinct_of_isLeaf (Scalar.isLeaf_value? read)
  | .alias _ => member tagDone _
  | .seq _ _ _ => member tagDone _
  | .map _ _ _ => member tagDone _

theorem yields_node (member : ∀ tagDone tree, Yields Value.Distinct (whole tagDone tree))
    (tagDone : Bool) (tree : Tree) : Yields Value.Distinct (node whole tagDone tree) := by
  cases tagDone with
  | true => exact yields_content member true tree
  | false =>
      rw [node]
      split
      · next name _ =>
        refine Yields.bind (yields_content member true tree) fun value distinct => ?_
        exact .pure (distinct.tagged name)
      · exact yields_content member false tree

theorem yields_read (anchored : List (Nat × Tree))
    (member : ∀ tagDone tree, Yields Value.Distinct (whole tagDone tree)) (tagDone : Bool) :
    ∀ tree, Yields Value.Distinct (read anchored whole tagDone tree)
  | .alias id =>
      .bind (Yields.trivial (follow anchored id)) fun target _ => yields_node member false target
  | .scalar _ _ _ _ => yields_node member tagDone _
  | .seq _ _ _ => yields_node member tagDone _
  | .map _ _ _ => yields_node member tagDone _

/-- However deep collections may be nested, those that are read have no key twice. -/
theorem yields_nested (anchored : List (Nat × Tree)) (depth : Nat) :
    ∀ tagDone tree, Yields Value.Distinct (nested anchored depth tagDone tree) := by
  induction depth with
  | zero => exact yields_read anchored fun _ _ => .failure
  | succ depth inductionHypothesis =>
      exact yields_read anchored (yields_collection inductionHypothesis)

end Expansion

/-- No mapping in the value of a text has a key twice. -/
theorem Value.distinct_of_ofText? {text : List Char} {value : Value}
    (read : ofText? text = some value) : value.Distinct := by
  simp only [ofText?, bind, Option.bind_eq_some_iff] at read
  obtain ⟨tokens, _, tree, _, expanded⟩ := read
  obtain ⟨result, run, rfl⟩ := Option.map_eq_some_iff.mp expanded
  exact Expansion.yields_nested tree.anchored Expansion.maxDepth false tree _ result run

end ConfigScan.Yaml
