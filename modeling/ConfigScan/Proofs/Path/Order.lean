/-
Module: ConfigScan.Proofs.Path.Order
Purpose: The order of paths is a linear one of their components: two paths are in order one way or
  the other, unless they are two spellings of one path.
Main exports: Path.places, Path.lt_iff, Path.same_iff, Path.InOrder, Path.merge
-/
import ConfigScan.Path.Basic
import Mathlib

namespace ConfigScan.Path

namespace Component

/-- Where a component stands in the order: its kind, and among names its bytes. -/
def place : Component → Nat ×ₗ List Nat
  | .name bytes => toLex (3, bytes.map UInt8.toNat)
  | component => toLex (component.rank, [])

theorem toNat_injective : Function.Injective UInt8.toNat := fun _ _ => UInt8.toNat_inj.mp

theorem place_injective : Function.Injective place := by
  intro component other same
  cases component with
  | name bytes =>
      cases other with
      | name otherBytes =>
          have sameBytes : bytes.map UInt8.toNat = otherBytes.map UInt8.toNat :=
            (Prod.mk.inj (toLex_inj.mp same)).2
          rw [toNat_injective.list_map sameBytes]
      | _ => simp [place, rank] at same
  | _ => cases other <;> simp [place, rank] at same ⊢

/-- Names in order are their bytes in order. -/
theorem map_toNat_lt_iff (bytes others : Name) :
    bytes < others ↔ bytes.map UInt8.toNat < others.map UInt8.toNat := by
  induction bytes generalizing others with
  | nil => cases others <;> simp
  | cons byte rest inductionHypothesis =>
      cases others with
      | nil => simp
      | cons other otherRest =>
          rw [List.map_cons, List.map_cons, List.cons_lt_cons_iff, List.cons_lt_cons_iff,
            inductionHypothesis, UInt8.lt_iff_toNat_lt, toNat_injective.eq_iff]

theorem lt_iff (component other : Component) :
    component.lt other = true ↔ component.place < other.place := by
  rw [Prod.Lex.lt_iff]
  cases component <;> cases other <;> simp [lt, place, rank, map_toNat_lt_iff]

end Component

theorem componentsLt_iff (components others : List Component) :
    componentsLt components others = true ↔
      components.map Component.place < others.map Component.place := by
  induction components generalizing others with
  | nil => cases others <;> simp [componentsLt]
  | cons component rest inductionHypothesis =>
      cases others with
      | nil => simp [componentsLt]
      | cons other otherRest =>
          rw [componentsLt, List.map_cons, List.map_cons, List.cons_lt_cons_iff,
            Bool.or_eq_true, Bool.and_eq_true, beq_iff_eq, inductionHypothesis, Component.lt_iff,
            Component.place_injective.eq_iff]

/-- Where a path stands in the order of paths. -/
def places (path : Path) : List (Nat ×ₗ List Nat) := path.components.map Component.place

theorem lt_iff {path other : Path} : path.lt other = true ↔ path.places < other.places :=
  componentsLt_iff _ _

theorem same_iff_components {path other : Path} :
    path.same other = true ↔ path.components = other.components := by
  rw [same, beq_iff_eq]

theorem same_iff {path other : Path} : path.same other = true ↔ path.places = other.places := by
  rw [same_iff_components, places, places]
  exact Component.place_injective.list_map.eq_iff.symm

theorem same_self (path : Path) : path.same path = true := same_iff.mpr rfl

/-- A path is not in front of another spelling of it. -/
theorem not_lt_of_same {path other : Path} (same : path.same other = true) :
    ¬ path.lt other = true :=
  fun before => ne_of_lt (lt_iff.mp before) (same_iff.mp same)

/-- The second path is not in front of the first one. -/
theorem not_lt_iff {path other : Path} :
    (!other.lt path) = true ↔ path.places ≤ other.places := by
  rw [← not_lt, ← lt_iff]
  simp

theorem not_lt_trans (path other third : Path) (before : (!other.lt path) = true)
    (behind : (!third.lt other) = true) : (!third.lt path) = true :=
  not_lt_iff.mpr (le_trans (not_lt_iff.mp before) (not_lt_iff.mp behind))

theorem not_lt_total (path other : Path) : (!other.lt path || !path.lt other) = true := by
  rw [Bool.or_eq_true, not_lt_iff, not_lt_iff]
  exact le_total _ _

/-- The paths are in order, and no two of them are one path. -/
def InOrder (paths : List Path) : Prop := paths.Pairwise fun path later => path.lt later = true

theorem InOrder.places {paths : List Path} (inOrder : InOrder paths) :
    paths.Pairwise fun path later => path.places < later.places :=
  inOrder.imp lt_iff.mp

theorem InOrder.different {paths : List Path} (inOrder : InOrder paths) :
    paths.Pairwise fun path later => path.places ≠ later.places :=
  inOrder.places.imp ne_of_lt

theorem InOrder.sorted {paths : List Path} (inOrder : InOrder paths) :
    paths.Pairwise fun path later => (!later.lt path) = true :=
  inOrder.places.imp fun before => not_lt_iff.mpr (le_of_lt before)

/-- Paths that are sorted, and no two of which are one path, are in order. -/
theorem inOrder_of_sorted {paths : List Path}
    (sorted : paths.Pairwise fun path later => (!later.lt path) = true)
    (different : paths.Pairwise fun path later => path.places ≠ later.places) :
    InOrder paths := by
  refine (sorted.and different).imp ?_
  rintro path later ⟨before, unequal⟩
  exact lt_iff.mpr (lt_of_le_of_ne (not_lt_iff.mp before) unequal)

/-- Sorting puts different paths in order. -/
theorem inOrder_mergeSort {paths : List Path}
    (different : paths.Pairwise fun path later => path.places ≠ later.places) :
    InOrder (paths.mergeSort fun path later => !later.lt path) :=
  inOrder_of_sorted (List.pairwise_mergeSort not_lt_trans not_lt_total paths)
    ((List.Perm.pairwise_iff Ne.symm (List.mergeSort_perm _ _)).mpr different)

/-- Lists in order with the same members are one list. -/
theorem InOrder.eq_of_mem_iff {paths others : List Path} (inOrder : InOrder paths)
    (othersInOrder : InOrder others) (alike : ∀ path, path ∈ paths ↔ path ∈ others) :
    paths = others := by
  have nodup : paths.Nodup :=
    inOrder.different.imp fun different same => different (congrArg Path.places same)
  have othersNodup : others.Nodup :=
    othersInOrder.different.imp fun different same => different (congrArg Path.places same)
  have permuted : paths.Perm others := (List.perm_ext_iff_of_nodup nodup othersNodup).mpr alike
  refine List.Perm.eq_of_pairwise ?_ inOrder.places othersInOrder.places permuted
  intro path later _ _ before behind
  exact absurd behind (lt_asymm before)

/-- The paths of both lists in path order. A path of both is spelled as in the first one. -/
def merge (first later : List Path) : List Path :=
  List.merge first (later.filter fun path => !first.any (·.same path))
    fun path other => !other.lt path

theorem mem_merge {first later : List Path} {path : Path} :
    path ∈ merge first later ↔
      path ∈ first ∨ (path ∈ later ∧ ∀ other ∈ first, other.same path = false) := by
  rw [merge, List.mem_merge, List.mem_filter]
  simp

/-- No path of the first list comes again from the other one. -/
theorem InOrder.different_merge {first later : List Path} (inOrder : InOrder first)
    (laterInOrder : InOrder later) :
    (Path.merge first later).Pairwise fun path other => path.places ≠ other.places := by
  have new : InOrder (later.filter fun path => !first.any (·.same path)) := laterInOrder.filter _
  refine (List.Perm.pairwise_iff Ne.symm (List.merge_perm_append _)).mpr
    (List.pairwise_append.mpr ⟨inOrder.different, new.different, ?_⟩)
  intro path inFirst other isNew same
  obtain ⟨_, notMet⟩ := List.mem_filter.mp isNew
  have met : first.any (·.same other) = true :=
    List.any_eq_true.mpr ⟨path, inFirst, same_iff.mpr same⟩
  rw [met] at notMet
  cases notMet

theorem InOrder.merge {first later : List Path} (inOrder : InOrder first)
    (laterInOrder : InOrder later) : InOrder (merge first later) := by
  have new : InOrder (later.filter fun path => !first.any (·.same path)) := laterInOrder.filter _
  refine inOrder_of_sorted ?_ (inOrder.different_merge laterInOrder)
  exact List.pairwise_merge not_lt_trans not_lt_total _ _ inOrder.sorted new.sorted

end ConfigScan.Path
