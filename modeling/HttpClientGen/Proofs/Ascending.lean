import HttpClientGen.Contents
import Mathlib.Data.List.Induction
import Mathlib.Data.List.Sort
import Mathlib.Data.String.Basic

/-!
# Ascending lists

A list that is built with `ascending` is in strictly ascending order, has the keys of the list that
it is built from, and no element that was not in that list. Keys that are elements themselves
determine the result: it does not depend on the order in which they came.
-/

namespace HttpClientGen

variable {α : Type} {key : α → String}

theorem mem_of_mem_insertAscending {new x : α} {xs : List α}
    (member : x ∈ insertAscending key new xs) : x = new ∨ x ∈ xs := by
  induction xs with
  | nil => simpa [insertAscending] using member
  | cons y ys ih =>
    rw [insertAscending] at member
    split at member
    · simpa using member
    · split at member
      · exact Or.inr member
      · rcases List.mem_cons.mp member with rfl | later
        · exact Or.inr List.mem_cons_self
        · exact (ih later).imp_right (List.mem_cons_of_mem y)

theorem mem_map_insertAscending_iff {new : α} {xs : List α} {text : String} :
    text ∈ (insertAscending key new xs).map key ↔ text = key new ∨ text ∈ xs.map key := by
  induction xs with
  | nil => simp [insertAscending]
  | cons y ys ih =>
    rw [insertAscending]
    split
    · simp
    · split
      · next same => simp [same]
      · rw [List.map_cons, List.mem_cons, ih, List.map_cons, List.mem_cons, or_left_comm]

/-- An element takes its place in front of the first one with a greater key. -/
theorem pairwise_insertAscending (new : α) {xs : List α}
    (sorted : xs.Pairwise (key · < key ·)) :
    (insertAscending key new xs).Pairwise (key · < key ·) := by
  induction xs with
  | nil => simp [insertAscending]
  | cons y ys ih =>
    obtain ⟨least, sortedRest⟩ := List.pairwise_cons.mp sorted
    rw [insertAscending]
    split
    · next before =>
      refine List.pairwise_cons.mpr ⟨fun z member => ?_, sorted⟩
      rcases List.mem_cons.mp member with rfl | later
      · exact before
      · exact lt_trans before (least z later)
    · next notBefore =>
      split
      · exact sorted
      · next differ =>
        have behind : key y < key new := lt_of_le_of_ne (not_lt.mp notBefore) (Ne.symm differ)
        refine List.pairwise_cons.mpr ⟨fun z member => ?_, ih sortedRest⟩
        rcases mem_of_mem_insertAscending member with rfl | later
        · exact behind
        · exact least z later

/-- What holds of a list without elements, and still holds after any insertion, holds of every list
that is built by insertions. -/
theorem ascending_induction {P : List α → List α → Prop} (none : P [] [])
    (insert : ∀ xs x sorted, P xs sorted → P (xs ++ [x]) (insertAscending key x sorted))
    (xs : List α) : P xs (ascending key xs) := by
  induction xs using List.reverseRecOn with
  | nil => exact none
  | append_singleton xs x ih =>
    rw [ascending, List.foldl_append]
    exact insert xs x _ ih

theorem mem_of_mem_ascending {xs : List α} {x : α} (member : x ∈ ascending key xs) : x ∈ xs := by
  revert member
  refine ascending_induction (P := fun xs sorted => x ∈ sorted → x ∈ xs) id ?_ xs
  intro xs new sorted ih member
  rcases mem_of_mem_insertAscending member with rfl | before
  · exact List.mem_append_right xs (List.mem_singleton_self _)
  · exact List.mem_append_left [new] (ih before)

/-- No key is lost, though of several elements with one key only one stays. -/
theorem mem_map_ascending_iff {xs : List α} {text : String} :
    text ∈ (ascending key xs).map key ↔ text ∈ xs.map key := by
  refine ascending_induction
    (P := fun xs sorted => text ∈ sorted.map key ↔ text ∈ xs.map key) Iff.rfl ?_ xs
  intro xs new sorted ih
  rw [mem_map_insertAscending_iff, ih, List.map_append, List.mem_append, or_comm]
  simp

/-- Where no two elements share a key, none is lost. -/
theorem mem_ascending_iff {xs : List α} (apart : ∀ x ∈ xs, ∀ y ∈ xs, key x = key y → x = y)
    {x : α} : x ∈ ascending key xs ↔ x ∈ xs := by
  refine ⟨mem_of_mem_ascending, fun member => ?_⟩
  obtain ⟨other, listed, same⟩ :=
    List.mem_map.mp (mem_map_ascending_iff.mpr (List.mem_map_of_mem member))
  rwa [apart x member other (mem_of_mem_ascending listed) same.symm]

theorem pairwise_ascending (xs : List α) : (ascending key xs).Pairwise (key · < key ·) := by
  refine ascending_induction (P := fun _ sorted => sorted.Pairwise (key · < key ·)) .nil ?_ xs
  intro _ new _ sorted
  exact pairwise_insertAscending new sorted

theorem mem_ascending_id_iff {xs : List String} {text : String} :
    text ∈ ascending id xs ↔ text ∈ xs := by
  have keys : text ∈ (ascending id xs).map id ↔ text ∈ xs.map id := mem_map_ascending_iff
  simpa using keys

/-- Ascending lists of texts are equal as soon as they have the same members. -/
theorem ascending_id_congr {xs ys : List String} (same : ∀ text, text ∈ xs ↔ text ∈ ys) :
    ascending id xs = ascending id ys := by
  refine (pairwise_ascending xs).eq_of_mem_iff (pairwise_ascending ys) fun text => ?_
  rw [mem_ascending_id_iff, mem_ascending_id_iff, same]

end HttpClientGen
