import HttpClientGen.Proofs.Ascending
import Mathlib.Algebra.Order.BigOperators.Group.List
import Mathlib.Data.List.Count
import Mathlib.Data.List.Flatten

/-!
# Lists with repetitions

A list repeats a shorter one if it is the shorter one with some elements put in a second time, each
somewhere behind the place where it stood first. What is derived from the elements one by one repeats
in the same way. A list without its later repetitions is recovered in what is derived from it exactly
if the elements that are repeated contribute nothing.
-/

namespace HttpClientGen

variable {α β : Type}

/-- The first list is the second one with repetitions, where the elements in `seen` have been there
before. -/
inductive Repeats : List α → List α → List α → Prop
  | nil {seen : List α} : Repeats seen [] []
  | keep {seen longer shorter : List α} {x : α} (rest : Repeats (x :: seen) longer shorter) :
      Repeats seen (x :: longer) (x :: shorter)
  | drop {seen longer shorter : List α} {x : α} (known : x ∈ seen)
      (rest : Repeats seen longer shorter) : Repeats seen (x :: longer) shorter

namespace Repeats

variable {seen longer shorter : List α}

theorem mono (repeats : Repeats seen longer shorter) {more : List α} (subset : seen ⊆ more) :
    Repeats more longer shorter := by
  induction repeats generalizing more with
  | nil => exact .nil
  | keep _ ih => exact .keep (ih (List.cons_subset_cons _ subset))
  | drop known _ ih => exact .drop (subset known) (ih subset)

theorem keepAll {xs : List α} (rest : Repeats (xs ++ seen) longer shorter) :
    Repeats seen (xs ++ longer) (xs ++ shorter) := by
  induction xs generalizing seen with
  | nil => exact rest
  | cons x xs ih =>
    refine .keep (ih (rest.mono ?_))
    intro y listed
    simpa only [List.cons_append, List.mem_cons, List.mem_append, or_left_comm] using listed

theorem dropAll {xs : List α} (known : xs ⊆ seen) (rest : Repeats seen longer shorter) :
    Repeats seen (xs ++ longer) shorter := by
  induction xs with
  | nil => exact rest
  | cons x xs ih =>
    obtain ⟨here, later⟩ := List.cons_subset.mp known
    exact .drop here (ih later)

theorem refl (seen xs : List α) : Repeats seen xs xs := by
  have whole : Repeats seen (xs ++ []) (xs ++ []) := keepAll .nil
  rwa [List.append_nil] at whole

theorem append {longer' shorter' : List α} (front : Repeats seen longer shorter)
    (back : Repeats seen longer' shorter') :
    Repeats seen (longer ++ longer') (shorter ++ shorter') := by
  induction front with
  | nil => exact back
  | keep _ ih => exact .keep (ih (back.mono (List.subset_cons_self _ _)))
  | drop known _ ih => exact .drop known (ih back)

theorem flatMap (repeats : Repeats seen longer shorter) (f : α → List β) :
    Repeats (seen.flatMap f) (longer.flatMap f) (shorter.flatMap f) := by
  induction repeats with
  | nil => exact .nil
  | keep _ ih => exact keepAll ih
  | drop known _ ih =>
    refine dropAll ?_ ih
    intro y listed
    exact List.mem_flatMap.mpr ⟨_, known, listed⟩

theorem sublist (repeats : Repeats seen longer shorter) : shorter.Sublist longer := by
  induction repeats with
  | nil => exact .slnil
  | keep _ ih => exact ih.cons_cons _
  | drop _ _ ih => exact ih.cons _

/-- An element that has not been there before is kept. -/
theorem exists_eq_cons {x : α} (repeats : Repeats seen (x :: longer) shorter) (new : x ∉ seen) :
    ∃ rest, shorter = x :: rest ∧ Repeats (x :: seen) longer rest := by
  cases repeats with
  | keep rest => exact ⟨_, rfl, rest⟩
  | drop known _ => exact absurd known new

/-- The first element with a property stands in front of its repetitions. -/
theorem find?_eq (repeats : Repeats seen longer shorter) {p : α → Bool}
    (none : ∀ x ∈ seen, p x = false) : longer.find? p = shorter.find? p := by
  induction repeats with
  | nil => rfl
  | @keep seen longer shorter x _ ih =>
    cases found : p x with
    | true => rw [List.find?_cons_of_pos found, List.find?_cons_of_pos found]
    | false =>
      rw [List.find?_cons_of_neg (by simp [found]), List.find?_cons_of_neg (by simp [found])]
      exact ih (List.forall_mem_cons.mpr ⟨found, none⟩)
  | drop known _ ih =>
    rw [List.find?_cons_of_neg (by simp [none _ known])]
    exact ih none

/-- What is derived from a list is recovered from the shorter one if repeated elements contribute
nothing. -/
theorem flatMap_eq [BEq α] [LawfulBEq α] (repeats : Repeats seen longer shorter) {f : α → List β}
    (none : ∀ x, x ∈ seen ∧ x ∈ longer ∨ 1 < longer.count x → f x = []) :
    longer.flatMap f = shorter.flatMap f := by
  induction repeats with
  | nil => rfl
  | @keep seen longer shorter x _ ih =>
    rw [List.flatMap_cons, List.flatMap_cons, ih]
    rintro y (⟨known, later⟩ | often)
    · rcases List.mem_cons.mp known with rfl | before
      · refine none y (.inr ?_)
        rw [List.count_cons_self]
        exact Nat.succ_lt_succ (List.count_pos_iff.mpr later)
      · exact none y (.inl ⟨before, List.mem_cons_of_mem x later⟩)
    · exact none y (.inr (Nat.lt_of_lt_of_le often List.count_le_count_cons))
  | @drop seen longer shorter x known _ ih =>
    rw [List.flatMap_cons, none x (.inl ⟨known, List.mem_cons_self⟩), List.nil_append, ih]
    rintro y (⟨before, later⟩ | often)
    · exact none y (.inl ⟨before, List.mem_cons_of_mem x later⟩)
    · exact none y (.inr (Nat.lt_of_lt_of_le often List.count_le_count_cons))

/-- An ascending list has no room for an element whose key is there already. -/
theorem insertAscending_of_mem {key : α → String} {xs : List α}
    (sorted : xs.Pairwise (key · < key ·)) {new : α} (known : key new ∈ xs.map key) :
    insertAscending key new xs = xs := by
  induction xs with
  | nil => cases known
  | cons x xs ih =>
    obtain ⟨least, sortedRest⟩ := List.pairwise_cons.mp sorted
    rw [insertAscending]
    rcases List.mem_cons.mp known with same | later
    · rw [if_neg (by rw [same]; exact lt_irrefl _), if_pos same]
    · obtain ⟨y, listed, same⟩ := List.mem_map.mp later
      have behind : key x < key new := same ▸ least y listed
      rw [if_neg (lt_asymm behind), if_neg behind.ne', ih sortedRest later]

theorem ascending_eq (repeats : Repeats [] longer shorter) (key : α → String) :
    ascending key longer = ascending key shorter := by
  suffices same : ∀ {seen longer shorter : List α}, Repeats seen longer shorter →
      ∀ sorted : List α, sorted.Pairwise (key · < key ·) →
        (∀ x ∈ seen, key x ∈ sorted.map key) →
        longer.foldl (fun sorted x => insertAscending key x sorted) sorted =
          shorter.foldl (fun sorted x => insertAscending key x sorted) sorted from
    same repeats [] .nil (List.forall_mem_nil _)
  intro seen longer shorter repeats
  induction repeats with
  | nil => exact fun _ _ _ => rfl
  | @keep seen longer shorter x _ ih =>
    intro sorted ascends known
    refine ih _ (pairwise_insertAscending x ascends) ?_
    intro y listed
    rw [mem_map_insertAscending_iff]
    rcases List.mem_cons.mp listed with rfl | before
    · exact .inl rfl
    · exact .inr (known y before)
  | @drop seen longer shorter x isKnown _ ih =>
    intro sorted ascends known
    rw [List.foldl_cons, insertAscending_of_mem ascends (known x isKnown)]
    exact ih sorted ascends known

end Repeats

section EraseDups

variable [BEq α] [LawfulBEq α] {xs : List α}

theorem repeats_eraseDups (xs : List α) : Repeats [] xs xs.eraseDups := by
  suffices general : ∀ seen : List α, Repeats seen xs (xs.filter (!seen.contains ·)).eraseDups by
    simpa using general []
  induction xs with
  | nil => exact fun _ => .nil
  | cons x xs ih =>
    intro seen
    by_cases known : x ∈ seen
    · rw [List.filter_cons_of_neg (by simpa using known)]
      exact .drop known (ih seen)
    · rw [List.filter_cons_of_pos (by simpa using known), List.eraseDups_cons, List.filter_filter]
      refine .keep ?_
      have same : (xs.filter fun y => (!y == x) && !seen.contains y) =
          xs.filter (!(x :: seen).contains ·) :=
        List.filter_congr fun y _ => by rw [List.contains_cons, Bool.not_or]
      rw [same]
      exact ih (x :: seen)

theorem count_eraseDups_le_one (xs : List α) (x : α) : xs.eraseDups.count x ≤ 1 := by
  induction length : xs.length using Nat.strongRecOn generalizing xs with
  | ind n ih =>
    cases xs with
    | nil => simp
    | cons y ys =>
      have shorter : (ys.filter fun z => !z == y).length < n := by
        rw [← length]
        exact Nat.lt_succ_of_le (List.length_filter_le _ _)
      rw [List.eraseDups_cons]
      by_cases same : y = x
      · subst same
        have absent : y ∉ (ys.filter fun z => !z == y).eraseDups := by simp
        rw [List.count_cons_self, List.count_eq_zero_of_not_mem absent]
      · rw [List.count_cons_of_ne same]
        exact ih _ shorter _ rfl

theorem nodup_eraseDups (xs : List α) : xs.eraseDups.Nodup :=
  List.nodup_iff_count_le_one.mpr (count_eraseDups_le_one xs)

/-- An element that the shorter list has fewer times leaves a gap in what is derived. -/
theorem length_flatMap_lt {ys : List α} (sub : ys.Sublist xs) {x : α}
    (fewer : ys.count x < xs.count x) {f : α → List β} (some : f x ≠ []) :
    (ys.flatMap f).length < (xs.flatMap f).length := by
  induction sub with
  | slnil => exact absurd fewer (Nat.lt_irrefl _)
  | @cons ys xs y sub ih =>
    have le := (sub.flatMap f).length_le
    rw [List.flatMap_cons, List.length_append]
    by_cases same : y = x
    · subst same
      have pos := List.length_pos_of_ne_nil some
      omega
    · rw [List.count_cons_of_ne same] at fewer
      have less := ih fewer
      omega
  | @cons_cons ys xs y sub ih =>
    have less : ys.count x < xs.count x := by
      rw [List.count_cons, List.count_cons] at fewer
      omega
    have shorter := ih less
    rw [List.flatMap_cons, List.flatMap_cons, List.length_append, List.length_append]
    omega

theorem length_flatMap_eraseDups_lt {x : α} (often : 1 < xs.count x) {f : α → List β}
    (some : f x ≠ []) : (xs.eraseDups.flatMap f).length < (xs.flatMap f).length :=
  length_flatMap_lt (repeats_eraseDups xs).sublist
    (Nat.lt_of_le_of_lt (count_eraseDups_le_one xs x) often) some

theorem flatMap_eraseDups_eq_iff {f : α → List β} :
    xs.eraseDups.flatMap f = xs.flatMap f ↔ ∀ x, 1 < xs.count x → f x = [] := by
  constructor
  · intro same x often
    by_contra some
    have shorter := length_flatMap_eraseDups_lt often some
    rw [same] at shorter
    exact Nat.lt_irrefl _ shorter
  · intro none
    refine ((repeats_eraseDups xs).flatMap_eq ?_).symm
    rintro x (⟨known, -⟩ | often)
    · cases known
    · exact none x often

/-- The same for what is derived in several rounds, one behind the other. -/
theorem flatMap_flatMap_eraseDups_eq_iff {γ : Type} {rounds : List γ} {f : γ → α → List β} :
    (rounds.flatMap fun round => xs.eraseDups.flatMap (f round)) =
        (rounds.flatMap fun round => xs.flatMap (f round)) ↔
      ∀ round ∈ rounds, ∀ x, 1 < xs.count x → f round x = [] := by
  constructor
  · intro same round listed x often
    by_contra some
    have le : ∀ round ∈ rounds, (xs.eraseDups.flatMap (f round)).length ≤
        (xs.flatMap (f round)).length := by
      intro round _
      exact ((repeats_eraseDups xs).sublist.flatMap (f round)).length_le
    have shorter := List.sum_lt_sum _ _ le ⟨round, listed, length_flatMap_eraseDups_lt often some⟩
    rw [← List.length_flatMap, ← List.length_flatMap, same] at shorter
    exact Nat.lt_irrefl _ shorter
  · intro none
    refine List.flatMap_congr fun round listed => ?_
    exact flatMap_eraseDups_eq_iff.mpr (none round listed)

end EraseDups

end HttpClientGen
