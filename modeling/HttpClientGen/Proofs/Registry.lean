import HttpClientGen.Proofs.Claims
import Mathlib.Data.Finset.Card

/-!
# Histories of claims

Messages claim type names one after the other, each in a unit of its own choice. What the registry
knows after that are the messages that were first to claim their names, so every claim is answered
by the first one for its name. A claim for one name has no part in the answers for another name, and
the size of the registry tells how many names were claimed.
-/

namespace HttpClientGen

/-- A message claims a type name in a unit. -/
structure Bid where
  unit : String
  typeName : String
  message : String
  deriving DecidableEq, Repr

/-- The name that is claimed. It is a pair, so that names do not mix whose texts are the same when
the unit is written in front. -/
def Bid.name (bid : Bid) : String × String :=
  (bid.unit, bid.typeName)

namespace Registry

def claimAll (registry : Registry) : List Bid → List Claim × Registry
  | [] => ([], registry)
  | bid :: bids =>
    let claimed := registry.claim bid.unit bid.typeName bid.message
    let later := claimed.2.claimAll bids
    (claimed.1 :: later.1, later.2)

variable {registry : Registry} {bids : List Bid}

theorem claimAll_append (registry : Registry) (front back : List Bid) :
    registry.claimAll (front ++ back) =
      ((registry.claimAll front).1 ++ ((registry.claimAll front).2.claimAll back).1,
        ((registry.claimAll front).2.claimAll back).2) := by
  induction front generalizing registry with
  | nil => rfl
  | cons bid front ih => simp only [List.cons_append, claimAll, ih]

theorem length_claimAll (registry : Registry) (bids : List Bid) :
    (registry.claimAll bids).1.length = bids.length := by
  induction bids generalizing registry with
  | nil => rfl
  | cons bid bids ih => simp only [claimAll, List.length_cons, ih]

/-- A name belongs to whoever had it before the claims, and else to whoever is the first to claim
it. -/
theorem owner?_claimAll (registry : Registry) (bids : List Bid) (unit typeName : String) :
    (registry.claimAll bids).2.owner? unit typeName =
      (registry.owner? unit typeName).or
        ((bids.find? (·.name = (unit, typeName))).map (·.message)) := by
  induction bids generalizing registry with
  | nil => simp [claimAll]
  | cons bid bids ih =>
    simp only [claimAll, ih, owner?_claim]
    by_cases same : bid.name = (unit, typeName)
    · obtain ⟨rfl, rfl⟩ := Prod.mk.inj same
      cases registry.owner? bid.unit bid.typeName <;> simp [Bid.name]
    · have other : ¬(unit = bid.unit ∧ typeName = bid.typeName) := by
        rintro ⟨rfl, rfl⟩
        exact same rfl
      rw [if_neg other, List.find?_cons_of_neg (by simpa using same)]

/-- A claim is answered according to the owner of its name. -/
theorem answer_of_owner? (registry : Registry) (unit typeName message : String) :
    (registry.claim unit typeName message).1 =
      match registry.owner? unit typeName with
      | none => .new
      | some owner => if owner = message then .existing else .collision owner := by
  rw [claim]
  cases registry.owner? unit typeName <;> rfl

/-- The answer to a claim stands at the place of the claim, and depends on the claims in front. -/
theorem getElem?_claimAll (registry : Registry) (earlier : List Bid) (bid : Bid)
    (later : List Bid) :
    (registry.claimAll (earlier ++ bid :: later)).1[earlier.length]? =
      some ((registry.claimAll earlier).2.claim bid.unit bid.typeName bid.message).1 := by
  rw [claimAll_append, List.getElem?_append_right (length_claimAll registry earlier).le,
    length_claimAll, Nat.sub_self]
  rfl

theorem distinct_claimAll (distinct : registry.Distinct) (bids : List Bid) :
    (registry.claimAll bids).2.Distinct := by
  induction bids generalizing registry with
  | nil => exact distinct
  | cons bid bids ih => exact ih (distinct_claim distinct _ _)

/-- After claims on the empty registry, the names that it knows are those that were claimed. -/
theorem mem_names_claimAll_iff {name : String × String} :
    name ∈ (({} : Registry).claimAll bids).2.entries.map (·.1) ↔ name ∈ bids.map Bid.name := by
  have owned : name ∈ (({} : Registry).claimAll bids).2.entries.map (·.1) ↔
      ((({} : Registry).claimAll bids).2.owner? name.1 name.2).isSome := by
    rw [owner?_isSome_iff]
    simp
  have free : ({} : Registry).owner? name.1 name.2 = none := rfl
  rw [owned, owner?_claimAll, free, Option.none_or, Option.isSome_map, List.find?_isSome]
  simp

theorem size_claimAll (bids : List Bid) :
    (({} : Registry).claimAll bids).2.size = (bids.map Bid.name).toFinset.card := by
  have start : ({} : Registry).Distinct := List.nodup_nil
  have distinct := distinct_claimAll start bids
  have names : (bids.map Bid.name).toFinset =
      ((({} : Registry).claimAll bids).2.entries.map (·.1)).toFinset := by
    ext name
    rw [List.mem_toFinset, List.mem_toFinset, mem_names_claimAll_iff]
  rw [names, List.toFinset_card_of_nodup distinct, List.length_map]
  rfl

/-- Behind claims on the empty registry, a claim is answered by the first of them for its name. -/
theorem answer_of_first (earlier : List Bid) (bid : Bid) :
    ((({} : Registry).claimAll earlier).2.claim bid.unit bid.typeName bid.message).1 =
      match earlier.find? (·.name = bid.name) with
      | none => .new
      | some first =>
        if first.message = bid.message then .existing else .collision first.message := by
  have free : ({} : Registry).owner? bid.unit bid.typeName = none := rfl
  rw [answer_of_owner?, owner?_claimAll, free, Option.none_or]
  show (match (earlier.find? (·.name = bid.name)).map (·.message) with
    | none => Claim.new
    | some owner => if owner = bid.message then .existing else .collision owner) = _
  cases earlier.find? (·.name = bid.name) <;> rfl

/-- The registries know the same owners of some names. -/
def AgreeOn (keep : String × String → Bool) (first second : Registry) : Prop :=
  ∀ unit typeName, keep (unit, typeName) = true →
    second.owner? unit typeName = first.owner? unit typeName

section AgreeOn

variable {keep : String × String → Bool} {first second : Registry} {bid : Bid}

theorem AgreeOn.answer (agree : AgreeOn keep first second) (kept : keep bid.name = true) :
    (second.claim bid.unit bid.typeName bid.message).1 =
      (first.claim bid.unit bid.typeName bid.message).1 := by
  rw [answer_of_owner?, answer_of_owner?, agree bid.unit bid.typeName kept]

/-- A claim for one of the names is noted by both registries. -/
theorem AgreeOn.claim (agree : AgreeOn keep first second) (kept : keep bid.name = true) :
    AgreeOn keep (first.claim bid.unit bid.typeName bid.message).2
      (second.claim bid.unit bid.typeName bid.message).2 := by
  intro unit typeName known
  rw [owner?_claim, owner?_claim, agree unit typeName known, agree bid.unit bid.typeName kept]

/-- A claim for another name may be noted by one registry only. -/
theorem AgreeOn.claim_other (agree : AgreeOn keep first second) (other : ¬keep bid.name = true) :
    AgreeOn keep (first.claim bid.unit bid.typeName bid.message).2 second := by
  intro unit typeName known
  have differ : ¬(unit = bid.unit ∧ typeName = bid.typeName) := by
    rintro ⟨rfl, rfl⟩
    exact other known
  rw [owner?_claim, if_neg differ, agree unit typeName known]

/-- Registries that agree on some names give the same answers to the claims for these names, even if
only one of them has to deal with the other claims. -/
theorem AgreeOn.answers (agree : AgreeOn keep first second) (bids : List Bid) :
    (bids.zip (first.claimAll bids).1).filter (keep ·.1.name) =
      (bids.filter (keep ·.name)).zip (second.claimAll (bids.filter (keep ·.name))).1 := by
  induction bids generalizing first second with
  | nil => rfl
  | cons bid bids ih =>
    simp only [claimAll, List.zip_cons_cons]
    by_cases kept : keep bid.name = true
    · rw [List.filter_cons_of_pos (by exact kept), List.filter_cons_of_pos (by exact kept),
        ih (agree.claim kept)]
      simp only [claimAll, List.zip_cons_cons, agree.answer kept]
    · rw [List.filter_cons_of_neg (by exact kept), List.filter_cons_of_neg (by exact kept),
        ih (agree.claim_other kept)]

end AgreeOn

/-- In a history of claims on the empty registry, each claim is answered by the first claim for its
name: it is this one itself, or its message is the owner. The registry counts the names that were
claimed. The claims for any set of names are answered as if there were no others. -/
theorem first_claim_wins (bids : List Bid) :
    (({} : Registry).claimAll bids).1.length = bids.length ∧
    (∀ earlier bid later, bids = earlier ++ bid :: later →
      ∃ answer, (({} : Registry).claimAll bids).1[earlier.length]? = some answer ∧
        (answer = .new ↔ ∀ other ∈ earlier, other.name ≠ bid.name) ∧
        ∀ first, earlier.find? (·.name = bid.name) = some first →
          answer = if first.message = bid.message then .existing
            else .collision first.message) ∧
    (({} : Registry).claimAll bids).2.size = (bids.map Bid.name).toFinset.card ∧
    ∀ keep : String × String → Bool,
      (bids.zip (({} : Registry).claimAll bids).1).filter (keep ·.1.name) =
        (bids.filter (keep ·.name)).zip
          (({} : Registry).claimAll (bids.filter (keep ·.name))).1 := by
  refine ⟨length_claimAll {} bids, ?_, size_claimAll bids, fun keep => ?_⟩
  · rintro earlier bid later rfl
    refine ⟨_, getElem?_claimAll {} earlier bid later, ?_⟩
    rw [answer_of_first]
    cases found : earlier.find? (·.name = bid.name) with
    | none =>
      have unclaimed : ∀ other ∈ earlier, other.name ≠ bid.name := by
        simpa using found
      exact ⟨iff_of_true rfl unclaimed, nofun⟩
    | some first =>
      have named : first.name = bid.name := by simpa using List.find?_some found
      have claimed : ¬∀ other ∈ earlier, other.name ≠ bid.name := by
        intro none
        exact none first (List.mem_of_find?_eq_some found) named
      constructor
      · refine iff_of_false ?_ claimed
        by_cases same : first.message = bid.message <;> simp [same]
      · rintro _ ⟨⟩
        rfl
  · exact AgreeOn.answers (fun _ _ _ => rfl) bids

/-- Two names whose texts are the same when the unit is written in front. -/
example : (({} : Registry).claimAll [⟨"ab", "c", "first"⟩, ⟨"a", "bc", "second"⟩]).1 =
    [.new, .new] := by
  decide

end Registry

end HttpClientGen
