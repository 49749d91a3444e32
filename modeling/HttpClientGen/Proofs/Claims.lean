import HttpClientGen.Proofs.Session
import HttpClientGen.Synthesis
import Mathlib.Data.List.Nodup

/-!
# Claims one after the other

Records claim their names in a certain order. A claim is granted if nobody has the name yet, so a
name belongs to the first one that claims it, and the granted records have names of their own. If no
answer is a collision, then every claimed name belongs to all that claim it, who are the same
message.
-/

namespace HttpClientGen

/-- A record that a message asks for, and the messages that are asked for once it is written. -/
structure Demand where
  owner : String
  record : RecordType
  pending : List Usage

/-- What the registry notes about a demand that is granted in a unit. -/
def Demand.entry (unit : String) (demand : Demand) : (String × String) × String :=
  ((unit, demand.record.name), demand.owner)

namespace Registry

variable {registry : Registry} {unit : String}

/-- Claims the names of records one after the other, and gives the demands that were in time. -/
def grant (registry : Registry) (unit : String) : List Demand → List Demand × Registry
  | [] => ([], registry)
  | demand :: demands =>
    let claimed := registry.claim unit demand.record.name demand.owner
    let others := claimed.2.grant unit demands
    (if claimed.1.isNew then demand :: others.1 else others.1, others.2)

theorem grant_append (registry : Registry) (unit : String) (front back : List Demand) :
    registry.grant unit (front ++ back) =
      ((registry.grant unit front).1 ++ ((registry.grant unit front).2.grant unit back).1,
        ((registry.grant unit front).2.grant unit back).2) := by
  induction front generalizing registry with
  | nil => rfl
  | cons demand front ih =>
    simp only [List.cons_append, grant, ih]
    split <;> rfl

theorem mem_of_mem_grant {demands : List Demand} {demand : Demand}
    (granted : demand ∈ (registry.grant unit demands).1) : demand ∈ demands := by
  induction demands generalizing registry with
  | nil => simp [grant] at granted
  | cons first demands ih =>
    simp only [grant] at granted
    split at granted
    · rcases List.mem_cons.mp granted with rfl | later
      · exact List.mem_cons_self
      · exact List.mem_cons_of_mem first (ih later)
    · exact List.mem_cons_of_mem first (ih granted)

/-- The registry grows by exactly the names of the granted records. -/
theorem grant_entries (registry : Registry) (unit : String) (demands : List Demand) :
    (registry.grant unit demands).2.entries =
      ((registry.grant unit demands).1.map (Demand.entry unit)).reverse ++ registry.entries := by
  induction demands generalizing registry with
  | nil => rfl
  | cons demand demands ih =>
    simp only [grant]
    rcases registry.claim_cases unit demand.record.name demand.owner with
      ⟨old, same⟩ | ⟨new, -, added⟩
    · simp [old, same, ih]
    · simp [new, added, ih, Demand.entry]

theorem owner?_isSome_iff {name : String} :
    (registry.owner? unit name).isSome ↔ ∃ owner, ((unit, name), owner) ∈ registry.entries := by
  rw [owner?, List.lookup_isSome_iff]
  simp

/-- A name belongs to whoever had it before, and else to whoever is the first to demand it. -/
theorem owner?_grant (registry : Registry) (unit : String) (demands : List Demand)
    (otherUnit name : String) :
    (registry.grant unit demands).2.owner? otherUnit name =
      (registry.owner? otherUnit name).or
        (if otherUnit = unit then (demands.find? (·.record.name = name)).map (·.owner)
        else none) := by
  induction demands generalizing registry with
  | nil => simp [grant]
  | cons demand demands ih =>
    simp only [grant, ih, owner?_claim]
    by_cases here : otherUnit = unit
    · subst here
      by_cases same : demand.record.name = name
      · subst same
        cases registry.owner? otherUnit demand.record.name <;> simp
      · simp [same, Ne.symm same]
    · simp [here]

/-- Once demands have been dealt with, the names of their records all belong to some message. -/
theorem owner?_grant_isSome {demands : List Demand} {demand : Demand} (listed : demand ∈ demands) :
    ((registry.grant unit demands).2.owner? unit demand.record.name).isSome := by
  have some : (demands.find? (·.record.name = demand.record.name)).isSome :=
    List.find?_isSome.mpr ⟨demand, listed, by simp⟩
  rw [owner?_grant, if_pos rfl, Option.isSome_or, Option.isSome_map, some, Bool.or_true]

/-- Whether a demand is in time depends on the owners in its own unit only. -/
theorem grant_congr {first second : Registry}
    (same : ∀ name, second.owner? unit name = first.owner? unit name) (demands : List Demand) :
    (second.grant unit demands).1 = (first.grant unit demands).1 ∧
      ∀ name, (second.grant unit demands).2.owner? unit name =
        (first.grant unit demands).2.owner? unit name := by
  induction demands generalizing first second with
  | nil => exact ⟨rfl, same⟩
  | cons demand demands ih =>
    have after (name : String) :
        (second.claim unit demand.record.name demand.owner).2.owner? unit name =
          (first.claim unit demand.record.name demand.owner).2.owner? unit name := by
      rw [owner?_claim, owner?_claim, same, same]
    obtain ⟨others, owners⟩ := ih after
    refine ⟨?_, owners⟩
    simp only [grant, isNew_claim, others, same]

/-- What has an owner keeps this owner. -/
theorem owner?_grant_of_some {name owner : String}
    (owned : registry.owner? unit name = some owner) (demands : List Demand) :
    (registry.grant unit demands).2.owner? unit name = some owner := by
  rw [owner?_grant, owned, Option.some_or]

/-- No name is noted twice. -/
def Distinct (registry : Registry) : Prop :=
  (registry.entries.map (·.1)).Nodup

theorem distinct_claim (distinct : registry.Distinct) (name message : String) :
    (registry.claim unit name message).2.Distinct := by
  rcases registry.claim_cases unit name message with ⟨-, same⟩ | ⟨-, free, added⟩
  · rwa [same]
  · have absent : (unit, name) ∉ registry.entries.map (·.1) := by
      intro listed
      obtain ⟨⟨key, owner⟩, entry, rfl⟩ := List.mem_map.mp listed
      have owned := owner?_isSome_iff.mpr ⟨owner, entry⟩
      rw [free] at owned
      cases owned
    rw [added]
    exact List.nodup_cons.mpr ⟨absent, distinct⟩

theorem distinct_grant (distinct : registry.Distinct) (demands : List Demand) :
    (registry.grant unit demands).2.Distinct := by
  induction demands generalizing registry with
  | nil => exact distinct
  | cons demand demands ih => exact ih (distinct_claim distinct _ _)

/-- Of the demands for one name, the first one is granted if the name is free, and none if not. -/
theorem filter_grant (registry : Registry) (unit : String) (demands : List Demand) (name : String) :
    (registry.grant unit demands).1.filter (·.record.name = name) =
      if (registry.owner? unit name).isSome then []
      else (demands.find? (·.record.name = name)).toList := by
  induction demands generalizing registry with
  | nil => simp [grant]
  | cons demand demands ih =>
    simp only [grant, isNew_claim]
    by_cases same : demand.record.name = name
    · subst same
      cases owned : registry.owner? unit demand.record.name with
      | none => simp [ih, owner?_claim]
      | some owner => simp [ih, owner?_claim]
    · have kept : (registry.claim unit demand.record.name demand.owner).2.owner? unit name =
          registry.owner? unit name := by
        rw [owner?_claim, if_neg fun equal => same equal.2.symm]
      rw [List.find?_cons_of_neg (by simpa using same), ← kept, ← ih]
      split <;> simp [same]

/-- No two granted records have the same name. -/
theorem nodup_grant (registry : Registry) (unit : String) (demands : List Demand) :
    ((registry.grant unit demands).1.map (·.record.name)).Nodup := by
  refine List.nodup_iff_count_le_one.mpr fun name => ?_
  have counted : ((registry.grant unit demands).1.map (·.record.name)).count name =
      ((registry.grant unit demands).1.filter (·.record.name = name)).length := by
    rw [List.count, List.countP_map, List.countP_eq_length_filter]
    rfl
  rw [counted, filter_grant]
  split
  · exact Nat.zero_le 1
  · exact Option.length_toList_le

def answers (registry : Registry) (unit : String) : List Demand → List Claim
  | [] => []
  | demand :: demands =>
    let claimed := registry.claim unit demand.record.name demand.owner
    claimed.1 :: claimed.2.answers unit demands

/-- A claim is answered by a collision if the name belongs to somebody else afterwards. -/
theorem claim_ne_collision_iff {name message : String} :
    (∀ owner, (registry.claim unit name message).1 ≠ .collision owner) ↔
      (registry.claim unit name message).2.owner? unit name = some message := by
  rw [owner?_claim, if_pos ⟨rfl, rfl⟩, claim]
  cases owned : registry.owner? unit name with
  | none => simp
  | some owner => by_cases same : owner = message <;> simp [same]

/-- Without collisions, a name belongs in the end to whoever has claimed it, and conversely. -/
theorem answers_ne_collision_iff {demands : List Demand} :
    (∀ answer ∈ registry.answers unit demands, ∀ owner, answer ≠ .collision owner) ↔
      ∀ demand ∈ demands,
        (registry.grant unit demands).2.owner? unit demand.record.name = some demand.owner := by
  induction demands generalizing registry with
  | nil => simp [answers]
  | cons demand demands ih =>
    simp only [answers, grant, List.forall_mem_cons, ih, claim_ne_collision_iff]
    refine and_congr_left fun _ => ⟨fun owned => owner?_grant_of_some owned demands, fun owned => ?_⟩
    have claimed : ((registry.claim unit demand.record.name demand.owner).2.owner? unit
        demand.record.name).isSome := by simp [owner?_claim]
    obtain ⟨owner, now⟩ := Option.isSome_iff_exists.mp claimed
    rw [now, ← owned, owner?_grant_of_some now demands]

/-- Claims for one and the same message never collide. -/
theorem answers_ne_collision_of_owner {demands : List Demand} {message : String}
    (before : ∀ name owner, registry.owner? unit name = some owner → owner = message)
    (same : ∀ demand ∈ demands, demand.owner = message) :
    ∀ answer ∈ registry.answers unit demands, ∀ owner, answer ≠ .collision owner := by
  induction demands generalizing registry with
  | nil => nofun
  | cons demand demands ih =>
    obtain ⟨here, later⟩ := List.forall_mem_cons.mp same
    refine List.forall_mem_cons.mpr ⟨claim_ne_collision_iff.mpr ?_, ih ?_ later⟩
    · rw [owner?_claim, if_pos ⟨rfl, rfl⟩]
      cases owned : registry.owner? unit demand.record.name with
      | none => rfl
      | some owner => exact congrArg some ((before _ owner owned).trans here.symm)
    · intro name owner owned
      rw [owner?_claim] at owned
      split at owned
      · cases free : registry.owner? unit demand.record.name with
        | none =>
          rw [free] at owned
          exact (Option.some.inj owned).symm.trans here
        | some other =>
          rw [free] at owned
          exact (Option.some.inj owned) ▸ before _ other free
      · exact before name owner owned

/-- Where all names are free at first and no claim ends in a collision, whatever is demanded under a
name, the granted record of that name belongs to the same message. -/
theorem exists_granted_of_ne_collision {demands : List Demand}
    (free : ∀ name, registry.owner? unit name = none)
    (apart : ∀ answer ∈ registry.answers unit demands, ∀ owner, answer ≠ .collision owner)
    {demand : Demand} (listed : demand ∈ demands) :
    ∃ granted ∈ (registry.grant unit demands).1,
      granted.record.name = demand.record.name ∧ granted.owner = demand.owner := by
  have owned := answers_ne_collision_iff.mp apart
  have some : (demands.find? (·.record.name = demand.record.name)).isSome :=
    List.find?_isSome.mpr ⟨demand, listed, by simp⟩
  obtain ⟨first, found⟩ := Option.isSome_iff_exists.mp some
  have inTime : first ∈
      (registry.grant unit demands).1.filter (·.record.name = demand.record.name) := by
    simp [filter_grant, free, found]
  obtain ⟨granted, named⟩ := List.mem_filter.mp inTime
  have same : first.record.name = demand.record.name := by simpa using named
  refine ⟨first, granted, same, Option.some.inj ?_⟩
  rw [← owned demand listed, ← owned first (mem_of_mem_grant granted), same]

end Registry

end HttpClientGen
