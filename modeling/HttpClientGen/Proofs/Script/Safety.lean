import HttpClientGen.Proofs.Script.Run

/-!
# Safe runs

Where a guarded chain has a true value, the plain chain of the same names reads no member of an
absent value. A run is safe if it evaluates a plain chain only behind a test of this kind and stops
only for reasons that are allowed; safety is kept when effects follow each other.
-/

namespace HttpClientGen.Script

namespace Value

variable (inherited : Value → String → Value) {value result : Value} {names : List String}

theorem exists_member? (present : value.isAbsent = false) (name : String) :
    ∃ member, value.member? inherited name = some member := by
  cases value with
  | undefined => cases present
  | null => cases present
  | primitive truth => exact ⟨_, rfl⟩
  | array elements => exact ⟨_, rfl⟩
  | object members => exact ⟨_, rfl⟩

theorem isAbsent_of_isTrue (holds : value.isTrue = true) : value.isAbsent = false := by
  cases value with
  | undefined => cases holds
  | null => cases holds
  | primitive truth => rfl
  | array elements => rfl
  | object members => rfl

/-- Optional links never read a member of an absent value. -/
theorem exists_follow_optional (names : List String) (value : Value) :
    ∃ result, value.follow inherited (names.map (⟨true, ·⟩)) = some result := by
  induction names generalizing value with
  | nil => exact ⟨value, rfl⟩
  | cons name names ih =>
    rw [List.map_cons, follow]
    by_cases absent : value.isAbsent = true
    · exact ⟨.undefined, by simp [absent]⟩
    · rw [Bool.not_eq_true] at absent
      obtain ⟨member, read⟩ := exists_member? inherited absent name
      obtain ⟨result, reached⟩ := ih member
      exact ⟨result, by simp [absent, read, reached]⟩

/-- Where optional links lead to a true value, plain links lead to the same. -/
theorem follow_plain_of_isTrue
    (reached : value.follow inherited (names.map (⟨true, ·⟩)) = some result)
    (holds : result.isTrue = true) :
    value.follow inherited (names.map (⟨false, ·⟩)) = some result := by
  induction names generalizing value with
  | nil => exact reached
  | cons name names ih =>
    rw [List.map_cons, follow] at reached ⊢
    by_cases absent : value.isAbsent = true
    · rw [if_pos (by simp [absent])] at reached
      cases reached
      cases holds
    · rw [Bool.not_eq_true] at absent
      obtain ⟨member, read⟩ := exists_member? inherited absent name
      simp only [absent, Bool.and_false, Bool.false_eq_true, if_false, read,
        Option.bind_some] at reached ⊢
      exact ih reached

end Value

namespace Scope

variable {scope : Scope} {members : List (String × Value)} {names : List String} {value : Value}

theorem eval_eq_ok_iff {chain : Chain} (root : scope.request = .object members)
    (request : chain.root = "request") :
    scope.eval chain = .ok value ↔
      (Value.object members).follow scope.inherited chain.links = some value := by
  have found : scope.lookup chain.root = some (.object members) := by
    rw [request, lookup, if_pos rfl, root]
  simp only [eval, found]
  split
  · next none => simp [none]
  · next other reached => simp [reached]

theorem root_guarded (names : List String) : (Chain.guarded names).root = "request" := by
  cases names <;> rfl

theorem exists_eval_guarded (root : scope.request = .object members) (names : List String) :
    ∃ value, scope.eval (.guarded names) = .ok value := by
  simp only [eval_eq_ok_iff root (root_guarded names)]
  cases names with
  | nil => exact ⟨_, rfl⟩
  | cons name names =>
    obtain ⟨member, read⟩ := @Value.exists_member? scope.inherited (.object members) rfl name
    obtain ⟨value, reached⟩ := Value.exists_follow_optional scope.inherited names member
    exact ⟨value, by simp [Chain.guarded, Value.follow, read, reached]⟩

theorem exists_eval_lenient (root : scope.request = .object members) (names : List String) :
    ∃ value, scope.eval (.lenient names) = .ok value := by
  obtain ⟨value, reached⟩ :=
    Value.exists_follow_optional scope.inherited names (.object members)
  exact ⟨value, (eval_eq_ok_iff root rfl).mpr reached⟩

/-- A plain chain can be evaluated where the guarded chain is true, and has the same value. -/
theorem eval_plain_of_isTrue (root : scope.request = .object members)
    (evaluated : scope.eval (.guarded names) = .ok value) (holds : value.isTrue = true) :
    scope.eval (.plain names) = .ok value := by
  rw [eval_eq_ok_iff root (root_guarded names)] at evaluated
  rw [eval_eq_ok_iff root rfl]
  cases names with
  | nil => exact evaluated
  | cons name names =>
    obtain ⟨member, read⟩ := @Value.exists_member? scope.inherited (.object members) rfl name
    simp only [Chain.guarded, Chain.plain, Value.follow, List.map_cons, Bool.false_and,
      Bool.false_eq_true, if_false, read, Option.bind_some] at evaluated ⊢
    exact Value.follow_plain_of_isTrue scope.inherited evaluated holds

end Scope

namespace Event

/-- A plain chain of one name or more is evaluated only where the guarded chain of the same names
has been true in the `past`. -/
def Covered (past : List Event) : Event → Prop
  | evaluated chain _ => ∀ names, names ≠ [] → chain = .plain names →
    ∃ value, tested (.guarded names) value ∈ past ∧ value.isTrue = true
  | _ => True

theorem covered_tested {past : List Event} (chain : Chain) (value : Value) :
    (tested chain value).Covered past :=
  trivial

theorem Covered.of_subset {past later : List Event} {event : Event} (covered : event.Covered past)
    (kept : past ⊆ later) : event.Covered later := by
  cases event with
  | evaluated chain value =>
    intro names nonempty same
    obtain ⟨value, isTested, holds⟩ := covered names nonempty same
    exact ⟨value, kept isTested, holds⟩
  | tested => trivial
  | builtPath => trivial
  | builtBody => trivial
  | startedQuery => trivial
  | pushed => trivial

end Event

namespace Effect

variable {allowed : Stop → Prop} {past : List Event}

/-- Behind the `past` every event of the effect is covered, and it stops only as `allowed`. -/
structure Safe (allowed : Stop → Prop) (past : List Event) (effect : Effect) : Prop where
  covered : ∀ before event after, effect.events = before ++ event :: after →
    event.Covered (past ++ before)
  stops : ∀ stop, effect.stop = some stop → allowed stop

theorem safe_nothing : nothing.Safe allowed past :=
  ⟨by simp [nothing], by simp [nothing]⟩

theorem safe_halt {stop : Stop} (isAllowed : allowed stop) : (halt stop).Safe allowed past :=
  ⟨by simp [halt], by simpa [halt] using isAllowed⟩

theorem safe_event {event : Event} (covered : event.Covered past) :
    (Effect.event event).Safe allowed past := by
  refine ⟨fun before other after split => ?_, by simp [Effect.event]⟩
  cases before with
  | nil =>
    obtain ⟨rfl, -⟩ := List.cons.inj split
    exact covered.of_subset (List.subset_append_left past [])
  | cons first before => simp [Effect.event] at split

theorem Safe.of_subset {later : List Event} {effect : Effect} (safe : effect.Safe allowed past)
    (kept : past ⊆ later) : effect.Safe allowed later :=
  ⟨fun before event after split =>
    (safe.covered before event after split).of_subset
      (List.append_subset.mpr
        ⟨List.subset_append_of_subset_left _ kept, List.subset_append_right _ _⟩),
    safe.stops⟩

/-- What follows a safe effect has its events in the past, and is run only if it does not stop. -/
theorem Safe.andThen {first next : Effect} (safe : first.Safe allowed past)
    (after : first.stop = none → next.Safe allowed (past ++ first.events)) :
    (first.andThen next).Safe allowed past := by
  rw [Effect.andThen]
  split
  · exact safe
  · next goesOn =>
    obtain ⟨covered, stops⟩ := after goesOn
    refine ⟨fun before event later split => ?_, stops⟩
    rcases List.append_eq_append_iff.mp split with ⟨rest, rfl, isNext⟩ | ⟨rest, isFirst, isNext⟩
    · rw [← List.append_assoc]
      exact covered rest event later isNext
    · cases rest with
      | nil =>
        obtain rfl : first.events = before := by simpa using isFirst
        simpa using covered [] event later (by simpa using isNext.symm)
      | cons other rest =>
        obtain ⟨rfl, -⟩ := List.cons.inj isNext
        exact safe.covered before _ rest isFirst

theorem safe_sequence {effects : List Effect}
    (each : ∀ effect ∈ effects, effect.Safe allowed past) :
    (sequence effects).Safe allowed past := by
  induction effects with
  | nil => exact safe_nothing
  | cons effect effects ih =>
    rw [List.forall_mem_cons] at each
    exact each.1.andThen fun _ => (ih each.2).of_subset (List.subset_append_left past _)

theorem andThen_assoc (first second third : Effect) :
    (first.andThen second).andThen third = first.andThen (second.andThen third) := by
  obtain ⟨events, stop⟩ := first
  obtain ⟨later, stop'⟩ := second
  cases stop with
  | some stop => rfl
  | none => cases stop' <;> simp [andThen]

theorem sequence_append (effects later : List Effect) :
    sequence (effects ++ later) = (sequence effects).andThen (sequence later) := by
  induction effects with
  | nil => rfl
  | cons effect effects ih => rw [List.cons_append, sequence, sequence, ih, andThen_assoc]

end Effect

namespace Scope

variable {scope : Scope} {allowed : Stop → Prop} {past : List Event} {chain : Chain}
  {value : Value}

theorem test_of_eval {yes no : Effect} (evaluated : scope.eval chain = .ok value) :
    scope.test chain yes no =
      (Effect.event (.tested chain value)).andThen (if value.isTrue then yes else no) := by
  rw [test, evaluated]

theorem use_of_eval {next : Value → Effect} (evaluated : scope.eval chain = .ok value) :
    scope.use chain next = (Effect.event (.evaluated chain value)).andThen (next value) := by
  rw [use, evaluated]

theorem safe_test {yes no : Effect} (evaluated : scope.eval chain = .ok value)
    (ifTrue : value.isTrue = true → yes.Safe allowed (past ++ [.tested chain value]))
    (ifFalse : value.isTrue = false → no.Safe allowed past) :
    (scope.test chain yes no).Safe allowed past := by
  rw [test_of_eval evaluated]
  refine (Effect.safe_event (Event.covered_tested _ _)).andThen fun _ => ?_
  by_cases holds : value.isTrue = true
  · rw [if_pos holds]
    exact ifTrue holds
  · rw [if_neg holds]
    exact (ifFalse (Bool.not_eq_true _ ▸ holds)).of_subset (List.subset_append_left past _)

theorem safe_use {next : Value → Effect} (evaluated : scope.eval chain = .ok value)
    (covered : Event.Covered past (.evaluated chain value))
    (after : (next value).Safe allowed past) : (scope.use chain next).Safe allowed past := by
  rw [use_of_eval evaluated]
  exact (Effect.safe_event covered).andThen fun _ =>
    after.of_subset (List.subset_append_left past _)

/-- A method of a true value can be called. -/
theorem safe_call {method : String} {next : Value → Effect}
    (evaluated : scope.eval chain = .ok value) (holds : value.isTrue = true)
    (covered : Event.Covered past (.evaluated chain value))
    (after : (next value).Safe allowed past) :
    (scope.call chain method next).Safe allowed past := by
  refine safe_use evaluated covered ?_
  obtain ⟨member, read⟩ :=
    Value.exists_member? scope.inherited (Value.isAbsent_of_isTrue holds) method
  rw [read]
  exact after

end Scope

end HttpClientGen.Script
