import HttpClientGen.Proofs.Discrimination
import HttpClientGen.Session

/-!
# What a session remembers

Most steps of a run only ask which messages need separate shapes. Such a step recalls: it leaves
everything as it was except for the remembered answers, and those stay right. Two sessions are alike
for a unit if a step that writes into this unit cannot tell them apart. The faults found so far have
no part in that, and neither have the type names of other units.
-/

namespace HttpClientGen

namespace Registry

/-- A claim gives a name its first owner and leaves all other names alone. -/
theorem owner?_claim (registry : Registry) (unit name message : String)
    (otherUnit otherName : String) :
    (registry.claim unit name message).2.owner? otherUnit otherName =
      if otherUnit = unit ∧ otherName = name then some ((registry.owner? unit name).getD message)
      else registry.owner? otherUnit otherName := by
  rw [claim]
  cases owned : registry.owner? unit name with
  | some owner =>
    by_cases same : otherUnit = unit ∧ otherName = name
    · obtain ⟨rfl, rfl⟩ := same
      simpa using owned
    · simp [same]
  | none =>
    by_cases same : otherUnit = unit ∧ otherName = name
    · obtain ⟨rfl, rfl⟩ := same
      simp [owner?]
    · have differ : ((otherUnit, otherName) == (unit, name)) = false := by
        simpa using same
      simp [same, owner?, List.lookup_cons, differ]

/-- A claim is the first one if the name has no owner. -/
theorem isNew_claim (registry : Registry) (unit name message : String) :
    (registry.claim unit name message).1.isNew = (registry.owner? unit name).isNone := by
  rw [claim]
  cases registry.owner? unit name with
  | none => rfl
  | some owner => by_cases same : owner = message <;> simp [same, Claim.isNew]

end Registry

namespace Session

variable {schema : Schema} {session before between after : Session}

/-- A state differs from an earlier one at most in the claimed names and in the remembered answers,
which are right. -/
structure Keeps (schema : Schema) (before after : Session) : Prop where
  options : after.options = before.options
  errors : after.errors = before.errors
  sound : after.memo.Sound schema

/-- A state differs from an earlier one in nothing but the remembered answers, which are right. -/
structure Recalls (schema : Schema) (before after : Session) : Prop
    extends Keeps schema before after where
  registry : after.registry = before.registry

theorem Keeps.refl (sound : session.memo.Sound schema) : Keeps schema session session :=
  ⟨rfl, rfl, sound⟩

theorem Keeps.trans (first : Keeps schema before between) (second : Keeps schema between after) :
    Keeps schema before after where
  options := second.options.trans first.options
  errors := second.errors.trans first.errors
  sound := second.sound

/-- Two states, over a schema each, that are the same to whatever is written into a unit. -/
structure Alike (schema other : Schema) (unit : String) (first second : Session) : Prop where
  options : second.options = first.options
  owners : ∀ name, second.registry.owner? unit name = first.registry.owner? unit name
  firstSound : first.memo.Sound schema
  secondSound : second.memo.Sound other

/-- Alike states stay so when each of them takes up faults and answers of its own. -/
theorem Alike.of_recalls {other : Schema} {unit : String} {first second first' second' : Session}
    {errors errors' : List GenerationError} (alike : Alike schema other unit first second)
    (recalls : (first.report errors).Recalls schema first')
    (recalls' : (second.report errors').Recalls other second') :
    Alike schema other unit first' second' where
  options := recalls'.options.trans (alike.options.trans recalls.options.symm)
  owners name := by
    rw [recalls.registry, recalls'.registry]
    exact alike.owners name
  firstSound := recalls.sound
  secondSound := recalls'.sound

end Session

end HttpClientGen
