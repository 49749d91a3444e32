import HttpClientGen.Discrimination
import HttpClientGen.FieldAccess
import HttpClientGen.Options

/-!
# Generation sessions

What one run of the generator carries along: its options, the type names that have been claimed, the
answers about messages that need two shapes, and the faults found so far.
-/

namespace HttpClientGen

/-!
## Faults of a schema

What can be wrong with the binding of a method. Faults are collected, so that one run reports all
of them.
-/

/-- A fault in the binding of a method, which is known by its full name. -/
inductive GenerationError
  | templateSyntax (method : String) (cause : SyntaxError)
  | unresolvedFieldPath (method : String) (path : FieldPath) (cause : AccessError)
  | unresolvedMessage (method message : String)
  deriving DecidableEq, Repr

def GenerationError.message : GenerationError → String
  | templateSyntax method cause => "(" ++ method ++ ") " ++ cause.message
  | unresolvedFieldPath method path cause =>
    "(" ++ method ++ ") field path `" ++ path.toString ++ "` cannot be resolved: " ++ cause.reason
  | unresolvedMessage method message =>
    "(" ++ method ++ ") message `" ++ message ++ "` is not part of the descriptor set"

/-!
## Claimed type names

Each output unit declares a type name once, for the first message that claims it. Later claims for
the same message are recognised, and claims for another message are collisions. Units do not share
their names.
-/

inductive Claim
  | new
  /-- The name was claimed for the same message before. -/
  | existing
  /-- The name was claimed for this other message before. -/
  | collision (owner : String)
  deriving DecidableEq, Repr

def Claim.isNew : Claim → Bool
  | new => true
  | _ => false

/-- Which message owns a type name in a unit. -/
structure Registry where
  entries : List ((String × String) × String) := []
  deriving DecidableEq, Repr

namespace Registry

def owner? (registry : Registry) (unit typeName : String) : Option String :=
  registry.entries.lookup (unit, typeName)

def size (registry : Registry) : Nat :=
  registry.entries.length

def claim (registry : Registry) (unit typeName message : String) : Claim × Registry :=
  match registry.owner? unit typeName with
  | some owner => (if owner = message then .existing else .collision owner, registry)
  | none => (.new, ⟨((unit, typeName), message) :: registry.entries⟩)

/-- A claim that is not the first one leaves the registry as it is; a first claim adds its name,
which had no owner. -/
theorem claim_cases (registry : Registry) (unit typeName message : String) :
    ((registry.claim unit typeName message).1.isNew = false ∧
      (registry.claim unit typeName message).2 = registry) ∨
    ((registry.claim unit typeName message).1.isNew = true ∧
      registry.owner? unit typeName = none ∧
      (registry.claim unit typeName message).2 =
        ⟨((unit, typeName), message) :: registry.entries⟩) := by
  unfold claim
  cases owned : registry.owner? unit typeName with
  | none => simp [Claim.isNew]
  | some owner =>
    refine Or.inl ⟨?_, rfl⟩
    by_cases same : owner = message <;> simp [same, Claim.isNew]

end Registry

/-! ## The state of a run -/

structure Session where
  options : Options := {}
  registry : Registry := {}
  memo : Memo := {}
  errors : List GenerationError := []
  deriving DecidableEq, Repr

namespace Session

/-- Asks whether a message needs separate shapes. -/
def ask (session : Session) (schema : Schema) (fullName : String) : Bool × Session :=
  let (answer, memo) := session.memo.ask schema fullName
  (answer, { session with memo })

def askGiven (session : Session) (schema : Schema) (message : Message) : Bool × Session :=
  let (answer, memo) := session.memo.askGiven schema message
  (answer, { session with memo })

/-- Claims a type name; the answer says whether the claim was the first one. -/
def claim (session : Session) (unit typeName message : String) : Bool × Session :=
  let (claim, registry) := session.registry.claim unit typeName message
  (claim.isNew, { session with registry })

def report (session : Session) (errors : List GenerationError) : Session :=
  { session with errors := session.errors ++ errors }

end Session

end HttpClientGen
