import HttpClientGen.Variant

/-!
# Writing the shapes that are needed

A message is asked for with the directions in which it is used. Its shapes are written, unless their
names have been claimed, and the messages that a shape refers to are asked for in turn. Only a name
that is claimed for the first time brings new messages into the queue, so the queue runs empty even
where messages refer to each other.
-/

namespace HttpClientGen

/-- A message that has been asked for, and the directions in which it is used. -/
structure Usage where
  message : String
  inRequest : Bool
  inResponse : Bool
  deriving DecidableEq, Repr

namespace Usage

def isIn (usage : Usage) : Direction → Bool
  | .request => usage.inRequest
  | .response => usage.inResponse

/-- The use of another message wherever this one is used, and in `direction` in any case. -/
def passOn (usage : Usage) (direction : Direction) (message : String) : Usage :=
  ⟨message, usage.inRequest || direction = .request, usage.inResponse || direction = .response⟩

end Usage

/-- What one entry of the queue gives: the shapes to write, the messages they ask for, and the
state after them. -/
structure Written where
  records : List RecordType
  pending : List Usage
  session : Session

def Written.nothing (session : Session) : Written :=
  ⟨[], [], session⟩

namespace Viewpoint

def writeDefault (view : Viewpoint) (session : Session) (message : Message) : Written :=
  let (new, session) :=
    session.claim view.package (view.messageName message.fullName) message.fullName
  ⟨if new then [view.defaultRecord message] else [], [], session⟩

/-- Writes the shape of a message for a direction, unless its name is claimed or the message is not
used in that direction. -/
def writeVariant (view : Viewpoint) (session : Session) (usage : Usage) (message : Message)
    (direction : Direction) : Written :=
  if usage.isIn direction then
    let name := view.variantName session.options direction message.fullName
    let (new, session) := session.claim view.package name message.fullName
    if new then
      let ((record, targets), session) := view.variantRecord direction session message
      ⟨[record], targets.map (usage.passOn direction), session⟩
    else .nothing session
  else .nothing session

/-- Writes what an entry of the queue asks for. -/
def write (view : Viewpoint) (session : Session) (usage : Usage) : Written :=
  match view.schema.message? usage.message with
  | none => .nothing session
  | some message =>
    if isWellKnown usage.message then .nothing session
    else if usage.inRequest || usage.inResponse then
      let (separate, session) := session.ask view.schema usage.message
      if separate then
        let first := view.writeVariant session usage message .request
        let second := view.writeVariant first.session usage message .response
        ⟨first.records ++ second.records, first.pending ++ second.pending, second.session⟩
      else view.writeDefault session message
    else view.writeDefault session message

def writeGiven (view : Viewpoint) (session : Session) (usage : Usage) (message : Message) :
    Written :=
  if isWellKnown message.fullName then .nothing session
  else if usage.inRequest || usage.inResponse then
    let (separate, session) := session.askGiven view.schema message
    if separate then
      let first := view.writeVariant session usage message .request
      let second := view.writeVariant first.session usage message .response
      ⟨first.records ++ second.records, first.pending ++ second.pending, second.session⟩
    else view.writeDefault session message
  else view.writeDefault session message

def variantNames (view : Viewpoint) (options : Options) : List String :=
  view.schema.messageNames.flatMap fun fullName =>
    [view.variantName options .request fullName, view.variantName options .response fullName]

/-- The type names of shapes for a direction that nobody has claimed yet. -/
def unclaimed (view : Viewpoint) (session : Session) : List String :=
  (view.variantNames session.options).filter fun name =>
    (session.registry.owner? view.package name).isNone

/-- A state that differs in nothing that `unclaimed` looks at has the same unclaimed names. -/
theorem unclaimed_congr (view : Viewpoint) {session other : Session}
    (options : other.options = session.options) (registry : other.registry = session.registry) :
    view.unclaimed other = view.unclaimed session := by
  simp [unclaimed, options, registry]

/-- A claim takes at most its own name off the unclaimed ones. -/
theorem unclaimed_claim (view : Viewpoint) (session : Session) (name owner : String) :
    ((session.claim view.package name owner).1 = false ∧
      view.unclaimed (session.claim view.package name owner).2 = view.unclaimed session) ∨
    (session.registry.owner? view.package name = none ∧
      view.unclaimed (session.claim view.package name owner).2 =
        (view.unclaimed session).filter (· ≠ name)) := by
  rcases session.registry.claim_cases view.package name owner with ⟨old, same⟩ | ⟨-, free, added⟩
  · exact Or.inl ⟨old, view.unclaimed_congr rfl same⟩
  · refine Or.inr ⟨free, ?_⟩
    simp only [unclaimed, Session.claim, added, List.filter_filter]
    refine List.filter_congr fun other _ => ?_
    by_cases same : other = name
    · simp [same, Registry.owner?]
    · have differ : ((view.package, other) == (view.package, name)) = false := by simp [same]
      simp [same, Registry.owner?, List.lookup_cons, differ]

theorem unclaimed_claim_le (view : Viewpoint) (session : Session) (name owner : String) :
    (view.unclaimed (session.claim view.package name owner).2).length ≤
      (view.unclaimed session).length := by
  rcases view.unclaimed_claim session name owner with ⟨-, same⟩ | ⟨-, fewer⟩
  · exact Nat.le_of_eq (congrArg List.length same)
  · exact fewer ▸ List.length_filter_le _ _

/-- The first claim of a name that some shape has takes it off the unclaimed ones. -/
theorem unclaimed_claim_lt {view : Viewpoint} {session : Session} {name owner : String}
    (new : (session.claim view.package name owner).1 = true)
    (listed : name ∈ view.variantNames session.options) :
    (view.unclaimed (session.claim view.package name owner).2).length <
      (view.unclaimed session).length := by
  rcases view.unclaimed_claim session name owner with ⟨old, -⟩ | ⟨free, fewer⟩
  · simp [new] at old
  · rw [fewer]
    refine List.length_filter_lt_length_iff_exists.mpr ⟨name, ?_, by simp⟩
    simp [unclaimed, listed, free]

theorem variantName_mem_variantNames {view : Viewpoint} {fullName : String} {message : Message}
    (found : view.schema.message? fullName = some message) (options : Options)
    (direction : Direction) :
    view.variantName options direction fullName ∈ view.variantNames options := by
  refine List.mem_flatMap.mpr ⟨fullName, Schema.mem_messageNames_of_message? found, ?_⟩
  cases direction <;> simp

theorem variantProperties_session (view : Viewpoint) (direction : Direction) (session : Session)
    (fields : List Field) :
    (view.variantProperties direction session fields).2.options = session.options ∧
      (view.variantProperties direction session fields).2.registry = session.registry := by
  induction fields generalizing session with
  | nil => exact ⟨rfl, rfl⟩
  | cons field fields ih =>
    have target : (view.variantTarget session field).2.options = session.options ∧
        (view.variantTarget session field).2.registry = session.registry := by
      unfold variantTarget
      split
      · exact ⟨rfl, rfl⟩
      · split <;> exact ⟨rfl, rfl⟩
    have rest := ih (view.variantTarget session field).2
    exact ⟨rest.1.trans target.1, rest.2.trans target.2⟩

/-- Writing a shape claims its name or asks for nothing. -/
theorem unclaimed_writeVariant {view : Viewpoint} {message : Message}
    {fullName : String} (found : view.schema.message? fullName = some message) (usage : Usage)
    (session : Session) (direction : Direction) :
    (view.writeVariant session usage message direction).session.options = session.options ∧
      (view.unclaimed (view.writeVariant session usage message direction).session).length ≤
        (view.unclaimed session).length ∧
      ((view.writeVariant session usage message direction).pending = [] ∨
        (view.unclaimed (view.writeVariant session usage message direction).session).length <
          (view.unclaimed session).length) := by
  obtain rfl := Schema.fullName_of_message? found
  let name := view.variantName session.options direction message.fullName
  let claimed := session.claim view.package name message.fullName
  have fewer := view.unclaimed_claim_le session name message.fullName
  unfold writeVariant
  split
  · by_cases new : claimed.1 = true
    · have kept := view.variantProperties_session direction claimed.2 (message.fieldsIn direction)
      have same := view.unclaimed_congr kept.1 kept.2
      have lt := unclaimed_claim_lt new (variantName_mem_variantNames found _ _)
      simp only [claimed, name] at new same kept lt
      simp only [new, if_true, variantRecord, same, kept]
      exact ⟨rfl, Nat.le_of_lt lt, Or.inr lt⟩
    · simp only [claimed, name] at new
      simp only [new]
      exact ⟨rfl, fewer, Or.inl rfl⟩
  · exact ⟨rfl, Nat.le_refl _, Or.inl rfl⟩

/-- An entry of the queue claims a name that some shape has, or asks for nothing. -/
theorem unclaimed_write (view : Viewpoint) (session : Session) (usage : Usage) :
    (view.unclaimed (view.write session usage).session).length < (view.unclaimed session).length ∨
      ((view.unclaimed (view.write session usage).session).length ≤
        (view.unclaimed session).length ∧ (view.write session usage).pending = []) := by
  have default (session : Session) (message : Message) :
      (view.unclaimed (view.writeDefault session message).session).length ≤
        (view.unclaimed session).length ∧ (view.writeDefault session message).pending = [] :=
    ⟨view.unclaimed_claim_le _ _ _, rfl⟩
  unfold write
  split
  · exact Or.inr ⟨Nat.le_refl _, rfl⟩
  · next message found =>
    have asked : view.unclaimed (session.ask view.schema usage.message).2 =
        view.unclaimed session := view.unclaimed_congr rfl rfl
    split
    · exact Or.inr ⟨Nat.le_refl _, rfl⟩
    · split
      · dsimp only
        split
        · have first := unclaimed_writeVariant found usage
            (session.ask view.schema usage.message).2 .request
          have second := unclaimed_writeVariant found usage
            (view.writeVariant (session.ask view.schema usage.message).2 usage message
              .request).session .response
          rw [asked] at first
          rcases first.2.2 with none | less
          · rcases second.2.2 with none' | less'
            · exact Or.inr ⟨Nat.le_trans second.2.1 first.2.1, by simp [none, none']⟩
            · exact Or.inl (Nat.lt_of_lt_of_le less' first.2.1)
          · exact Or.inl (Nat.lt_of_le_of_lt second.2.1 less)
        · exact Or.inr (asked ▸ default _ _)
      · exact Or.inr (default _ _)

/-- The queue that an entry leaves behind is shorter, unless fewer names are unclaimed. -/
theorem lex_write (view : Viewpoint) (session : Session) (usage : Usage) (queue : List Usage) :
    Prod.Lex (· < ·) (· < ·)
      ((view.unclaimed (view.write session usage).session).length,
        (queue ++ (view.write session usage).pending).length)
      ((view.unclaimed session).length, (usage :: queue).length) := by
  rcases view.unclaimed_write session usage with less | ⟨le, none⟩
  · exact Prod.Lex.left _ _ less
  · rw [none]
    rcases Nat.lt_or_eq_of_le le with less | same
    · exact Prod.Lex.left _ _ less
    · rw [same]
      exact Prod.Lex.right _ (by simp)

/-- Writes what the entries of a queue ask for, in the order of the queue, and then what those have
asked for. -/
def writeAll (view : Viewpoint) (session : Session) :
    List Usage → List RecordType × Session
  | [] => ([], session)
  | usage :: queue =>
    let written := view.write session usage
    let (records, session) := view.writeAll written.session (queue ++ written.pending)
    (written.records ++ records, session)
termination_by queue => ((view.unclaimed session).length, queue.length)
decreasing_by exact view.lex_write session usage queue

/-- Writes all shapes that a message needs when it is used in the given directions. -/
def synthesize (view : Viewpoint) (session : Session) (usage : Usage) :
    List RecordType × Session :=
  view.writeAll session [usage]

/-- Writes all shapes that a message needs which is given itself. The messages that they refer to are
those of the schema. -/
def synthesizeGiven (view : Viewpoint) (session : Session) (message : Message)
    (inRequest inResponse : Bool) : List RecordType × Session :=
  let written := view.writeGiven session ⟨message.fullName, inRequest, inResponse⟩ message
  let (records, session) := view.writeAll written.session written.pending
  (written.records ++ records, session)

end Viewpoint

end HttpClientGen
