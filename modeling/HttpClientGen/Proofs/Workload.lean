import HttpClientGen.Proofs.Lookup
import HttpClientGen.Proofs.Properties

/-!
# The work of a run

An entry of the queue is either the first one, or it has been passed on by a record for a field of
this record. The records of a run have names of their own, so there is at most one for each direction
of a message, and the fields of all messages bound the work. Whatever a run has claimed and been
answered lasts, so the same run comes to nothing if it is made again, even after other ones.
-/

namespace HttpClientGen

/-- Where items have names of their own, and each is outweighed by a key of the same name, the items
together are outweighed by the keys. -/
theorem length_flatMap_le_of_nodup {α β γ δ ε : Type} {name : α → γ} (keyName : β → γ)
    {weight : α → List δ} {bound : β → List ε} {items : List α} {keys : List β}
    (distinct : (items.map name).Nodup)
    (each : ∀ item ∈ items, ∃ key ∈ keys,
      keyName key = name item ∧ (weight item).length ≤ (bound key).length) :
    (items.flatMap weight).length ≤ (keys.flatMap bound).length := by
  induction items generalizing keys with
  | nil => exact Nat.zero_le _
  | cons item items ih =>
    obtain ⟨new, others⟩ := List.nodup_cons.mp distinct
    obtain ⟨key, listed, same, le⟩ := each item List.mem_cons_self
    obtain ⟨front, back, rfl⟩ := List.append_of_mem listed
    -- The key of the first item is not needed for the others, whose names are different.
    have rest : (items.flatMap weight).length ≤ ((front ++ back).flatMap bound).length := by
      apply ih others
      intro other later
      obtain ⟨otherKey, otherListed, otherSame, otherLe⟩ :=
        each other (List.mem_cons_of_mem item later)
      have differ : otherKey ≠ key := by
        rintro rfl
        apply new
        rw [← same, otherSame]
        exact List.mem_map_of_mem later
      refine ⟨otherKey, ?_, otherSame, otherLe⟩
      rcases List.mem_append.mp otherListed with isFront | isBack
      · exact List.mem_append_left back isFront
      · exact List.mem_append_right front (List.mem_of_ne_of_mem differ isBack)
    simp only [List.flatMap_append, List.flatMap_cons, List.length_append] at rest ⊢
    omega

namespace Schema

def fieldCount (schema : Schema) : Nat :=
  ((schema.files.flatMap (·.messages)).flatMap (·.fields)).length

def allShapes (schema : Schema) : List (Message × Option Direction) :=
  (schema.files.flatMap (·.messages)).flatMap fun message =>
    [(message, none), (message, some .request), (message, some .response)]

/-- The fields for which a shape may pass on a message. -/
def passingFields : Message × Option Direction → List Field
  | (_, none) => []
  | (message, some _) => message.fields

theorem mem_allShapes {schema : Schema} {message : Message}
    (listed : message ∈ schema.files.flatMap (·.messages)) (shape : Option Direction) :
    (message, shape) ∈ schema.allShapes := by
  apply List.mem_flatMap.mpr
  refine ⟨message, listed, ?_⟩
  rcases shape with _ | _ | _ <;> simp

/-- A field may be in the shapes for both directions. -/
theorem length_passingFields (schema : Schema) :
    (schema.allShapes.flatMap passingFields).length = 2 * schema.fieldCount := by
  rw [allShapes, fieldCount]
  induction schema.files.flatMap (·.messages) with
  | nil => rfl
  | cons message messages ih =>
    simp only [List.flatMap_cons, List.flatMap_nil, List.flatMap_append, List.length_append,
      List.length_nil, passingFields, ih]
    omega

end Schema

namespace Viewpoint

variable {view : Viewpoint} {session : Session}

/-- A shape passes on at most one message for each field. -/
theorem IsDemand.length_pending_le {separate : String → Bool} {options : Options} {usage : Usage}
    {source : Message} {shape : Option Direction} {demand : Demand}
    (isDemand : view.IsDemand separate options usage source shape demand) :
    demand.pending.length ≤ (Schema.passingFields (source, shape)).length := by
  rw [isDemand.demand]
  cases shape with
  | none => exact Nat.le_refl 0
  | some direction =>
    simp only [demandBy, List.length_map, Schema.passingFields]
    calc ((source.fieldsIn direction).filterMap (·.target? separate)).length
        ≤ (source.fieldsIn direction).length := List.length_filterMap_le _ _
      _ ≤ source.fields.length := List.length_filter_le _ _

/-- The entries that a run takes are at most one more than twice the fields of all messages. -/
theorem length_takenGiven_le {message : Message}
    (listed : message ∈ view.schema.files.flatMap (·.messages)) (inRequest inResponse : Bool) :
    (view.takenGiven session message inRequest inResponse).length ≤
      1 + 2 * view.schema.fieldCount := by
  obtain ⟨granted, accounts⟩ := view.exists_accounts session message inRequest inResponse
  have passed : (granted.flatMap (·.pending)).length ≤
      (view.schema.allShapes.flatMap Schema.passingFields).length := by
    apply length_flatMap_le_of_nodup (fun key => view.typeName session.options key.1 key.2)
      accounts.names
    intro demand isGranted
    obtain ⟨usage, -, source, shape, known, isDemand⟩ := accounts.shapes demand isGranted
    have isListed : source ∈ view.schema.files.flatMap (·.messages) := by
      rcases known with rfl | found
      · exact listed
      · exact List.mem_flatMap.mpr (Schema.mem_files_of_message? found)
    refine ⟨(source, shape), Schema.mem_allShapes isListed shape, ?_, isDemand.length_pending_le⟩
    rw [isDemand.demand]
    exact (view.recordBy_name _ session.options source shape).symm
  rw [Schema.length_passingFields] at passed
  rw [accounts.taken, List.length_cons]
  omega

/-- What comes after the first message of a run takes nothing back. -/
theorem extends_synthesizeGiven (view : Viewpoint) (session : Session) (message : Message)
    (inRequest inResponse : Bool) :
    (view.writeGiven session ⟨message.fullName, inRequest, inResponse⟩ message).session.Extends
      (view.synthesizeGiven session message inRequest inResponse).2 := by
  obtain ⟨later, -, -, same⟩ :=
    view.synthesizeGiven_eq_writeEach session message inRequest inResponse
  rw [same]
  exact (view.writeEach_performs _ later).follows.toExtends

theorem writeDefault_of_owned {message : Message}
    (owned : (session.registry.owner? view.package (view.messageName message.fullName)).isSome) :
    view.writeDefault session message = .nothing session := by
  rw [writeDefault, Session.claim_of_owned owned]
  rfl

theorem writeVariant_of_owned {usage : Usage} {message : Message} {direction : Direction}
    (owned : usage.isIn direction = true → (session.registry.owner? view.package
      (view.variantName session.options direction message.fullName)).isSome) :
    view.writeVariant session usage message direction = .nothing session := by
  rw [writeVariant]
  split
  · next used =>
    simp only [Session.claim_of_owned (owned used)]
    rfl
  · rfl

/-- A session is done with an entry whose message is given itself: the message has been asked about,
unless that is not necessary, and the names of all shapes that the entry asks for have an owner. -/
structure Done (view : Viewpoint) (session : Session) (usage : Usage) (message : Message)
    (answer : Bool) : Prop where
  remembered : isWellKnown message.fullName = false →
    (usage.inRequest || usage.inResponse) = true →
    session.memo.answers.lookup message.fullName = some answer
  owned : ∀ shape ∈ usage.shapes message answer, (session.registry.owner? view.package
    (view.typeName session.options message shape)).isSome

/-- A session stays done with what it is done with. -/
theorem Done.of_extends {usage : Usage} {message : Message} {answer : Bool} {after : Session}
    (done : view.Done session usage message answer) (extended : session.Extends after) :
    view.Done after usage message answer := by
  constructor
  · intro ordinary used
    exact extended.memo _ _ (done.remembered ordinary used)
  · intro shape asked
    rw [extended.options]
    obtain ⟨owner, owned⟩ := Option.isSome_iff_exists.mp (done.owned shape asked)
    exact Option.isSome_iff_exists.mpr ⟨owner, extended.owners _ _ owner owned⟩

/-- Writing an entry is all that there is to do about it. -/
theorem done_writeGiven (view : Viewpoint) (session : Session) (usage : Usage)
    (message : Message) :
    view.Done (view.writeGiven session usage message).session usage message
      (session.askGiven view.schema message).1 := by
  have performs : view.Performs (view.asked session usage message) _ _ :=
    view.writeGiven_performs session usage message
  constructor
  · intro ordinary used
    have asked : view.asked session usage message = (session.askGiven view.schema message).2 :=
      if_neg (by simp [ordinary, used])
    apply performs.follows.memo
    rw [asked]
    exact session.memo.lookup_askGiven view.schema message
  · intro shape isAsked
    let asked := view.asked session usage message
    let demand := view.demandBy (asked.memo.answer view.schema) asked.options usage message shape
    have demanded : demand ∈ (usage.shapes message (session.askGiven view.schema message).1).map
        (view.demandBy (asked.memo.answer view.schema) asked.options usage message) :=
      List.mem_map_of_mem isAsked
    have named : demand.record.name = view.typeName asked.options message shape :=
      view.recordBy_name _ asked.options message shape
    rw [performs.registry, performs.follows.options, ← named]
    exact Registry.owner?_grant_isSome demanded

/-- Nothing is written for an entry that the session is done with. -/
theorem writeGiven_of_done {usage : Usage} {message : Message} {answer : Bool}
    (done : view.Done session usage message answer) :
    view.writeGiven session usage message = .nothing session := by
  obtain ⟨remembered, owned⟩ := done
  rw [Usage.shapes] at owned
  rw [writeGiven]
  by_cases known : isWellKnown message.fullName = true
  · rw [if_pos known]
  rw [if_neg known] at owned ⊢
  by_cases used : (usage.inRequest || usage.inResponse) = true
  · have asks : session.askGiven view.schema message = (answer, session) := by
      rw [Session.askGiven, Memo.askGiven_of_lookup (remembered (by simpa using known) used)]
    rw [if_pos used, asks]
    rw [used, Bool.true_and] at owned
    by_cases separate : answer = true
    · rw [if_pos separate] at owned
      have variant (direction : Direction) :
          view.writeVariant session usage message direction = .nothing session := by
        apply writeVariant_of_owned
        intro isUsed
        apply owned (some direction)
        apply List.mem_map_of_mem
        apply List.mem_filter.mpr
        exact ⟨by cases direction <;> simp, isUsed⟩
      simp only [separate, if_true, variant, Written.nothing, List.append_nil]
    · rw [if_neg separate] at owned
      simp only [separate]
      exact writeDefault_of_owned (owned none List.mem_cons_self)
  · rw [if_neg (by simp [used])] at owned
    rw [if_neg used]
    exact writeDefault_of_owned (owned none List.mem_cons_self)

end Viewpoint

/-- A call for all shapes that a message needs in a unit. -/
structure SynthesisCall where
  unit : String
  message : Message
  inRequest : Bool
  inResponse : Bool

namespace SynthesisCall

variable {schema : Schema} {session : Session}

def perform (call : SynthesisCall) (schema : Schema) (session : Session) :
    List RecordType × Session :=
  (Viewpoint.mk schema call.unit).synthesizeGiven session call.message call.inRequest
    call.inResponse

def usage (call : SynthesisCall) : Usage :=
  ⟨call.message.fullName, call.inRequest, call.inResponse⟩

/-- The entries that a call takes from its queue. -/
def entries (call : SynthesisCall) (schema : Schema) (session : Session) : List Usage :=
  (Viewpoint.mk schema call.unit).takenGiven session call.message call.inRequest call.inResponse

def performAll (schema : Schema) (session : Session) (calls : List SynthesisCall) : Session :=
  calls.foldl (fun session call => (call.perform schema session).2) session

/-- A session is done with the first entry of a call. -/
def IsDone (call : SynthesisCall) (schema : Schema) (session : Session) : Prop :=
  ∃ answer, (Viewpoint.mk schema call.unit).Done session call.usage call.message answer

theorem isDone_perform (call : SynthesisCall) (schema : Schema) (session : Session) :
    call.IsDone schema (call.perform schema session).2 :=
  ⟨_, (Viewpoint.done_writeGiven _ session _ call.message).of_extends
    (Viewpoint.extends_synthesizeGiven _ session call.message call.inRequest call.inResponse)⟩

theorem extends_perform (call : SynthesisCall) (schema : Schema) (session : Session) :
    session.Extends (call.perform schema session).2 := by
  obtain ⟨_, accounts⟩ := (Viewpoint.mk schema call.unit).exists_accounts session call.message
    call.inRequest call.inResponse
  exact accounts.extended

theorem extends_performAll (schema : Schema) (session : Session) (calls : List SynthesisCall) :
    session.Extends (performAll schema session calls) := by
  induction calls generalizing session with
  | nil => exact .refl session
  | cons call calls ih => exact (call.extends_perform schema session).trans (ih _)

/-- After some calls, the session is done with each of them. -/
theorem isDone_performAll {calls : List SynthesisCall} {call : SynthesisCall}
    (made : call ∈ calls) (session : Session) :
    call.IsDone schema (performAll schema session calls) := by
  induction calls generalizing session with
  | nil => cases made
  | cons first calls ih =>
    rcases List.mem_cons.mp made with rfl | later
    · obtain ⟨answer, done⟩ := call.isDone_perform schema session
      exact ⟨answer, done.of_extends (extends_performAll schema _ calls)⟩
    · exact ih later _

/-- A call that the session is done with comes to nothing. -/
theorem perform_of_isDone {call : SynthesisCall} (done : call.IsDone schema session) :
    call.perform schema session = ([], session) := by
  obtain ⟨answer, done⟩ := done
  have idle := Viewpoint.writeGiven_of_done done
  rw [usage] at idle
  rw [perform, Viewpoint.synthesizeGiven, idle]
  simp only [Written.nothing, Viewpoint.writeAll, List.append_nil]

/-- Whatever a session has been used for, a call takes at most one entry more from its queue than
twice the fields of all messages. These entries are the first one and all that are passed on, and the
call amounts to writing what they ask for, one after the other. After any calls, each of them may be
made again without any effect. -/
theorem calls_bounded_and_repeatable (schema : Schema) (session : Session) :
    (∀ call : SynthesisCall, call.message ∈ schema.files.flatMap (·.messages) →
      (call.entries schema session).length ≤ 1 + 2 * schema.fieldCount) ∧
    (∀ call : SynthesisCall,
      let view : Viewpoint := ⟨schema, call.unit⟩
      let first := view.writeGiven session call.usage call.message
      ∃ later,
        let others := view.writeEach first.session later
        call.entries schema session = call.usage :: later ∧
          later = first.pending ++ others.pending ∧
          call.perform schema session = (first.records ++ others.records, others.session)) ∧
    ∀ calls, ∀ call ∈ calls, call.perform schema (performAll schema session calls) =
      ([], performAll schema session calls) := by
  refine ⟨?_, ?_, ?_⟩
  · intro call listed
    exact Viewpoint.length_takenGiven_le listed call.inRequest call.inResponse
  · intro call
    exact Viewpoint.synthesizeGiven_eq_writeEach _ session call.message _ _
  · intro calls call made
    exact perform_of_isDone (isDone_performAll made session)

/-- The folder refers to itself in both of its shapes, and still five entries are enough. -/
theorem calls_linkedFolder :
    let schema := Viewpoint.linkedView.schema
    let call : SynthesisCall := ⟨"disk", Viewpoint.linkedFolder, true, true⟩
    (call.entries schema {}).length ≤ 5 ∧
      call.perform schema (performAll schema {} [call]) = ([], performAll schema {} [call]) := by
  intro schema call
  obtain ⟨bounded, -, repeatable⟩ := calls_bounded_and_repeatable schema {}
  constructor
  · exact bounded call List.mem_cons_self
  · exact repeatable [call] call List.mem_cons_self

end SynthesisCall

end HttpClientGen
