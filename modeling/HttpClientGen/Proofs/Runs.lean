import HttpClientGen.Proofs.Answered
import HttpClientGen.Proofs.Trace

/-!
# The accounts of a run

A run takes entries from its queue until nothing is left. Each record that is granted its name puts
the messages that it refers to at the end of the queue, so apart from the first one every entry is
paid for by such a record. The granted records have names of their own, and each of them is the shape
of a message for an entry that the run has taken.
-/

namespace HttpClientGen

theorem Usage.isIn_of_mem_shapes {usage : Usage} {message : Message} {separate : Bool}
    {direction : Direction} (asked : some direction ∈ usage.shapes message separate) :
    usage.isIn direction = true := by
  rw [shapes] at asked
  split at asked
  · cases asked
  · split at asked
    · obtain ⟨other, used, same⟩ := List.mem_map.mp asked
      cases same
      exact (List.mem_filter.mp used).2
    · simp at asked

namespace Viewpoint

variable {view : Viewpoint} {session : Session}

/-- Writes what some entries ask for, one after the other, and collects what they pass on. -/
def writeEach (view : Viewpoint) (session : Session) : List Usage → Written
  | [] => .nothing session
  | usage :: usages =>
    let first := view.write session usage
    let others := view.writeEach first.session usages
    ⟨first.records ++ others.records, first.pending ++ others.pending, others.session⟩

/-- A run writes what the entries ask for that it takes from its queue. These are the ones that are in
the queue at first, and then all that are passed on. -/
theorem writeAll_eq_writeEach (view : Viewpoint) (session : Session) (queue : List Usage) :
    let written := view.writeEach session (view.taken session queue)
    view.writeAll session queue = (written.records, written.session) ∧
      view.taken session queue = queue ++ written.pending := by
  fun_induction writeAll view session queue with
  | case1 session =>
    rw [taken]
    exact ⟨rfl, rfl⟩
  | case2 session usage queue written records after rest ih =>
    obtain ⟨same, order⟩ := ih
    obtain ⟨sameRecords, sameSession⟩ := Prod.mk.inj (rest.symm.trans same)
    have taken : view.taken session (usage :: queue) =
        usage :: view.taken written.session (queue ++ written.pending) := by
      rw [taken]
    rw [taken]
    constructor
    · rw [sameRecords, sameSession]
      rfl
    · rw [List.append_assoc] at order
      exact congrArg (usage :: ·) order

/-- Entries that are written one after the other perform what they demand. -/
theorem writeEach_performs (view : Viewpoint) (session : Session) (usages : List Usage) :
    view.Performs session
      (usages.flatMap (view.demandsBy (session.memo.answer view.schema) session.options))
      (view.writeEach session usages) := by
  induction usages generalizing session with
  | nil => exact view.performs_nothing session
  | cons usage usages ih =>
    have first := view.write_performs session usage
    have others := ih (view.write session usage).session
    rw [first.follows.answers, first.follows.options] at others
    exact first.append others

/-- The entries that a run takes whose first message is given itself. -/
def takenGiven (view : Viewpoint) (session : Session) (message : Message)
    (inRequest inResponse : Bool) : List Usage :=
  let usage : Usage := ⟨message.fullName, inRequest, inResponse⟩
  let written := view.writeGiven session usage message
  usage :: view.taken written.session written.pending

/-- A run over a message writes what the message asks for itself, and then what the other entries ask
for that it takes. Those are all that are passed on. -/
theorem synthesizeGiven_eq_writeEach (view : Viewpoint) (session : Session) (message : Message)
    (inRequest inResponse : Bool) :
    let usage : Usage := ⟨message.fullName, inRequest, inResponse⟩
    let first := view.writeGiven session usage message
    ∃ later,
      let others := view.writeEach first.session later
      view.takenGiven session message inRequest inResponse = usage :: later ∧
        later = first.pending ++ others.pending ∧
        view.synthesizeGiven session message inRequest inResponse =
          (first.records ++ others.records, others.session) := by
  intro usage first
  obtain ⟨same, order⟩ := view.writeAll_eq_writeEach first.session first.pending
  refine ⟨view.taken first.session first.pending, rfl, order, ?_⟩
  rw [synthesizeGiven, same]

/-- A run performs what its first message demands and then what all other entries demand that it
takes, in a session that knows about the first message. What it passes on are these other entries. -/
theorem synthesizeGiven_performs (view : Viewpoint) (session : Session) (message : Message)
    (inRequest inResponse : Bool) :
    let usage : Usage := ⟨message.fullName, inRequest, inResponse⟩
    let asked := view.asked session usage message
    let separate := asked.memo.answer view.schema
    let run := view.synthesizeGiven session message inRequest inResponse
    ∃ later, view.takenGiven session message inRequest inResponse = usage :: later ∧
      view.Performs asked
        ((usage.shapes message (session.askGiven view.schema message).1).map
            (view.demandBy separate asked.options usage message) ++
          later.flatMap (view.demandsBy separate asked.options))
        ⟨run.1, later, run.2⟩ := by
  intro usage asked separate run
  obtain ⟨later, taken, order, same⟩ :=
    view.synthesizeGiven_eq_writeEach session message inRequest inResponse
  have first := view.writeGiven_performs session usage message
  have others := view.writeEach_performs (view.writeGiven session usage message).session later
  rw [first.follows.answers, first.follows.options] at others
  have both := first.append others
  rw [← order] at both
  have isRun : run = _ := same
  rw [isRun]
  exact ⟨later, taken, both⟩

/-- A demand for a shape of a message, by an entry of the queue that is used in the direction of this
shape. -/
structure IsDemand (view : Viewpoint) (separate : String → Bool) (options : Options)
    (usage : Usage) (source : Message) (shape : Option Direction) (demand : Demand) : Prop where
  asked : usage.message = source.fullName
  directed : ∀ direction, shape = some direction → usage.isIn direction = true
  demand : demand = view.demandBy separate options usage source shape

theorem exists_isDemand_of_mem_shapes {separate : String → Bool} {options : Options} {usage : Usage}
    {source : Message} {own : Bool} {demand : Demand} (asked : usage.message = source.fullName)
    (listed : demand ∈ (usage.shapes source own).map
      (view.demandBy separate options usage source)) :
    ∃ shape, view.IsDemand separate options usage source shape demand := by
  obtain ⟨shape, isShape, rfl⟩ := List.mem_map.mp listed
  refine ⟨shape, asked, ?_, rfl⟩
  rintro direction rfl
  exact Usage.isIn_of_mem_shapes isShape

theorem exists_isDemand_of_mem_demandsBy {separate : String → Bool} {options : Options}
    {usage : Usage} {demand : Demand} (listed : demand ∈ view.demandsBy separate options usage) :
    ∃ source shape, view.schema.message? usage.message = some source ∧
      view.IsDemand separate options usage source shape demand := by
  rw [demandsBy] at listed
  split at listed
  · cases listed
  · next source found =>
    obtain ⟨shape, isDemand⟩ :=
      exists_isDemand_of_mem_shapes (Schema.fullName_of_message? found).symm listed
    exact ⟨source, shape, found, isDemand⟩

/-- The accounts of a run whose first message is given itself: the demands that it has granted, the
entries that it has taken from the queue for them, and whose shapes it has written. -/
structure Accounts (view : Viewpoint) (session : Session) (message : Message)
    (inRequest inResponse : Bool) (granted : List Demand) : Prop where
  records : (view.synthesizeGiven session message inRequest inResponse).1 =
    granted.map (·.record)
  taken : view.takenGiven session message inRequest inResponse =
    ⟨message.fullName, inRequest, inResponse⟩ :: granted.flatMap (·.pending)
  names : (granted.map (·.record.name)).Nodup
  owned : ∀ demand ∈ granted,
    (view.synthesizeGiven session message inRequest inResponse).2.registry.owner? view.package
      demand.record.name = some demand.owner
  shapes : ∀ demand ∈ granted,
    ∃ usage ∈ view.takenGiven session message inRequest inResponse, ∃ source shape,
      (source = message ∨ view.schema.message? usage.message = some source) ∧
        view.IsDemand ((view.synthesizeGiven session message inRequest inResponse).2.memo.answer
          view.schema) session.options usage source shape demand
  extended : session.Extends (view.synthesizeGiven session message inRequest inResponse).2
  answers : view.schema.message? message.fullName = some message →
    (view.synthesizeGiven session message inRequest inResponse).2.memo.answer view.schema =
      session.memo.answer view.schema

/-- Every run can be accounted for. -/
theorem exists_accounts (view : Viewpoint) (session : Session) (message : Message)
    (inRequest inResponse : Bool) :
    ∃ granted, view.Accounts session message inRequest inResponse granted := by
  let usage : Usage := ⟨message.fullName, inRequest, inResponse⟩
  let run := view.synthesizeGiven session message inRequest inResponse
  obtain ⟨later, taken, performs⟩ :=
    view.synthesizeGiven_performs session message inRequest inResponse
  have answers : run.2.memo.answer view.schema = _ := performs.follows.answers
  have asked := (view.extends_asked session usage message).1
  refine ⟨_, ⟨performs.records, ?taken, Registry.nodup_grant _ _ _, ?owned, ?shapes,
    asked.trans performs.follows.toExtends,
    fun found => answers.trans (view.asked_consults session usage found).answers⟩⟩
  case taken =>
    rw [taken]
    exact congrArg (usage :: ·) performs.pending
  case owned =>
    intro demand isGranted
    have registry : run.2.registry = _ := performs.registry
    rw [registry]
    exact (Registry.owner?_of_granted isGranted).2
  case shapes =>
    intro demand isGranted
    rcases List.mem_append.mp (Registry.mem_of_mem_grant isGranted) with own | others
    · obtain ⟨shape, isDemand⟩ := exists_isDemand_of_mem_shapes rfl own
      rw [← answers, asked.options] at isDemand
      exact ⟨usage, List.mem_cons_self, message, shape, Or.inl rfl, isDemand⟩
    · obtain ⟨other, isTaken, demanded⟩ := List.mem_flatMap.mp others
      obtain ⟨source, shape, found, isDemand⟩ := exists_isDemand_of_mem_demandsBy demanded
      rw [← answers, asked.options] at isDemand
      refine ⟨other, ?_, source, shape, Or.inr found, isDemand⟩
      rw [taken]
      exact List.mem_cons_of_mem usage isTaken

end Viewpoint

end HttpClientGen
