import HttpClientGen.PackageFile
import HttpClientGen.Proofs.Demand

/-!
# What a run takes from its queue

Some entries are in the queue from the start, and others are passed on by records that the run has
written. All that these entries demand is claimed, one after the other, and the run writes what is
granted. What a granted record asks for is in the queue before long, so the entries that a run has
taken are closed under the passing on.
-/

namespace HttpClientGen.Viewpoint

/-- The entries that a run takes from its queue, in that order. -/
def taken (view : Viewpoint) (session : Session) : List Usage → List Usage
  | [] => []
  | usage :: queue =>
    let written := view.write session usage
    usage :: view.taken written.session (queue ++ written.pending)
termination_by queue => ((view.unclaimed session).length, queue.length)
decreasing_by exact view.lex_write session usage queue

/-- The entries that the runs over the messages of a list take from their queues. -/
def takenAll (view : Viewpoint) (session : Session) : List Usage → List Usage
  | [] => []
  | usage :: usages =>
    view.taken session [usage] ++ view.takenAll (view.synthesize session usage).2 usages

/-- All that some entries demand, which is what a run claims on taking them. -/
def claims (view : Viewpoint) (options : Options) (usages : List Usage) : List Demand :=
  usages.flatMap (view.demands options)

variable {view : Viewpoint} {options : Options} {session : Session}

/-- What some entries are granted, and the registry when they have been dealt with. -/
def grants (view : Viewpoint) (options : Options) (registry : Registry) (usages : List Usage) :
    List Demand × Registry :=
  registry.grant view.package (view.claims options usages)

theorem grants_append (registry : Registry) (front back : List Usage) :
    view.grants options registry (front ++ back) =
      ((view.grants options registry front).1 ++
          (view.grants options (view.grants options registry front).2 back).1,
        (view.grants options (view.grants options registry front).2 back).2) := by
  simp only [grants, claims, List.flatMap_append, Registry.grant_append]

theorem grants_cons (registry : Registry) (usage : Usage) (usages : List Usage) :
    view.grants options registry (usage :: usages) =
      ((view.grants options registry [usage]).1 ++
          (view.grants options (view.grants options registry [usage]).2 usages).1,
        (view.grants options (view.grants options registry [usage]).2 usages).2) :=
  grants_append registry [usage] usages

theorem grants_singleton (registry : Registry) (usage : Usage) :
    view.grants options registry [usage] =
      registry.grant view.package (view.demands options usage) := by
  simp only [grants, claims, List.flatMap_singleton]

/-- The messages that a queue asks for, by itself or through the records that it demands. -/
inductive Asked (view : Viewpoint) (options : Options) (queue : List Usage) : Usage → Prop
  | queued {usage : Usage} (listed : usage ∈ queue) : Asked view options queue usage
  | passed {usage other : Usage} {demand : Demand} (asked : Asked view options queue usage)
      (demanded : demand ∈ view.demands options usage) (pending : other ∈ demand.pending) :
      Asked view options queue other

theorem Asked.of_imp {queue other : List Usage} {usage : Usage}
    (asked : view.Asked options queue usage)
    (known : ∀ start ∈ queue, view.Asked options other start) :
    view.Asked options other usage := by
  induction asked with
  | queued listed => exact known _ listed
  | passed _ demanded pending ih => exact .passed ih demanded pending

/-- A demand that is granted to some entries is one of their own demands. -/
theorem exists_usage_of_granted {registry : Registry} {usages : List Usage} {demand : Demand}
    (granted : demand ∈ (view.grants options registry usages).1) :
    ∃ usage ∈ usages, demand ∈ view.demands options usage :=
  List.mem_flatMap.mp (Registry.mem_of_mem_grant granted)

/-- The entries that a run over a queue takes: all of the queue and all that granted demands ask
for, and nothing that nobody has asked for. -/
structure Takes (view : Viewpoint) (options : Options) (queue : List Usage) (before : Registry)
    (taken : List Usage) : Prop where
  queued : ∀ usage ∈ queue, usage ∈ taken
  pending : ∀ demand ∈ (view.grants options before taken).1, ∀ usage ∈ demand.pending,
    usage ∈ taken
  asked : ∀ usage ∈ taken, view.Asked options queue usage

namespace Takes

theorem nil (registry : Registry) : view.Takes options [] registry [] := by
  constructor <;> simp [grants, claims, Registry.grant]

/-- A run takes the first entry, and goes on with the rest of the queue and with what the granted
demands ask for. -/
theorem step {registry : Registry} {usage : Usage} {queue later : List Usage}
    (rest : view.Takes options
      (queue ++ (view.grants options registry [usage]).1.flatMap (·.pending))
      (view.grants options registry [usage]).2 later) :
    view.Takes options (usage :: queue) registry (usage :: later) := by
  have here : view.Asked options (usage :: queue) usage := .queued List.mem_cons_self
  constructor
  · intro other listed
    rcases List.mem_cons.mp listed with rfl | queued
    · exact List.mem_cons_self
    · exact List.mem_cons_of_mem usage (rest.queued other (List.mem_append_left _ queued))
  · intro demand granted other pending
    rw [grants_cons] at granted
    refine List.mem_cons_of_mem usage ?_
    rcases List.mem_append.mp granted with now | later
    · exact rest.queued other
        (List.mem_append_right _ (List.mem_flatMap.mpr ⟨demand, now, pending⟩))
    · exact rest.pending demand later other pending
  · intro other listed
    rcases List.mem_cons.mp listed with rfl | later
    · exact here
    · refine (rest.asked other later).of_imp fun start waiting => ?_
      rcases List.mem_append.mp waiting with queued | pending
      · exact .queued (List.mem_cons_of_mem usage queued)
      · obtain ⟨demand, granted, asks⟩ := List.mem_flatMap.mp pending
        obtain ⟨origin, isFirst, demanded⟩ := exists_usage_of_granted granted
        obtain rfl := List.mem_singleton.mp isFirst
        exact .passed here demanded asks

/-- Two runs, one after the other, take what each of them takes. -/
theorem append {registry : Registry} {front back first second : List Usage}
    (atFront : view.Takes options front registry first)
    (atBack : view.Takes options back (view.grants options registry first).2 second) :
    view.Takes options (front ++ back) registry (first ++ second) := by
  constructor
  · intro usage listed
    rcases List.mem_append.mp listed with earlier | later
    · exact List.mem_append_left second (atFront.queued usage earlier)
    · exact List.mem_append_right first (atBack.queued usage later)
  · intro demand granted usage pending
    rw [grants_append] at granted
    rcases List.mem_append.mp granted with earlier | later
    · exact List.mem_append_left second (atFront.pending demand earlier usage pending)
    · exact List.mem_append_right first (atBack.pending demand later usage pending)
  · intro usage listed
    rcases List.mem_append.mp listed with earlier | later
    · exact (atFront.asked usage earlier).of_imp fun start queued =>
        .queued (List.mem_append_left back queued)
    · exact (atBack.asked usage later).of_imp fun start queued =>
        .queued (List.mem_append_right front queued)

end Takes

/-- A run over a queue writes what the entries that it takes are granted. -/
theorem writeAll_takes (sound : session.memo.Sound view.schema) (queue : List Usage) :
    view.Takes session.options queue session.registry (view.taken session queue) ∧
      (view.writeAll session queue).1 =
        (view.grants session.options session.registry (view.taken session queue)).1.map
          (·.record) ∧
      (view.writeAll session queue).2.registry =
        (view.grants session.options session.registry (view.taken session queue)).2 ∧
      session.Keeps view.schema (view.writeAll session queue).2 := by
  fun_induction writeAll view session queue with
  | case1 session =>
    rw [taken]
    exact ⟨.nil _, rfl, rfl, .refl sound⟩
  | case2 session usage queue written records after rest ih =>
    have given : view.Gives session (view.demands session.options usage) written :=
      write_gives sound usage
    obtain ⟨takes, same, registry, keeps⟩ := ih given.keeps.sound
    rw [rest] at same registry keeps
    have first := given.records
    have pending := given.pending
    have between := given.registry
    rw [← grants_singleton] at first pending between
    rw [given.keeps.options, between] at takes same registry
    rw [taken, grants_cons, List.map_append, ← first]
    refine ⟨.step ?_, congrArg (written.records ++ ·) same, registry, given.keeps.trans keeps⟩
    rw [← pending]
    exact takes

/-- A run over a single entry that asks for nothing else is over after this entry. -/
theorem synthesize_of_idle {usage : Usage} (idle : (view.write session usage).pending = []) :
    view.synthesize session usage =
      ((view.write session usage).records, (view.write session usage).session) := by
  rw [synthesize, writeAll, idle]
  simp [writeAll]

/-- The runs over the messages of a list write what the entries that they take are granted. -/
theorem synthesizeAll_takes (sound : session.memo.Sound view.schema) (usages : List Usage) :
    view.Takes session.options usages session.registry (view.takenAll session usages) ∧
      (view.synthesizeAll session usages).1 =
        (view.grants session.options session.registry (view.takenAll session usages)).1.map
          (·.record) ∧
      (view.synthesizeAll session usages).2.registry =
        (view.grants session.options session.registry (view.takenAll session usages)).2 ∧
      session.Keeps view.schema (view.synthesizeAll session usages).2 := by
  induction usages generalizing session with
  | nil => exact ⟨.nil _, rfl, rfl, .refl sound⟩
  | cons usage usages ih =>
    obtain ⟨takes, records, registry, keeps⟩ := writeAll_takes sound [usage]
    obtain ⟨takes', records', registry', keeps'⟩ := ih keeps.sound
    rw [keeps.options, registry] at takes' records' registry'
    rw [takenAll, grants_append, List.map_append, ← records]
    exact ⟨takes.append takes', congrArg (_ ++ ·) records', registry', keeps.trans keeps'⟩

/-!
## What the writing of shapes achieves

A run over a queue leaves no demand open: the name of every record that is demanded, by the queue or
by a record that was written, belongs to a message in the end. Conversely, what is written has been
demanded, and the names that are new are those of the written records. Who owns a name that two
messages ask for is not said here.
-/

/-- All that a message demands has a name that belongs to some message. -/
def Met (view : Viewpoint) (options : Options) (registry : Registry) (usage : Usage) : Prop :=
  ∀ demand ∈ view.demands options usage,
    (registry.owner? view.package demand.record.name).isSome

/-- What a run over a queue does to the registry, and which demands it grants. -/
structure Serves (view : Viewpoint) (options : Options) (queue : List Usage)
    (before after : Registry) (granted : List Demand) : Prop where
  entries : after.entries =
    (granted.map (Demand.entry view.package)).reverse ++ before.entries
  demanded : ∀ demand ∈ granted, ∃ usage, view.Asked options queue usage ∧
    demand ∈ view.demands options usage
  queueMet : ∀ usage ∈ queue, view.Met options after usage
  pendingMet : ∀ demand ∈ granted, ∀ usage ∈ demand.pending, view.Met options after usage

/-- A run serves its queue: it takes all of it, and what is taken is met. -/
theorem Takes.serves {queue taken : List Usage} {before : Registry}
    (takes : view.Takes options queue before taken) :
    view.Serves options queue before (view.grants options before taken).2
      (view.grants options before taken).1 := by
  have met (usage : Usage) (isTaken : usage ∈ taken) :
      view.Met options (view.grants options before taken).2 usage :=
    fun demand demanded => Registry.owner?_grant_isSome
      (List.mem_flatMap.mpr ⟨usage, isTaken, demanded⟩)
  constructor
  · exact before.grant_entries view.package (view.claims options taken)
  · intro demand granted
    obtain ⟨usage, isTaken, demanded⟩ := exists_usage_of_granted granted
    exact ⟨usage, takes.asked usage isTaken, demanded⟩
  · exact fun usage listed => met usage (takes.queued usage listed)
  · exact fun demand granted usage pending => met usage (takes.pending demand granted usage pending)

namespace Serves

/-- The names of other units are left alone. -/
theorem owner?_of_ne {before after : Registry} {queue : List Usage} {granted : List Demand}
    (serves : view.Serves options queue before after granted) {unit : String}
    (other : unit ≠ view.package) (name : String) :
    after.owner? unit name = before.owner? unit name := by
  have absent : ((granted.map (Demand.entry view.package)).reverse).lookup (unit, name) = none := by
    simp [Demand.entry, other]
  rw [Registry.owner?, Registry.owner?, serves.entries, List.lookup_append, absent, Option.none_or]

/-- Where no name of the package had an owner before, the names with an owner are those of the
written records. -/
theorem exists_granted_of_owned {before after : Registry} {queue : List Usage}
    {granted : List Demand} (serves : view.Serves options queue before after granted)
    (free : ∀ name, before.owner? view.package name = none) {name : String}
    (owned : (after.owner? view.package name).isSome) :
    ∃ demand ∈ granted, demand.record.name = name := by
  obtain ⟨owner, entry⟩ := Registry.owner?_isSome_iff.mp owned
  rw [serves.entries] at entry
  rcases List.mem_append.mp entry with added | old
  · obtain ⟨demand, isGranted, same⟩ := List.mem_map.mp (List.mem_reverse.mp added)
    exact ⟨demand, isGranted, (Prod.mk.inj (Prod.mk.inj same).1).2⟩
  · have ownedBefore := Registry.owner?_isSome_iff.mpr ⟨owner, old⟩
    simp [free name] at ownedBefore

end Serves

end HttpClientGen.Viewpoint
