import HttpClientGen.Proofs.Contents
import HttpClientGen.Proofs.Discrimination
import HttpClientGen.Proofs.Client
import Mathlib.Data.Set.Defs

/-!
# Walks over schemas that agree

Two schemas may differ, but agree on some names that their fields never lead out of. Every walk that
starts inside of these names gives the same in both: the search for telling fields, the collection of
what a file has to declare, the resolution of field paths and the search for query leaves. Hence
methods whose inputs lie inside have the same plans and the same faults.
-/

namespace HttpClientGen

theorem Message.ref_mem_refs {message : Message} {field : Field} (held : field ∈ message.fields)
    {ref : TypeRef} (mentioned : field.kind.ref? = some ref) : ref ∈ message.refs :=
  List.mem_filterMap.mpr ⟨field, held, mentioned⟩

theorem FieldKind.ref?_of_message? {kind : FieldKind} {fullName : String}
    (aimed : kind.message? = some fullName) : kind.ref? = some (.message fullName) := by
  rw [message?_eq_some_iff.mp aimed]
  rfl

namespace Schema

/-- Two schemas give the same answers for some names, and the fields of the messages found under
these names mention no other ones. -/
structure AgreesOn (first second : Schema) (names : Set String) : Prop where
  messages : ∀ name ∈ names, second.message? name = first.message? name
  enums : ∀ name ∈ names, second.enum? name = first.enum? name
  closed : ∀ name ∈ names, ∀ message, first.message? name = some message →
    ∀ ref ∈ message.refs, ref.fullName ∈ names

variable {first second : Schema} {names : Set String}

/-- A field of a message that is found inside holds messages from inside. -/
theorem AgreesOn.target_mem (agrees : first.AgreesOn second names) {name target : String}
    (inside : name ∈ names) {message : Message} (found : first.message? name = some message)
    {field : Field} (held : field ∈ message.fields) (aimed : field.kind.message? = some target) :
    target ∈ names :=
  agrees.closed name inside message found _
    (Message.ref_mem_refs held (FieldKind.ref?_of_message? aimed))

theorem AgreesOn.reachable_eq (agrees : first.AgreesOn second names) (met : List String)
    {todo : List String} (inside : ∀ name ∈ todo, name ∈ names) :
    second.reachable met todo = first.reachable met todo := by
  fun_induction reachable first met todo with
  | case1 => rw [reachable]
  | case2 met name rest old ih =>
    rw [reachable, dif_pos old]
    exact ih (List.forall_mem_cons.mp inside).2
  | case3 met name rest new unknown ih =>
    obtain ⟨here, later⟩ := List.forall_mem_cons.mp inside
    have alsoUnknown := (agrees.messages name here).trans unknown
    rw [reachable, dif_neg new]
    split
    · exact ih later
    · next found => cases found.symm.trans alsoUnknown
  | case4 met name rest new message found ih =>
    obtain ⟨here, later⟩ := List.forall_mem_cons.mp inside
    have alsoFound := (agrees.messages name here).trans found
    rw [reachable, dif_neg new]
    split
    · next unknown => cases unknown.symm.trans alsoFound
    · next other same =>
      obtain rfl := Option.some.inj (alsoFound.symm.trans same)
      rw [ih fun target listed => ?_]
      rcases List.mem_append.mp listed with aimed | waiting
      · obtain ⟨field, held, aimed⟩ := List.mem_filterMap.mp aimed
        exact agrees.target_mem here found held aimed
      · exact later target waiting

theorem AgreesOn.discriminates_eq (agrees : first.AgreesOn second names) {name : String}
    (inside : name ∈ names) : second.discriminates name = first.discriminates name := by
  rw [discriminates, discriminates, agrees.reachable_eq [] (by simpa using inside)]

theorem AgreesOn.contentsOf_eq (agrees : first.AgreesOn second names) (met : List String)
    {queue : List TypeRef} (inside : ∀ ref ∈ queue, ref.fullName ∈ names) :
    second.contentsOf met queue = first.contentsOf met queue := by
  fun_induction contentsOf first met queue with
  | case1 => rw [contentsOf]
  | case2 met ref rest type known ih =>
    rw [contentsOf, known]
    exact congrArg (Contents.consWellKnown type) (ih (List.forall_mem_cons.mp inside).2)
  | case3 met ref rest ordinary old ih =>
    rw [contentsOf_of_met ordinary old]
    exact ih (List.forall_mem_cons.mp inside).2
  | case4 met rest fullName new others unknown ordinary _ ih =>
    obtain ⟨here, later⟩ := List.forall_mem_cons.mp inside
    have alsoUnknown := (agrees.enums fullName here).trans unknown
    exact (contentsOf_enumeration_of_absent ordinary new alsoUnknown).trans (ih later)
  | case5 met rest fullName new others enumeration found ordinary _ ih =>
    obtain ⟨here, later⟩ := List.forall_mem_cons.mp inside
    have alsoFound := (agrees.enums fullName here).trans found
    exact (contentsOf_enumeration_of_found ordinary new alsoFound).trans
      (congrArg (Contents.consEnum enumeration) (ih later))
  | case6 met rest fullName new unknown ordinary _ ih =>
    obtain ⟨here, later⟩ := List.forall_mem_cons.mp inside
    have alsoUnknown := (agrees.messages fullName here).trans unknown
    exact (contentsOf_message_of_absent ordinary new alsoUnknown).trans (ih later)
  | case7 met rest fullName new message found ordinary _ ih =>
    obtain ⟨here, later⟩ := List.forall_mem_cons.mp inside
    have alsoFound := (agrees.messages fullName here).trans found
    refine (contentsOf_message_of_found ordinary new alsoFound).trans
      (congrArg (Contents.consMessage message) (ih fun ref listed => ?_))
    rcases List.mem_append.mp listed with waiting | mentioned
    · exact later ref waiting
    · exact agrees.closed fullName here message found ref mentioned

/-- What is collected from names inside lies inside. -/
theorem AgreesOn.mem_of_mem_contentsOf (agrees : first.AgreesOn second names) (met : List String)
    {queue : List TypeRef} (inside : ∀ ref ∈ queue, ref.fullName ∈ names) :
    (∀ message ∈ (first.contentsOf met queue).messages, message.fullName ∈ names) ∧
      ∀ enumeration ∈ (first.contentsOf met queue).enums, enumeration.fullName ∈ names := by
  fun_induction contentsOf first met queue with
  | case1 => exact ⟨List.forall_mem_nil _, List.forall_mem_nil _⟩
  | case2 met ref rest type known ih => exact ih (List.forall_mem_cons.mp inside).2
  | case3 met ref rest ordinary old ih => exact ih (List.forall_mem_cons.mp inside).2
  | case4 met rest fullName new others unknown ordinary _ ih =>
    exact ih (List.forall_mem_cons.mp inside).2
  | case5 met rest fullName new others enumeration found ordinary _ ih =>
    obtain ⟨here, later⟩ := List.forall_mem_cons.mp inside
    refine ⟨(ih later).1, List.forall_mem_cons.mpr ⟨?_, (ih later).2⟩⟩
    exact (fullName_of_enum? found).symm ▸ here
  | case6 met rest fullName new unknown ordinary _ ih =>
    exact ih (List.forall_mem_cons.mp inside).2
  | case7 met rest fullName new message found ordinary _ ih =>
    obtain ⟨here, later⟩ := List.forall_mem_cons.mp inside
    have insideNext : ∀ ref ∈ rest ++ message.refs, ref.fullName ∈ names := by
      intro ref listed
      rcases List.mem_append.mp listed with waiting | mentioned
      · exact later ref waiting
      · exact agrees.closed fullName here message found ref mentioned
    refine ⟨List.forall_mem_cons.mpr ⟨?_, (ih insideNext).1⟩, (ih insideNext).2⟩
    exact (fullName_of_message? found).symm ▸ here

theorem AgreesOn.nested?_eq (agrees : first.AgreesOn second names) {name : String}
    (inside : name ∈ names) {message : Message} (found : first.message? name = some message)
    {field : Field} (held : field ∈ message.fields) :
    second.nested? field = first.nested? field := by
  rw [nested?, nested?]
  split
  · refine Option.bind_congr fun target aimed => ?_
    exact agrees.messages target (agrees.target_mem inside found held aimed)
  · rfl

/-- A single message behind a field of a message inside is found inside as well. -/
theorem AgreesOn.nested?_mem (agrees : first.AgreesOn second names) {name : String}
    (inside : name ∈ names) {message inner : Message} (found : first.message? name = some message)
    {field : Field} (held : field ∈ message.fields) (nested : first.nested? field = some inner) :
    inner.fullName ∈ names ∧ first.message? inner.fullName = some inner := by
  have foundInner := message?_of_nested? nested
  refine ⟨?_, foundInner⟩
  rw [nested?] at nested
  split at nested
  · obtain ⟨target, aimed, resolved⟩ := Option.bind_eq_some_iff.mp nested
    rw [fullName_of_message? resolved]
    exact agrees.target_mem inside found held aimed
  · cases nested

theorem AgreesOn.fieldsAlong_eq (agrees : first.AgreesOn second names) (path : List String)
    {name : String} (inside : name ∈ names) {message : Message}
    (found : first.message? name = some message) :
    second.fieldsAlong message path = first.fieldsAlong message path := by
  induction path generalizing name message with
  | nil => rfl
  | cons segment path ih =>
    cases here : message.field? segment with
    | none => simp only [fieldsAlong, here]
    | some field =>
      have held : field ∈ message.fields := List.mem_of_find?_eq_some here
      cases path with
      | nil => simp only [fieldsAlong, here]
      | cons next path =>
        rw [fieldsAlong, fieldsAlong, here]
        dsimp only
        rw [agrees.nested?_eq inside found held]
        cases nested : first.nested? field with
        | none => rfl
        | some inner =>
          obtain ⟨insideInner, foundInner⟩ := agrees.nested?_mem inside found held nested
          exact congrArg ((field :: ·) <$> ·) (ih insideInner foundInner)

theorem AgreesOn.leafPaths_eq (agrees : first.AgreesOn second names) (onPath : List String)
    {name : String} (inside : name ∈ names) {message : Message}
    (found : first.message? name = some message) :
    second.leafPaths onPath message = first.leafPaths onPath message := by
  fun_induction leafPaths first onPath message generalizing name with
  | case1 onPath message ih =>
    rw [leafPaths]
    refine List.flatMap_congr fun field held => ?_
    have sameNested := agrees.nested?_eq inside found held
    split
    · rfl
    · cases nested : first.nested? field with
      | none =>
        split
        · rfl
        · next other => cases other.symm.trans (sameNested.trans nested)
      | some inner =>
        obtain ⟨insideInner, foundInner⟩ := agrees.nested?_mem inside found held nested
        split
        · next none => cases none.symm.trans (sameNested.trans nested)
        · next other alsoNested =>
          obtain rfl := Option.some.inj (alsoNested.symm.trans (sameNested.trans nested))
          split
          · rfl
          · next new => rw [ih field other nested new insideInner foundInner]

section Methods

variable {name : String} {input : Message}

theorem AgreesOn.resolve_eq (agrees : first.AgreesOn second names) (inside : name ∈ names)
    (found : first.message? name = some input) (path : FieldPath) :
    second.resolve input path = first.resolve input path := by
  rw [resolve, resolve, agrees.fieldsAlong_eq path.names inside found]

theorem AgreesOn.planRule_eq (agrees : first.AgreesOn second names) (inside : name ∈ names)
    (found : first.message? name = some input) (methodName : String) (method : Method)
    (rule : Rule) :
    second.planRule methodName method input rule = first.planRule methodName method input rule := by
  have part : second.pathPart input = first.pathPart input := by
    funext segment
    cases segment with
    | literal text => rfl
    | single => rfl
    | multiple => rfl
    | capture path pattern => simp only [pathPart, agrees.resolve_eq inside found]
  have payload : second.payload input rule.body = first.payload input rule.body := by
    cases rule.body with
    | none => rfl
    | whole => rfl
    | field path => simp only [Schema.payload, agrees.resolve_eq inside found]
  simp only [planRule, part, payload]

theorem AgreesOn.outcome_eq (agrees : first.AgreesOn second names) (service : Service)
    {method : Method} (inside : method.input ∈ names) :
    service.outcome second method = service.outcome first method := by
  simp only [Service.outcome, agrees.messages _ inside]
  split
  · rfl
  · split
    · rfl
    · split
      · rfl
      · rfl
      · cases found : first.message? method.input with
        | none => rfl
        | some input => exact agrees.planRule_eq inside found _ method _

theorem AgreesOn.outcomes_eq (agrees : first.AgreesOn second names) {service : Service}
    (inside : ∀ method ∈ service.methods, method.input ∈ names) :
    service.outcomes second = service.outcomes first :=
  List.map_congr_left fun method listed => agrees.outcome_eq service (inside method listed)

/-- The query of a plan is made of fields that lie inside. -/
theorem AgreesOn.query_eq (agrees : first.AgreesOn second names) {plan : MethodPlan}
    (inside : name ∈ names) (found : first.message? name = some plan.input) :
    plan.query second = plan.query first := by
  rw [MethodPlan.query, MethodPlan.query, queryLeaves, queryLeaves,
    agrees.leafPaths_eq _ inside found]

end Methods

end Schema

end HttpClientGen
