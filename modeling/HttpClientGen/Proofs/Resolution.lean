import HttpClientGen.Proofs.Client.Plan
import HttpClientGen.Proofs.QueryLeaves

/-!
# Where field paths lead

A path that is put together of two leads to a field if the first part leads to a single message and
the second one to a field of it. Where a path fails, it is the first name that does not lead on that
is named as the cause, with the message in which it was looked for. The paths of the leaves lead
back to these leaves.
-/

namespace HttpClientGen.Schema

variable {schema : Schema} {message inner : Message} {field : Field} {name : String}
  {names front back : List String} {fields : List Field} {access : FieldAccess}

theorem resolve_eq_ok_iff :
    schema.resolve message ⟨names⟩ = .ok access ↔
      schema.fieldsAlong message names = .ok access.fields := by
  rw [resolve, map_eq_ok_iff]
  constructor
  · rintro ⟨fields, along, rfl⟩
    exact along
  · intro along
    exact ⟨access.fields, along, rfl⟩

theorem fieldsAlong_singleton_eq_ok_iff :
    schema.fieldsAlong message [name] = .ok fields ↔
      ∃ field, message.field? name = some field ∧ fields = [field] := by
  rw [fieldsAlong]
  cases message.field? name <;> simp [eq_comm]

/-- Behind a field that holds a single message, the path goes on there. -/
theorem fieldsAlong_cons_of_nested (more : names ≠ []) (found : message.field? name = some field)
    (nested : schema.nested? field = some inner) :
    schema.fieldsAlong message (name :: names) =
      (field :: ·) <$> schema.fieldsAlong inner names := by
  obtain ⟨next, names, rfl⟩ := List.exists_cons_of_ne_nil more
  rw [fieldsAlong, found]
  simp [nested]

theorem fieldsAlong_cons_eq_ok_iff (more : names ≠ []) :
    schema.fieldsAlong message (name :: names) = .ok fields ↔
      ∃ field, message.field? name = some field ∧
        ∃ inner, schema.nested? field = some inner ∧
          ∃ others, schema.fieldsAlong inner names = .ok others ∧ fields = field :: others := by
  constructor
  · intro along
    obtain ⟨next, names, rfl⟩ := List.exists_cons_of_ne_nil more
    rw [fieldsAlong] at along
    split at along
    · cases along
    · next field found =>
      dsimp only at along
      split at along
      · cases along
      · next inner nested =>
        obtain ⟨others, later, rfl⟩ := map_eq_ok_iff.mp along
        exact ⟨field, found, inner, nested, others, later, rfl⟩
  · rintro ⟨field, found, inner, nested, others, later, rfl⟩
    rw [fieldsAlong_cons_of_nested more found nested, later]
    rfl

/-- A path goes on behind the single message that its first part leads to. -/
theorem fieldsAlong_append_eq_ok_iff (begun : front ≠ []) (more : back ≠ []) :
    schema.fieldsAlong message (front ++ back) = .ok fields ↔
      ∃ first, schema.fieldsAlong message front = .ok first ∧
        ∃ last, first.getLast? = some last ∧ ∃ inner, schema.nested? last = some inner ∧
          ∃ second, schema.fieldsAlong inner back = .ok second ∧ fields = first ++ second := by
  induction front generalizing message fields with
  | nil => exact absurd rfl begun
  | cons name names ih =>
    rw [List.cons_append, fieldsAlong_cons_eq_ok_iff (List.append_ne_nil_of_right_ne_nil _ more)]
    by_cases single : names = []
    · subst single
      constructor
      · rintro ⟨field, found, inner, nested, second, along, rfl⟩
        exact ⟨[field], fieldsAlong_singleton_eq_ok_iff.mpr ⟨field, found, rfl⟩, field, rfl, inner,
          nested, second, along, rfl⟩
      · rintro ⟨first, along, last, isLast, inner, nested, second, alongSecond, rfl⟩
        obtain ⟨field, found, rfl⟩ := fieldsAlong_singleton_eq_ok_iff.mp along
        obtain rfl := Option.some.inj isLast
        exact ⟨field, found, inner, nested, second, alongSecond, rfl⟩
    · constructor
      · rintro ⟨field, found, inner, nested, others, along, rfl⟩
        obtain ⟨first, alongFirst, last, isLast, innermost, holds, second, alongSecond, rfl⟩ :=
          (ih single).mp along
        refine ⟨field :: first, (fieldsAlong_cons_eq_ok_iff single).mpr
          ⟨field, found, inner, nested, first, alongFirst, rfl⟩, last, ?_, innermost, holds, second,
          alongSecond, rfl⟩
        rw [List.getLast?_cons, isLast, Option.getD_some]
      · rintro ⟨_, along, last, isLast, innermost, holds, second, alongSecond, rfl⟩
        obtain ⟨field, found, inner, nested, first, alongFirst, rfl⟩ :=
          (fieldsAlong_cons_eq_ok_iff single).mp along
        have some := (map_name_of_fieldsAlong alongFirst).2
        rw [List.getLast?_cons_of_ne_nil some] at isLast
        exact ⟨field, found, inner, nested, first ++ second,
          (ih single).mpr ⟨first, alongFirst, last, isLast, innermost, holds, second, alongSecond,
            rfl⟩, rfl⟩

/-- The names lead to a field, or there are none. -/
def CanFollow (schema : Schema) (message : Message) (names : List String) : Prop :=
  names = [] ∨ ∃ access, schema.resolve message ⟨names⟩ = .ok access

/-- The names lead to a message: none to the one where they begin, and others to the single message
that the last of their fields holds. -/
def LeadsTo (schema : Schema) (message : Message) (names : List String) (inner : Message) : Prop :=
  (names = [] ∧ inner = message) ∨
    ∃ access, schema.resolve message ⟨names⟩ = .ok access ∧
      ∃ last, access.fields.getLast? = some last ∧ schema.Holds last inner

/-- As many of the names as can be followed, but not all of them. -/
structure IsLongestFront (schema : Schema) (message : Message) (names front : List String) :
    Prop where
  isPrefix : front <+: names
  proper : front ≠ names
  follows : schema.CanFollow message front
  longest : ∀ longer, longer <+: names → longer ≠ names → schema.CanFollow message longer →
    longer.length ≤ front.length

/-- The cause of a failure behind the names in `front`. Either they lead to a message, which has no
field with the next name, or they end at a field that does not hold a single message. -/
inductive Blames (schema : Schema) (message : Message) (names front : List String) :
    AccessError → Prop
  | noField {next : String} {rest : List String} {inner : Message}
      (behind : names = front ++ next :: rest) (leads : schema.LeadsTo message front inner)
      (absent : inner.field? next = none) :
      Blames schema message names front (.noField next inner.fullName)
  | notSingular {before : List String} {last : String} {declarer : Message}
      (ends : front = before ++ [last]) (leads : schema.LeadsTo message before declarer)
      (declares : (declarer.field? last).isSome)
      (stops : ∀ inner, ¬schema.LeadsTo message front inner) :
      Blames schema message names front (.notSingularMessage last declarer.fullName)

theorem canFollow_iff :
    schema.CanFollow message names ↔
      names = [] ∨ ∃ fields, schema.fieldsAlong message names = .ok fields := by
  refine or_congr_right ⟨?_, ?_⟩
  · rintro ⟨access, resolved⟩
    exact ⟨access.fields, resolve_eq_ok_iff.mp resolved⟩
  · rintro ⟨fields, along⟩
    exact ⟨⟨fields⟩, resolve_eq_ok_iff.mpr along⟩

theorem leadsTo_iff :
    schema.LeadsTo message names inner ↔
      (names = [] ∧ inner = message) ∨
        ∃ fields, schema.fieldsAlong message names = .ok fields ∧
          ∃ last, fields.getLast? = some last ∧ schema.nested? last = some inner := by
  simp only [LeadsTo, nested?_eq_some_iff]
  refine or_congr_right ⟨?_, ?_⟩
  · rintro ⟨access, resolved, holds⟩
    exact ⟨access.fields, resolve_eq_ok_iff.mp resolved, holds⟩
  · rintro ⟨fields, along, holds⟩
    exact ⟨⟨fields⟩, resolve_eq_ok_iff.mpr along, holds⟩

/-- A first name can be followed if it is that of a field, and the others behind it if the field
holds a single message from which they can be followed. -/
theorem canFollow_cons_iff :
    schema.CanFollow message (name :: names) ↔
      ∃ field, message.field? name = some field ∧
        (names = [] ∨
          ∃ inner, schema.nested? field = some inner ∧ schema.CanFollow inner names) := by
  rw [canFollow_iff, or_iff_right (List.cons_ne_nil _ _)]
  by_cases single : names = []
  · subst single
    simp [fieldsAlong_singleton_eq_ok_iff]
  · simp only [fieldsAlong_cons_eq_ok_iff single, canFollow_iff, single, false_or]
    constructor
    · rintro ⟨_, field, found, inner, nested, others, later, -⟩
      exact ⟨field, found, inner, nested, others, later⟩
    · rintro ⟨field, found, inner, nested, others, later⟩
      exact ⟨field :: others, field, found, inner, nested, others, later, rfl⟩

theorem leadsTo_nil_iff : schema.LeadsTo message [] inner ↔ inner = message := by
  rw [leadsTo_iff]
  simp [fieldsAlong]

theorem leadsTo_cons_iff :
    schema.LeadsTo message (name :: names) inner ↔
      ∃ field, message.field? name = some field ∧
        ∃ next, schema.nested? field = some next ∧ schema.LeadsTo next names inner := by
  rw [leadsTo_iff, or_iff_right fun both => List.cons_ne_nil _ _ both.1]
  by_cases single : names = []
  · subst single
    simp [fieldsAlong_singleton_eq_ok_iff, leadsTo_nil_iff]
  · simp only [fieldsAlong_cons_eq_ok_iff single, leadsTo_iff, single, false_and, false_or]
    constructor
    · rintro ⟨_, ⟨field, found, next, nested, others, later, rfl⟩, last, isLast, holds⟩
      rw [List.getLast?_cons_of_ne_nil (map_name_of_fieldsAlong later).2] at isLast
      exact ⟨field, found, next, nested, others, later, last, isLast, holds⟩
    · rintro ⟨field, found, next, nested, others, later, last, isLast, holds⟩
      refine ⟨field :: others, ⟨field, found, next, nested, others, later, rfl⟩, last, ?_, holds⟩
      rw [List.getLast?_cons, isLast, Option.getD_some]

/-- Nothing can be followed if the first name is not that of a field. -/
theorem isLongestFront_nil (absent : message.field? name = none) :
    schema.IsLongestFront message (name :: names) [] where
  isPrefix := List.nil_prefix
  proper := (List.cons_ne_nil _ _).symm
  follows := Or.inl rfl
  longest longer isPrefix _ follows := by
    cases longer with
    | nil => exact le_rfl
    | cons first longer =>
      obtain ⟨rfl, -⟩ := List.cons_prefix_cons.mp isPrefix
      obtain ⟨field, found, -⟩ := canFollow_cons_iff.mp follows
      cases absent.symm.trans found

/-- Only the first name can be followed if its field does not hold a single message. -/
theorem isLongestFront_singleton (more : names ≠ []) (found : message.field? name = some field)
    (absent : schema.nested? field = none) :
    schema.IsLongestFront message (name :: names) [name] where
  isPrefix := ⟨names, rfl⟩
  proper same := more (List.cons.inj same).2.symm
  follows := canFollow_cons_iff.mpr ⟨field, found, Or.inl rfl⟩
  longest longer isPrefix _ follows := by
    match longer with
    | [] | [_] => simp
    | first :: second :: longer =>
      obtain ⟨rfl, -⟩ := List.cons_prefix_cons.mp isPrefix
      obtain ⟨other, alsoFound, none | ⟨inner, nested, -⟩⟩ := canFollow_cons_iff.mp follows
      · cases none
      · obtain rfl := Option.some.inj (found.symm.trans alsoFound)
        cases absent.symm.trans nested

/-- A first name that leads to a message can be put in front. -/
theorem IsLongestFront.cons (found : message.field? name = some field)
    (nested : schema.nested? field = some inner)
    (isFront : schema.IsLongestFront inner names front) :
    schema.IsLongestFront message (name :: names) (name :: front) where
  isPrefix := List.cons_prefix_cons.mpr ⟨rfl, isFront.isPrefix⟩
  proper same := isFront.proper (List.cons.inj same).2
  follows := canFollow_cons_iff.mpr ⟨field, found, Or.inr ⟨inner, nested, isFront.follows⟩⟩
  longest longer isPrefix proper follows := by
    cases longer with
    | nil => exact Nat.zero_le _
    | cons first longer =>
      obtain ⟨rfl, behind⟩ := List.cons_prefix_cons.mp isPrefix
      have shorter : longer.length ≤ front.length := by
        refine isFront.longest longer behind (fun same => proper (same ▸ rfl)) ?_
        obtain ⟨other, alsoFound, goesOn⟩ := canFollow_cons_iff.mp follows
        obtain rfl := Option.some.inj (found.symm.trans alsoFound)
        rcases goesOn with rfl | ⟨next, alsoNested, followsOn⟩
        · exact Or.inl rfl
        · obtain rfl := Option.some.inj (nested.symm.trans alsoNested)
          exact followsOn
      exact Nat.succ_le_succ shorter

theorem Blames.cons {cause : AccessError} (found : message.field? name = some field)
    (nested : schema.nested? field = some inner) (blames : schema.Blames inner names front cause) :
    schema.Blames message (name :: names) (name :: front) cause := by
  have leadsOn {names : List String} {target : Message} :
      schema.LeadsTo message (name :: names) target ↔ schema.LeadsTo inner names target := by
    rw [leadsTo_cons_iff]
    simp [found, nested]
  cases blames with
  | noField behind leads absent =>
    exact .noField (congrArg (name :: ·) behind) (leadsOn.mpr leads) absent
  | notSingular ends leads declares stops =>
    exact .notSingular (congrArg (name :: ·) ends) (leadsOn.mpr leads) declares
      fun target leads => stops target (leadsOn.mp leads)

/-- A path that fails does so behind the longest front that can be followed. -/
theorem exists_blamed_of_fieldsAlong {cause : AccessError} (some : names ≠ [])
    (failed : schema.fieldsAlong message names = .error cause) :
    ∃ front, schema.IsLongestFront message names front ∧
      schema.Blames message names front cause := by
  induction names generalizing message with
  | nil => exact absurd rfl some
  | cons name names ih =>
    rw [fieldsAlong] at failed
    split at failed
    · next absent =>
      obtain rfl := Except.error.inj failed
      exact ⟨[], isLongestFront_nil absent, .noField rfl (leadsTo_nil_iff.mpr rfl) absent⟩
    · next field found =>
      split at failed
      · cases failed
      · next next names =>
        have more : next :: names ≠ [] := List.cons_ne_nil _ _
        split at failed
        · next absent =>
          obtain rfl := Except.error.inj failed
          refine ⟨[name], isLongestFront_singleton more found absent,
            .notSingular (List.nil_append _).symm (leadsTo_nil_iff.mpr rfl) (by simp [found]) ?_⟩
          intro target leads
          obtain ⟨other, alsoFound, inner, nested, -⟩ := leadsTo_cons_iff.mp leads
          obtain rfl := Option.some.inj (found.symm.trans alsoFound)
          cases absent.symm.trans nested
        · next inner nested =>
          have failedLater : schema.fieldsAlong inner (next :: names) = .error cause :=
            map_eq_error_iff.mp failed
          obtain ⟨front, isFront, blames⟩ := ih more failedLater
          exact ⟨name :: front, isFront.cons found nested, blames.cons found nested⟩

/-- A single name leads to the field that has it. A path in two parts leads to a field exactly if the
first part ends at a field that holds a single message and the second part leads to a field from
there, and it has the fields of both. A path that leads nowhere has its cause behind the longest
front that can be followed. The empty path never leads to a field. -/
theorem resolve_append_and_blame (schema : Schema) (message : Message) :
    (∀ access, schema.resolve message ⟨[]⟩ ≠ .ok access) ∧
      (∀ name access, schema.resolve message ⟨[name]⟩ = .ok access ↔
        ∃ field, message.field? name = some field ∧ access.fields = [field]) ∧
      (∀ front back access, front ≠ [] → back ≠ [] →
        (schema.resolve message ⟨front ++ back⟩ = .ok access ↔
          ∃ first, schema.resolve message ⟨front⟩ = .ok first ∧
            ∃ last, first.fields.getLast? = some last ∧
              ∃ inner, schema.Holds last inner ∧
                ∃ second, schema.resolve inner ⟨back⟩ = .ok second ∧
                  access.fields = first.fields ++ second.fields)) ∧
      ∀ names cause, names ≠ [] → schema.resolve message ⟨names⟩ = .error cause →
        ∃ front, schema.IsLongestFront message names front ∧
          schema.Blames message names front cause := by
  refine ⟨?_, ?_, ?_, ?_⟩
  · intro access resolved
    cases resolved
  · intro name access
    rw [resolve_eq_ok_iff, fieldsAlong_singleton_eq_ok_iff]
  · intro front back access begun more
    simp only [resolve_eq_ok_iff, fieldsAlong_append_eq_ok_iff begun more, nested?_eq_some_iff]
    constructor
    · rintro ⟨first, along, last, isLast, inner, holds, second, alongSecond, same⟩
      exact ⟨⟨first⟩, along, last, isLast, inner, holds, ⟨second⟩, alongSecond, same⟩
    · rintro ⟨first, along, last, isLast, inner, holds, second, alongSecond, same⟩
      exact ⟨first.fields, along, last, isLast, inner, holds, second.fields, alongSecond, same⟩
  · intro names cause some failed
    exact exists_blamed_of_fieldsAlong some (map_eq_error_iff.mp failed)

/-- The fields of each message have names of their own. -/
def UniqueFieldNames (schema : Schema) : Prop :=
  ∀ file ∈ schema.files, ∀ message ∈ file.messages, (message.fields.map (·.name)).Nodup

theorem UniqueFieldNames.field?_eq (unique : schema.UniqueFieldNames) {fullName : String}
    (known : schema.message? fullName = some message) (held : field ∈ message.fields) :
    message.field? field.name = some field := by
  obtain ⟨file, inFiles, inFile⟩ := mem_files_of_message? known
  exact (find?_eq_some_iff_of_distinct (unique file inFiles message inFile)).mpr ⟨held, rfl⟩

/-- The names along the path of a leaf lead to this leaf. -/
theorem fieldsAlong_of_mem_leafPaths (unique : schema.UniqueFieldNames) {onPath : List String}
    {fullName : String} (known : schema.message? fullName = some message)
    (listed : fields ∈ schema.leafPaths onPath message) :
    schema.fieldsAlong message (fields.map (·.name)) = .ok fields := by
  fun_induction leafPaths schema onPath message generalizing fields fullName with
  | case1 onPath message ih =>
    obtain ⟨field, held, listed⟩ := List.mem_flatMap.mp listed
    have found := unique.field?_eq known held
    split at listed
    · obtain rfl := List.mem_singleton.mp listed
      exact fieldsAlong_singleton_eq_ok_iff.mpr ⟨field, found, rfl⟩
    · split at listed
      · cases listed
      · next inner nested =>
        split at listed
        · cases listed
        · next new =>
          obtain ⟨others, later, rfl⟩ := List.mem_map.mp listed
          have along := ih field inner nested new (message?_of_nested? nested) later
          have more : others.map (·.name) ≠ [] := by
            intro none
            rw [none] at along
            cases along
          rw [List.map_cons, fieldsAlong_cons_of_nested more found nested, along]
          rfl

/-- The path of each leaf is resolved to this leaf, so that a field in the path or in the body of a
planned method is read by the same chain of names as the leaf in a query. -/
theorem resolve_of_mem_queryLeaves (schema : Schema) (message : Message)
    (unique : schema.UniqueFieldNames)
    (known : schema.message? message.fullName = some message) (leaf : FieldAccess)
    (listed : leaf ∈ schema.queryLeaves message) :
    ∃ access, schema.resolve message leaf.path = .ok access ∧ access.fields = leaf.fields ∧
      access.plainChain = leaf.plainChain ∧ access.optionalChain = leaf.optionalChain ∧
      ∀ service : Service, ∀ plan ∈ service.plans schema, plan.input = message →
        (∀ captured ∈ plan.captures, captured.path = leaf.path → captured = leaf) ∧
          ∀ sent, plan.payload = .field sent → sent.path = leaf.path → sent = leaf := by
  have resolved : schema.resolve message leaf.path = .ok leaf := by
    obtain ⟨fields, isLeaf, rfl⟩ := List.mem_map.mp listed
    exact resolve_eq_ok_iff.mpr (fieldsAlong_of_mem_leafPaths unique known isLeaf)
  have same {path : FieldPath} {access : FieldAccess}
      (found : schema.resolve message path = .ok access) (leads : access.path = leaf.path) :
      access = leaf := by
    rw [← (path_of_resolve found).1, leads] at found
    exact Except.ok.inj (found.symm.trans resolved)
  refine ⟨leaf, resolved, rfl, rfl, rfl, ?_⟩
  rintro service plan planned rfl
  obtain ⟨_, _, _, -, -, -, -, -, realizes⟩ := Service.realizes_of_mem_plans planned
  constructor
  · intro captured isCaptured leads
    obtain ⟨path, found⟩ := realizes.exists_resolve_of_mem_captures isCaptured
    exact same found leads
  · intro sent isSent leads
    rcases realizes.payload_cases with ⟨-, none⟩ | ⟨-, whole⟩ | ⟨path, access, -, field, found⟩
    · cases none.symm.trans isSent
    · cases whole.symm.trans isSent
    · obtain rfl := Payload.field.inj (field.symm.trans isSent)
      exact same found leads

theorem uniqueFieldNames_driveSchema : driveSchema.UniqueFieldNames := by
  unfold UniqueFieldNames
  decide

/-- The mails of a folder's owner are a leaf of the folder. -/
theorem ownerMails_mem_queryLeaves :
    (⟨[folderOwner, userMails]⟩ : FieldAccess) ∈ driveSchema.queryLeaves driveFolder := by
  refine List.mem_map_of_mem ?_
  rw [← map_field_leafWays]
  refine List.mem_map.mpr ⟨[⟨driveFolder, 2, folderOwner⟩, ⟨driveUser, 1, userMails⟩], ?_, rfl⟩
  refine cons_mem_leafWays_iff.mpr ⟨by decide, Or.inr ⟨driveUser, ?_, by decide, ?_⟩⟩
  · exact ⟨rfl, "drive.User", rfl, by decide, rfl⟩
  · exact cons_mem_leafWays_iff.mpr ⟨by decide, Or.inl ⟨⟨by decide, nofun⟩, rfl⟩⟩

theorem resolve_ownerMails :
    driveSchema.UniqueFieldNames ∧
      driveSchema.message? driveFolder.fullName = some driveFolder ∧
      (⟨[folderOwner, userMails]⟩ : FieldAccess) ∈ driveSchema.queryLeaves driveFolder ∧
      ∃ access, driveSchema.resolve driveFolder ⟨["owner", "mails"]⟩ = .ok access ∧
        access.fields = [folderOwner, userMails] := by
  obtain ⟨access, resolved, same, -⟩ := resolve_of_mem_queryLeaves driveSchema driveFolder
    uniqueFieldNames_driveSchema rfl _ ownerMails_mem_queryLeaves
  exact ⟨uniqueFieldNames_driveSchema, rfl, ownerMails_mem_queryLeaves, access, resolved, same⟩

end HttpClientGen.Schema
