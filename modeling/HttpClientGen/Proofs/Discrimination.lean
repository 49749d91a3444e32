import HttpClientGen.Discrimination
import Mathlib.Logic.Relation

/-!
# Discrimination is reachability

A message needs separate shapes exactly when a chain of message fields leads from it to a message
with a discriminating field of its own. The walk behind `Schema.discriminates` visits every message
once, and a memo keeps its answers by name; neither the cycles of the schema nor the questions that
were asked before have a part in an answer.
-/

namespace HttpClientGen

namespace Schema

/-- A field of `outer` holds messages of a type that the schema knows as `inner`. -/
def Leads (schema : Schema) (outer inner : Message) : Prop :=
  ∃ field ∈ outer.fields, ∃ name, field.kind = .message name ∧ schema.message? name = some inner

/-- A chain of any number of fields leads from one message to another. -/
def Chain (schema : Schema) : Message → Message → Prop :=
  Relation.ReflTransGen schema.Leads

end Schema

theorem FieldKind.message?_eq_some_iff {kind : FieldKind} {fullName : String} :
    kind.message? = some fullName ↔ kind = .message fullName := by
  cases kind <;> simp [message?]

theorem Message.mem_targets_iff {message : Message} {fullName : String} :
    fullName ∈ message.targets ↔ ∃ field ∈ message.fields, field.kind = .message fullName := by
  simp [targets, FieldKind.message?_eq_some_iff]

/-- A message discriminates by itself through the behaviours of a field that holds no message. -/
theorem Message.discriminates_iff {message : Message} :
    message.discriminates = true ↔ ∃ field ∈ message.fields, field.kind.message? = none ∧
      (.outputOnly ∈ field.behaviors ∨ .inputOnly ∈ field.behaviors ∨
        .optional ∈ field.behaviors) := by
  have telling (field : Field) : field.discriminates = true ↔
      .outputOnly ∈ field.behaviors ∨ .inputOnly ∈ field.behaviors ∨
        .optional ∈ field.behaviors := by
    rw [Field.discriminates, List.any_eq_true]
    constructor
    · rintro ⟨behavior, held, tells⟩
      cases behavior <;> simp_all [FieldBehavior.discriminates]
    · rintro (held | held | held) <;> exact ⟨_, held, rfl⟩
  simp [discriminates, telling]

namespace Schema

variable {schema : Schema}

theorem leads_iff {outer inner : Message} :
    schema.Leads outer inner ↔ ∃ name ∈ outer.targets, schema.message? name = some inner := by
  simp only [Leads, Message.mem_targets_iff]
  constructor
  · rintro ⟨field, held, name, kind, found⟩
    exact ⟨name, ⟨field, held, kind⟩, found⟩
  · rintro ⟨name, ⟨field, held, kind⟩, found⟩
    exact ⟨field, held, name, kind, found⟩

/-- What a walk finds lies on a chain from one of the names it starts with. -/
theorem reachable_sound {met todo : List String} {target : Message}
    (reached : target ∈ schema.reachable met todo) :
    ∃ name ∈ todo, ∃ start, schema.message? name = some start ∧ schema.Chain start target := by
  fun_induction reachable schema met todo with
  | case1 => simp at reached
  | case2 met name rest _ ih =>
    obtain ⟨other, listed, chain⟩ := ih reached
    exact ⟨other, List.mem_cons_of_mem name listed, chain⟩
  | case3 met name rest _ _ ih =>
    obtain ⟨other, listed, chain⟩ := ih reached
    exact ⟨other, List.mem_cons_of_mem name listed, chain⟩
  | case4 met name rest _ message found ih =>
    rcases List.mem_cons.mp reached with rfl | later
    · exact ⟨name, List.mem_cons_self, target, found, .refl⟩
    · obtain ⟨other, listed, start, known, chain⟩ := ih later
      rcases List.mem_append.mp listed with aimed | listed
      · have leads : schema.Leads message start := leads_iff.mpr ⟨other, aimed, known⟩
        exact ⟨name, List.mem_cons_self, message, found, .head leads chain⟩
      · exact ⟨other, List.mem_cons_of_mem name listed, start, known, chain⟩

/-- A name has been dealt with: it was met before, or its message is among those found. -/
def Settled (schema : Schema) (met : List String) (found : List Message) (name : String) : Prop :=
  ∀ message, schema.message? name = some message → name ∈ met ∨ message ∈ found

/-- A name that is met on the way counts as found once its message is. -/
theorem Settled.of_met {met : List String} {found : List Message} {name other : String}
    {message : Message} (known : schema.message? name = some message)
    (settled : schema.Settled (name :: met) found other) :
    schema.Settled met (message :: found) other := by
  intro target atOther
  rcases settled target atOther with now | later
  · rcases List.mem_cons.mp now with rfl | before
    · obtain rfl := Option.some.inj (known.symm.trans atOther)
      exact Or.inr List.mem_cons_self
    · exact Or.inl before
  · exact Or.inr (List.mem_cons_of_mem message later)

/-- The walk leaves nothing open: its own names are settled, and so are the targets of whatever it
finds. Names that were met before may be skipped since the walk that met them goes on. -/
theorem reachable_closed (met todo : List String) :
    (∀ name ∈ todo, schema.Settled met (schema.reachable met todo) name) ∧
      ∀ outer ∈ schema.reachable met todo, ∀ name ∈ outer.targets,
        schema.Settled met (schema.reachable met todo) name := by
  fun_induction reachable schema met todo with
  | case1 => simp
  | case2 met name rest old ih =>
    refine ⟨fun other listed => ?_, ih.2⟩
    rcases List.mem_cons.mp listed with rfl | listed
    · exact fun _ _ => Or.inl old
    · exact ih.1 other listed
  | case3 met name rest _ unknown ih =>
    refine ⟨fun other listed => ?_, ih.2⟩
    rcases List.mem_cons.mp listed with rfl | listed
    · intro message known
      simp [unknown] at known
    · exact ih.1 other listed
  | case4 met name rest _ message found ih =>
    constructor
    · intro other listed
      rcases List.mem_cons.mp listed with rfl | listed
      · intro target known
        obtain rfl := Option.some.inj (found.symm.trans known)
        exact Or.inr List.mem_cons_self
      · exact (ih.1 other (List.mem_append_right _ listed)).of_met found
    · intro outer reached other aimed
      rcases List.mem_cons.mp reached with rfl | reached
      · exact (ih.1 other (List.mem_append_left _ aimed)).of_met found
      · exact (ih.2 outer reached other aimed).of_met found

/-- A walk that starts afresh finds exactly what chains of fields lead to. -/
theorem mem_reachable_iff {name : String} {target : Message} :
    target ∈ schema.reachable [] [name] ↔
      ∃ start, schema.message? name = some start ∧ schema.Chain start target := by
  constructor
  · intro reached
    obtain ⟨other, listed, chain⟩ := reachable_sound reached
    exact List.mem_singleton.mp listed ▸ chain
  · rintro ⟨start, known, chain⟩
    obtain ⟨names, targets⟩ := schema.reachable_closed [] [name]
    induction chain with
    | refl => simpa using names name List.mem_cons_self start known
    | tail _ leads reached =>
      obtain ⟨other, aimed, found⟩ := leads_iff.mp leads
      simpa using targets _ reached other aimed _ found

theorem discriminates_iff {name : String} :
    schema.discriminates name = true ↔ ∃ start, schema.message? name = some start ∧
      ∃ target, schema.Chain start target ∧ target.discriminates = true := by
  simp only [discriminates, List.any_eq_true, mem_reachable_iff]
  constructor
  · rintro ⟨target, ⟨start, known, chain⟩, tells⟩
    exact ⟨start, known, target, chain, tells⟩
  · rintro ⟨start, known, target, chain, tells⟩
    exact ⟨target, ⟨start, known, chain⟩, tells⟩

/-- A name that the schema does not have needs no separate shapes. -/
theorem message?_of_discriminates {name : String} (separate : schema.discriminates name = true) :
    ∃ message, schema.message? name = some message := by
  obtain ⟨message, found, -⟩ := discriminates_iff.mp separate
  exact ⟨message, found⟩

end Schema

/-- A message that the schema has under its name gives the same answer as the name. -/
theorem Schema.discriminatesGiven_eq {schema : Schema} {message : Message}
    (known : schema.message? message.fullName = some message) :
    schema.discriminatesGiven message = schema.discriminates message.fullName := by
  have walk : schema.reachable [] [message.fullName] =
      message :: schema.reachable [message.fullName] message.targets := by
    rw [reachable, dif_neg List.not_mem_nil]
    split
    · next unknown => simp [known] at unknown
    · next found =>
      obtain rfl := Option.some.inj (known.symm.trans found)
      rw [List.append_nil]
  rw [discriminatesGiven, discriminates, walk]

/-- A question to a memo, about the message of a name or about a message that is given itself. -/
inductive Query
  | named (fullName : String)
  | given (message : Message)

def Query.message? (schema : Schema) : Query → Option Message
  | named fullName => schema.message? fullName
  | given message => some message

namespace Memo

variable {schema : Schema} {memo : Memo} {query : Query}

/-- The answer to a query, and the memo after it. -/
def reply (memo : Memo) (schema : Schema) : Query → Bool × Memo
  | .named fullName => memo.ask schema fullName
  | .given message => memo.askGiven schema message

/-- What is remembered under a name is what a walk from the schema's own message would give. -/
def SoundAt (memo : Memo) (schema : Schema) (name : String) : Prop :=
  ∀ answer, memo.answers.lookup name = some answer → answer = schema.discriminates name

/-- Every remembered answer is the one that a walk would give. -/
def Sound (memo : Memo) (schema : Schema) : Prop :=
  ∀ name, memo.SoundAt schema name

theorem sound_empty : ({} : Memo).Sound schema := by
  intro name answer remembered
  simp at remembered

/-- A name is only a way to find a message. -/
theorem reply_eq (memo : Memo) (schema : Schema) (query : Query) :
    memo.reply schema query = match query.message? schema with
      | none => (false, memo)
      | some message => memo.askGiven schema message := by
  cases query with
  | given message => rfl
  | named name =>
    cases found : schema.message? name with
    | none => simp only [reply, ask, Query.message?, found]
    | some message =>
      obtain rfl := Schema.fullName_of_message? found
      simp only [reply, ask, Query.message?, found, askGiven, Schema.discriminatesGiven_eq found]

/-- The memo stays right about a name unless a query puts another message under it. -/
theorem reply_soundAt {name : String} (sound : memo.SoundAt schema name)
    (own : ∀ other, query.message? schema = some other → other.fullName = name →
      schema.message? name = some other) : (memo.reply schema query).2.SoundAt schema name := by
  rw [reply_eq]
  cases about : query.message? schema with
  | none => exact sound
  | some other =>
    simp only [askGiven]
    split
    · exact sound
    · intro answer remembered
      by_cases same : other.fullName = name
      · have known := own other about same
        subst same
        rw [← Schema.discriminatesGiven_eq known]
        simpa using remembered.symm
      · have differ : (name == other.fullName) = false := by simp [Ne.symm same]
        exact sound answer (by simpa [List.lookup_cons, differ] using remembered)

/-- Where the memo is right about a message, so is the answer, remembered or not. -/
theorem reply_fst {message : Message} (about : query.message? schema = some message)
    (known : schema.message? message.fullName = some message)
    (sound : memo.SoundAt schema message.fullName) :
    (memo.reply schema query).1 = schema.discriminates message.fullName := by
  simp only [reply_eq, about, askGiven]
  split
  · next answer remembered => exact sound answer remembered
  · exact Schema.discriminatesGiven_eq known

/-- Asking remembers only what a walk gave. -/
theorem ask_sound (sound : memo.Sound schema) (name : String) :
    (memo.ask schema name).2.Sound schema := by
  intro other
  change (memo.reply schema (.named name)).2.SoundAt schema other
  refine reply_soundAt (sound other) fun message found same => ?_
  rw [← same, Schema.fullName_of_message? found]
  exact found

/-- The answer of a sound memo is that of a walk, whether it is remembered or not. -/
theorem ask_eq (sound : memo.Sound schema) (name : String) :
    (memo.ask schema name).1 = schema.discriminates name := by
  cases found : schema.message? name with
  | none =>
    cases separate : schema.discriminates name with
    | false => simp only [ask, found]
    | true =>
      obtain ⟨message, known⟩ := Schema.message?_of_discriminates separate
      simp [known] at found
  | some message =>
    obtain rfl := Schema.fullName_of_message? found
    have about : (Query.named message.fullName).message? schema = some message := found
    exact reply_fst about found (sound _)

/-- Asks one query after the other, and gives the answers in the same order. -/
def askAll (memo : Memo) (schema : Schema) : List Query → List Bool × Memo
  | [] => ([], memo)
  | query :: queries =>
    let (answer, memo) := memo.reply schema query
    let (answers, memo) := memo.askAll schema queries
    (answer :: answers, memo)

/-- Queries about other messages of the same name are the only ones that could mislead a memo. -/
theorem getElem?_askAll {queries : List Query} {i : Nat} (asked : queries[i]? = some query)
    {message : Message} (about : query.message? schema = some message)
    (known : schema.message? message.fullName = some message)
    (sound : memo.SoundAt schema message.fullName)
    (undisturbed : ∀ earlier ∈ queries.take i, ∀ other, earlier.message? schema = some other →
      other.fullName = message.fullName → other = message) :
    (memo.askAll schema queries).1[i]? = some (schema.discriminates message.fullName) := by
  induction queries generalizing memo i with
  | nil => simp at asked
  | cons first queries ih =>
    cases i with
    | zero =>
      obtain rfl := Option.some.inj asked
      exact congrArg some (reply_fst about known sound)
    | succ i =>
      rw [List.take_succ_cons, List.forall_mem_cons] at undisturbed
      obtain ⟨now, later⟩ := undisturbed
      refine ih asked (reply_soundAt sound fun other isAbout same => ?_) later
      rw [now other isAbout same]
      exact known

/-- Whatever has been asked before, by names or with messages, a message of the schema is said to need
separate shapes if and only if a chain of fields, of any length, leads from it to a message with a
field that holds no message and that is only for output, only for input or optional. The one exception
is a name under which another message was given before. -/
theorem askAll_eq_true_iff_chain (schema : Schema) (queries : List Query) (i : Nat) (query : Query)
    (asked : queries[i]? = some query) (message : Message)
    (about : query.message? schema = some message)
    (known : schema.message? message.fullName = some message)
    (undisturbed : ∀ earlier ∈ queries.take i, ∀ other, earlier.message? schema = some other →
      other.fullName = message.fullName → other = message) :
    ∃ answer, (({} : Memo).askAll schema queries).1[i]? = some answer ∧
      (answer = true ↔ ∃ target, schema.Chain message target ∧
        ∃ field ∈ target.fields, field.kind.message? = none ∧
          (.outputOnly ∈ field.behaviors ∨ .inputOnly ∈ field.behaviors ∨
            .optional ∈ field.behaviors)) := by
  refine ⟨schema.discriminates message.fullName,
    getElem?_askAll asked about known (sound_empty _) undisturbed, ?_⟩
  rw [Schema.discriminates_iff]
  simp only [known, Option.some.injEq, exists_eq_left', Message.discriminates_iff]

/-- Two messages that hold each other; only the second one has a telling field. -/
def mutualSchema : Schema :=
  .ofFiles [{
    name := "test.proto"
    package := "test"
    messages := [
      { declared := ⟨"test", "A"⟩
        fields := [{ name := "b", kind := .message "test.B" }] },
      { declared := ⟨"test", "B"⟩
        fields := [{ name := "a", kind := .message "test.A", cardinality := .repeated },
          { name := "note", kind := .scalar .string, behaviors := [.inputOnly] }] }] }]

/-- A message that the schema does not have. -/
def strayMessage : Message where
  declared := ⟨"test", "C"⟩
  fields := [{ name := "note", kind := .scalar .string, behaviors := [.inputOnly] }]

/-- The message that holds the telling one is asked about last, when the answers about the other one
and about a message of another name are remembered. -/
theorem mutual_answer_iff_chain :
    let queries : List Query :=
      [.named "test.C", .given strayMessage, .named "test.B", .named "test.A"]
    queries[3]? = some (.named "test.A") ∧
      ∃ message, mutualSchema.message? "test.A" = some message ∧
        ∃ answer, (({} : Memo).askAll mutualSchema queries).1[3]? = some answer ∧
          (answer = true ↔ ∃ target, mutualSchema.Chain message target ∧
            ∃ field ∈ target.fields, field.kind.message? = none ∧
              (.outputOnly ∈ field.behaviors ∨ .inputOnly ∈ field.behaviors ∨
                .optional ∈ field.behaviors)) := by
  intro queries
  refine ⟨rfl, _, rfl, askAll_eq_true_iff_chain mutualSchema queries 3 _ rfl _ rfl rfl ?_⟩
  intro earlier isEarlier other about same
  have names : earlier = .named "test.C" ∨ earlier = .given strayMessage ∨
      earlier = .named "test.B" := by
    simpa [queries] using isEarlier
  rcases names with rfl | rfl | rfl
  · cases about
  · obtain rfl := Option.some.inj about
    exact absurd same (by decide)
  · obtain rfl := Option.some.inj about
    exact absurd same (by decide)

/-- A message with nothing telling in it. -/
def plainItem : Message where
  declared := ⟨"test", "Item"⟩
  fields := [{ name := "note", kind := .scalar .string }]

/-- Another message of the same name, whose field is only for input. -/
def tellingItem : Message where
  declared := ⟨"test", "Item"⟩
  fields := [{ name := "note", kind := .scalar .string, behaviors := [.inputOnly] }]

def itemSchema : Schema :=
  .ofFiles [{ name := "test.proto", package := "test", messages := [plainItem] }]

/-- The answer about a message from elsewhere is remembered under its name and given for the schema's
own message. -/
theorem not_askAll_eq_true_iff_chain :
    ¬∀ (schema : Schema) (queries : List Query) (i : Nat) (query : Query) (message : Message),
      queries[i]? = some query → query.message? schema = some message →
      schema.message? message.fullName = some message →
      ∃ answer, (({} : Memo).askAll schema queries).1[i]? = some answer ∧
        (answer = true ↔ ∃ target, schema.Chain message target ∧
          ∃ field ∈ target.fields, field.kind.message? = none ∧
            (.outputOnly ∈ field.behaviors ∨ .inputOnly ∈ field.behaviors ∨
              .optional ∈ field.behaviors)) := by
  intro always
  let queries : List Query := [.given tellingItem, .named "test.Item"]
  have given : itemSchema.discriminatesGiven tellingItem = true := by
    rw [Schema.discriminatesGiven, List.any_cons]
    rfl
  have answered : (({} : Memo).askAll itemSchema queries).1[1]? = some true := by
    simp only [queries, askAll, reply, askGiven, given]
    rfl
  obtain ⟨answer, isAnswer, iff⟩ :=
    always itemSchema queries 1 (.named "test.Item") plainItem rfl rfl rfl
  obtain rfl := Option.some.inj (answered.symm.trans isAnswer)
  obtain ⟨target, chain, field, held, -, tells⟩ := iff.mp rfl
  obtain rfl : plainItem = target := by
    rcases chain.cases_head with same | ⟨next, leads, -⟩
    · exact same
    · obtain ⟨name, aimed, -⟩ := Schema.leads_iff.mp leads
      exact absurd aimed (by decide +revert)
  obtain rfl := List.mem_singleton.mp held
  revert tells
  decide

end Memo

end HttpClientGen
