import HttpClientGen.Proofs.Session

/-!
# What a session answers

A session may have been used with other schemas before, so what it remembers need not be right for
the schema at hand. Still its answers can be relied on: what it has said about a message it goes on
saying, whatever it is asked in between. Nothing that was remembered or claimed is ever taken back.
-/

namespace HttpClientGen

namespace Schema

variable {schema : Schema}

/-- The walk from a message that the schema finds by its name is the walk from this name. -/
theorem discriminates_of_found {message : Message}
    (found : schema.message? message.fullName = some message) :
    schema.discriminates message.fullName = schema.discriminatesGiven message := by
  have start : schema.reachable [] [message.fullName] =
      message :: schema.reachable [message.fullName] message.targets := by
    rw [reachable, dif_neg (by simp)]
    split
    · next unknown => cases unknown.symm.trans found
    · next other same =>
      obtain rfl := Option.some.inj (found.symm.trans same)
      rw [List.append_nil]
  rw [discriminates, discriminatesGiven, start]

end Schema

namespace Memo

variable {schema : Schema} {memo : Memo}

def answer (memo : Memo) (schema : Schema) (fullName : String) : Bool :=
  (memo.ask schema fullName).1

/-- What is remembered before is remembered after. -/
def Stays (before after : Memo) : Prop :=
  ∀ fullName answer, before.answers.lookup fullName = some answer →
    after.answers.lookup fullName = some answer

theorem Stays.refl (memo : Memo) : memo.Stays memo :=
  fun _ _ remembered => remembered

theorem Stays.trans {before between after : Memo} (first : before.Stays between)
    (second : between.Stays after) : before.Stays after :=
  fun fullName answer remembered => second fullName answer (first fullName answer remembered)

/-- A new answer about a name without one leaves the other answers alone. -/
theorem stays_cons {fullName : String} (new : memo.answers.lookup fullName = none)
    (answer : Bool) : memo.Stays ⟨(fullName, answer) :: memo.answers⟩ := by
  intro other remembered before
  have differ : (other == fullName) = false := by
    refine beq_eq_false_iff_ne.mpr ?_
    rintro rfl
    cases new.symm.trans before
  rw [List.lookup_cons, differ]
  exact before

/-- The answer about a message of the schema is the remembered one, or else that of a walk. -/
theorem answer_of_found {fullName : String} {message : Message}
    (found : schema.message? fullName = some message) :
    memo.answer schema fullName =
      (memo.answers.lookup fullName).getD (schema.discriminates fullName) := by
  rw [answer, ask, found]
  cases memo.answers.lookup fullName <;> rfl

theorem answer_of_unknown {fullName : String} (unknown : schema.message? fullName = none) :
    memo.answer schema fullName = false := by
  rw [answer, ask, unknown]

/-- Only messages of the schema are said to need separate shapes. -/
theorem exists_message?_of_answer {fullName : String}
    (separate : memo.answer schema fullName = true) :
    ∃ message, schema.message? fullName = some message := by
  cases found : schema.message? fullName with
  | none => simp [answer_of_unknown found] at separate
  | some message => exact ⟨message, rfl⟩

theorem Sound.answer_eq (sound : memo.Sound schema) : memo.answer schema = schema.discriminates :=
  funext (ask_eq sound)

theorem ask_stays (memo : Memo) (schema : Schema) (fullName : String) :
    memo.Stays (memo.ask schema fullName).2 := by
  rw [ask]
  split
  · exact .refl memo
  · split
    · exact .refl memo
    · next new => exact stays_cons new _

/-- A question about a name of the schema leaves all answers as they are. -/
theorem answer_ask (memo : Memo) (schema : Schema) (fullName : String) :
    (memo.ask schema fullName).2.answer schema = memo.answer schema := by
  rw [ask]
  split
  · rfl
  · next message found =>
    split
    · rfl
    · next new =>
      funext other
      by_cases same : other = fullName
      · subst other
        rw [answer_of_found found, answer_of_found found, new]
        simp
      · have differ : (other == fullName) = false := beq_eq_false_iff_ne.mpr same
        cases known : schema.message? other with
        | none => rw [answer_of_unknown known, answer_of_unknown known]
        | some _ => rw [answer_of_found known, answer_of_found known, List.lookup_cons, differ]

/-- A message that the schema finds by its name may as well be given itself. -/
theorem ask_of_found {message : Message}
    (found : schema.message? message.fullName = some message) :
    memo.ask schema message.fullName = memo.askGiven schema message := by
  rw [ask, found, askGiven, Schema.discriminates_of_found found]

theorem askGiven_stays (memo : Memo) (schema : Schema) (message : Message) :
    memo.Stays (memo.askGiven schema message).2 := by
  rw [askGiven]
  split
  · exact .refl memo
  · next new => exact stays_cons new _

/-- The answer about a given message is remembered. -/
theorem lookup_askGiven (memo : Memo) (schema : Schema) (message : Message) :
    (memo.askGiven schema message).2.answers.lookup message.fullName =
      some (memo.askGiven schema message).1 := by
  rw [askGiven]
  split
  · next remembered => exact remembered
  · exact List.lookup_cons_self

theorem askGiven_of_lookup {message : Message} {answer : Bool}
    (remembered : memo.answers.lookup message.fullName = some answer) :
    memo.askGiven schema message = (answer, memo) := by
  rw [askGiven, remembered]

end Memo

namespace Session

variable {schema : Schema} {session before between after : Session}

/-- A later state of a session, in which the options and the faults are the same and nothing has
been taken back. -/
structure Extends (before after : Session) : Prop where
  options : after.options = before.options
  errors : after.errors = before.errors
  owners : ∀ unit name owner, before.registry.owner? unit name = some owner →
    after.registry.owner? unit name = some owner
  memo : before.memo.Stays after.memo

/-- A later state of a session that gives the same answers about the messages of a schema, and right
answers if they were right before. -/
structure Follows (schema : Schema) (before after : Session) : Prop
    extends Extends before after where
  answers : after.memo.answer schema = before.memo.answer schema
  sound : before.memo.Sound schema → after.memo.Sound schema

/-- A later state of a session in which nothing has been claimed. -/
structure Consults (schema : Schema) (before after : Session) : Prop
    extends Follows schema before after where
  registry : after.registry = before.registry

theorem Extends.refl (session : Session) : session.Extends session :=
  ⟨rfl, rfl, fun _ _ _ owned => owned, .refl _⟩

theorem Extends.trans (first : before.Extends between) (second : between.Extends after) :
    before.Extends after where
  options := second.options.trans first.options
  errors := second.errors.trans first.errors
  owners unit name owner owned := second.owners unit name owner (first.owners unit name owner owned)
  memo := first.memo.trans second.memo

theorem Follows.refl (schema : Schema) (session : Session) : session.Follows schema session :=
  ⟨.refl session, rfl, id⟩

theorem Follows.trans (first : before.Follows schema between)
    (second : between.Follows schema after) : before.Follows schema after :=
  ⟨first.toExtends.trans second.toExtends, second.answers.trans first.answers,
    fun sound => second.sound (first.sound sound)⟩

theorem Consults.refl (schema : Schema) (session : Session) : session.Consults schema session :=
  ⟨.refl schema session, rfl⟩

theorem Consults.trans (first : before.Consults schema between)
    (second : between.Consults schema after) : before.Consults schema after :=
  ⟨first.toFollows.trans second.toFollows, second.registry.trans first.registry⟩

theorem Follows.keeps (follows : before.Follows schema after)
    (sound : before.memo.Sound schema) : before.Keeps schema after :=
  ⟨follows.options, follows.errors, follows.sound sound⟩

theorem Consults.recalls (consults : before.Consults schema after)
    (sound : before.memo.Sound schema) : before.Recalls schema after :=
  ⟨consults.toFollows.keeps sound, consults.registry⟩

theorem ask_consults (session : Session) (schema : Schema) (fullName : String) :
    session.Consults schema (session.ask schema fullName).2 where
  options := rfl
  errors := rfl
  owners _ _ _ owned := owned
  memo := session.memo.ask_stays schema fullName
  answers := session.memo.answer_ask schema fullName
  sound sound := Memo.ask_sound sound fullName
  registry := rfl

theorem askGiven_extends (session : Session) (schema : Schema) (message : Message) :
    session.Extends (session.askGiven schema message).2 where
  options := rfl
  errors := rfl
  owners _ _ _ owned := owned
  memo := session.memo.askGiven_stays schema message

theorem ask_of_found {message : Message}
    (found : schema.message? message.fullName = some message) :
    session.ask schema message.fullName = session.askGiven schema message := by
  rw [ask, askGiven, Memo.ask_of_found found]

/-- A claim leaves names that have an owner to this owner. -/
theorem claim_follows (session : Session) (schema : Schema) (unit name message : String) :
    session.Follows schema (session.claim unit name message).2 where
  options := rfl
  errors := rfl
  memo := .refl _
  answers := rfl
  sound := id
  owners otherUnit otherName owner owned := by
    have after : (session.claim unit name message).2.registry =
        (session.registry.claim unit name message).2 := rfl
    rw [after, Registry.owner?_claim]
    split
    · next same =>
      obtain ⟨rfl, rfl⟩ := same
      rw [owned, Option.getD_some]
    · exact owned

/-- A claim of a name that has an owner comes to nothing. -/
theorem claim_of_owned {unit name : String}
    (owned : (session.registry.owner? unit name).isSome) (message : String) :
    session.claim unit name message = (false, session) := by
  obtain ⟨owner, isOwner⟩ := Option.isSome_iff_exists.mp owned
  simp only [claim, Registry.claim, isOwner]
  by_cases same : owner = message
  · simp [same, Claim.isNew]
  · simp [same, Claim.isNew]

end Session

end HttpClientGen
