import HttpClientGen.Schema

/-!
# Messages that need two shapes

A message needs a shape for requests and another for responses if a field with a telling behaviour
lies in it or in any message that its fields lead to. A field that holds a message is not judged
itself; the message is. The answers are remembered by name, so each message is walked at most once.
-/

namespace HttpClientGen

/-- The messages that the given names lead to, themselves included. Names in `met` are taken as
visited already, and names that the schema does not have lead nowhere. -/
def Schema.reachable (schema : Schema) (met todo : List String) : List Message :=
  match todo with
  | [] => []
  | name :: rest =>
    if _new : name ∈ met then schema.reachable met rest
    else
      match _found : schema.message? name with
      | none => schema.reachable met rest
      | some message =>
        message :: schema.reachable (name :: met) (message.targets ++ rest)
termination_by ((schema.unmet met).length, todo.length)
decreasing_by
  · exact Prod.Lex.right _ (by simp)
  · exact Prod.Lex.right _ (by simp)
  · exact Prod.Lex.left _ _ (Schema.unmet_cons_lt _found _new)

/-- Whether a field of the message that holds no message asks for separate shapes. -/
def Message.discriminates (message : Message) : Bool :=
  message.fields.any fun field => field.kind.message?.isNone && field.discriminates

/-- Whether the message with a full name needs separate shapes. -/
def Schema.discriminates (schema : Schema) (fullName : String) : Bool :=
  (schema.reachable [] [fullName]).any Message.discriminates

/-- Whether a message needs separate shapes that is given itself. The schema need not know it. -/
def Schema.discriminatesGiven (schema : Schema) (message : Message) : Bool :=
  (message :: schema.reachable [message.fullName] message.targets).any Message.discriminates

/-- Answers that have been given, by full name. -/
structure Memo where
  answers : List (String × Bool) := []
  deriving DecidableEq, Repr

/-- Asks whether a message needs separate shapes. A name that the schema does not have is answered
in the negative, and that answer is not remembered. -/
def Memo.ask (memo : Memo) (schema : Schema) (fullName : String) : Bool × Memo :=
  match schema.message? fullName with
  | none => (false, memo)
  | some _ =>
    match memo.answers.lookup fullName with
    | some answer => (answer, memo)
    | none =>
      let answer := schema.discriminates fullName
      (answer, ⟨(fullName, answer) :: memo.answers⟩)

/-- Asks whether a message needs separate shapes that is given itself. The answer is remembered under
the name of the message, whether or not the schema knows another message by that name. -/
def Memo.askGiven (memo : Memo) (schema : Schema) (message : Message) : Bool × Memo :=
  match memo.answers.lookup message.fullName with
  | some answer => (answer, memo)
  | none =>
    let answer := schema.discriminatesGiven message
    (answer, ⟨(message.fullName, answer) :: memo.answers⟩)

end HttpClientGen
