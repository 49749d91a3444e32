import HttpClientGen.Proofs.Script.Syntax

/-!
# Running the statements of a client function

What the statements do with a request. A request is a tree of values in which anything may be
missing. Reading a member of `undefined` or `null` stops a run, and so does an error that the code
throws. A run is observed through its events: which chains were tested, which were evaluated to
build something, and what was built. The texts that are built are not modelled, and the methods that
are called on a value are taken to return.
-/

namespace HttpClientGen.Script

/-- The values of a request. Of a boolean, a number and a text only the truth value is kept. -/
inductive Value
  | undefined
  | null
  | primitive (truth : Bool)
  | array (elements : List Value)
  | object (members : List (String × Value))
  deriving Repr

namespace Value

/-- `undefined` and `null`, which have no members. -/
def isAbsent : Value → Bool
  | undefined => true
  | null => true
  | _ => false

def isTrue : Value → Bool
  | undefined => false
  | null => false
  | primitive truth => truth
  | array _ => true
  | object _ => true

/-- The member of a value, which an absent value does not have. What is not a member of an object
itself is `inherited`, and so is every member of a value of another kind. -/
def member? (inherited : Value → String → Value) (value : Value) (name : String) :
    Option Value :=
  match value with
  | undefined => none
  | null => none
  | object members => some ((members.lookup name).getD (inherited (.object members) name))
  | value => some (inherited value name)

/-- The value at the end of some links, unless a member of an absent value is read on the way. An
optional link that meets an absent value ends the chain there. -/
def follow (inherited : Value → String → Value) : List Link → Value → Option Value
  | [], value => some value
  | link :: links, value =>
    if link.optional && value.isAbsent then some .undefined
    else (value.member? inherited link.name).bind (follow inherited links)

end Value

/-- What the names in the code stand for. -/
structure Scope where
  request : Value
  /-- The element `x`, inside of a loop. -/
  element : Option Value
  inherited : Value → String → Value

def Scope.lookup (scope : Scope) (name : String) : Option Value :=
  if name = "request" then some scope.request
  else if name = "x" then scope.element
  else none

/-- Why a run ends early. -/
inductive Stop
  | thrown (message : String)
  /-- A member of `undefined` or `null` was read along the chain, or of its value. -/
  | absentRead (chain : Chain)
  | unbound (name : String)
  /-- The value of the chain has no elements to loop over. -/
  | notList (chain : Chain)

/-- What can be observed of a run. -/
inductive Event
  /-- A chain was evaluated as a condition. -/
  | tested (chain : Chain) (value : Value)
  /-- A chain was evaluated for the path, the body or the query. -/
  | evaluated (chain : Chain) (value : Value)
  | builtPath
  | builtBody
  | startedQuery
  | pushed

/-- What a piece of code does: its events, and why it stops, if it does. -/
structure Effect where
  events : List Event
  stop : Option Stop

namespace Effect

def nothing : Effect := ⟨[], none⟩

def event (event : Event) : Effect := ⟨[event], none⟩

def halt (stop : Stop) : Effect := ⟨[], some stop⟩

/-- One effect, and then the next one unless the first one stops. -/
def andThen (first next : Effect) : Effect :=
  match first.stop with
  | some _ => first
  | none => ⟨first.events ++ next.events, next.stop⟩

def sequence : List Effect → Effect
  | [] => nothing
  | effect :: effects => effect.andThen (sequence effects)

end Effect

namespace Scope

def eval (scope : Scope) (chain : Chain) : Except Stop Value :=
  match scope.lookup chain.root with
  | none => .error (.unbound chain.root)
  | some value =>
    match value.follow scope.inherited chain.links with
    | none => .error (.absentRead chain)
    | some value => .ok value

/-- Evaluates a chain, and goes on with its value. -/
def use (scope : Scope) (chain : Chain) (next : Value → Effect) : Effect :=
  match scope.eval chain with
  | .error stop => .halt stop
  | .ok value => (Effect.event (.evaluated chain value)).andThen (next value)

def test (scope : Scope) (chain : Chain) (yes no : Effect) : Effect :=
  match scope.eval chain with
  | .error stop => .halt stop
  | .ok value =>
    (Effect.event (.tested chain value)).andThen (if value.isTrue then yes else no)

/-- Reads the name of a method that is called on the value of a chain. -/
def call (scope : Scope) (chain : Chain) (method : String) (next : Value → Effect) : Effect :=
  scope.use chain fun value =>
    match value.member? scope.inherited method with
    | none => .halt (.absentRead chain)
    | some _ => next value

def piece (scope : Scope) : Piece → Effect
  | .char _ => .nothing
  | .value chain => scope.use chain fun _ => .nothing
  | .encoded chain => scope.call chain "toString" fun _ => .nothing

/-- The effect of a template literal: its holes are evaluated from left to right. -/
def literal (scope : Scope) (pieces : List Piece) : Effect :=
  .sequence (pieces.map scope.piece)

def body (scope : Scope) : Body → Effect
  | .null => .nothing
  | .stringify chain => scope.use chain fun _ => .nothing
  | .stringifyOrEmpty chain => scope.use chain fun _ => .nothing

/-- Builds a pair and pushes it. -/
def push (scope : Scope) (pair : List Piece) : Effect :=
  (scope.literal pair).andThen (.event .pushed)

/-- Pushes a pair for each element of a list. -/
def pushEach (scope : Scope) (list : Chain) (pair : List Piece) : Value → Effect
  | .array elements =>
    .sequence (elements.map fun element =>
      Scope.push { scope with element := some element } pair)
  | _ => .halt (.notList list)

def statement (scope : Scope) : Statement → Effect
  | .throwUnless chain message => scope.test chain .nothing (.halt (.thrown message))
  | .path pieces => (scope.literal pieces).andThen (.event .builtPath)
  | .body body => (scope.body body).andThen (.event .builtBody)
  | .query => .event .startedQuery
  | .pushIf chain pair => scope.test chain (scope.push pair) .nothing
  | .pushEachIf chain list pair =>
    scope.test chain (scope.call list "forEach" (scope.pushEach list pair)) .nothing

def run (scope : Scope) (statements : List Statement) : Effect :=
  .sequence (statements.map scope.statement)

end Scope

end HttpClientGen.Script
