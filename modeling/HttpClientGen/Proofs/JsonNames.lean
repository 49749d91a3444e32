import HttpClientGen.Proofs.Client.Safety
import HttpClientGen.Proofs.Properties
import HttpClientGen.Proofs.Script.Signature

/-!
# Names in JSON are written as they are

The properties of records and the chains of client functions hold the names that the fields have in
JSON, and nothing quotes them. Where these names are identifiers, they are read back: a property
declares the name of its field, and a chain reads the names along its path. A chain with a text that
is no name is not read.
-/

namespace HttpClientGen

open Script

/-- Behind its documentation the property is one line. It declares the name that a field has in JSON,
and nothing else, if this name and the name in the type of the property are identifiers. -/
def Property.Declares (alphabet : Alphabet) (field : Field) (property : Property) : Prop :=
  ∃ line : Line, property.render = field.doc.render 1 ++ [line] ∧
    (alphabet.IsIdentifier field.jsonName → alphabet.IsIdentifier property.type.leaf →
      readProperty alphabet line.text.toList =
        some (⟨field.jsonName, property.optional, property.type⟩, []))

theorem Property.Presents.declares {alphabet : Alphabet} {property : Property} {field : Field}
    {marked : Prop} (presents : property.Presents field marked) :
    property.Declares alphabet field := by
  obtain ⟨mark, isMark, lines⟩ := presents.lines
  refine ⟨_, lines, fun ident leaf => readProperty_append ident leaf ?_⟩
  rcases isMark with ⟨isMarked, rfl⟩ | ⟨notMarked, rfl⟩
  · rw [if_pos (presents.optional.mpr isMarked)]
  · rw [if_neg fun optional => notMarked (presents.optional.mp optional)]

/-- What is written for a field reads the names along its path, and no others. -/
structure FieldAccess.ReadBack (access : FieldAccess) : Prop where
  guard : readStatements (ClientFunction.renderGuard access) =
    some [.throwUnless (.guarded access.jsonNames) access.missing]
  hole : ∃ inner, (PathPart.value access).render.toList = '$' :: '{' :: (inner ++ ['}']) ∧
    '}' ∉ inner ∧ readHole inner = some (.value (.plain access.jsonNames))
  body : readBody (Payload.field access).render.toList =
    some (.stringifyOrEmpty (.lenient access.jsonNames), [])
  query : readStatements (ClientFunction.renderQuery access) = some [access.pushStatement]

theorem FieldAccess.Named.readBack {access : FieldAccess} (named : access.Named) :
    access.ReadBack := by
  have nothing : readStatements [] = some [] := rfl
  constructor
  · have guard := @readStatements_guard access [] named
    rw [nothing, List.append_nil] at guard
    exact guard
  · have plain := Chain.named_plain named.names
    refine ⟨(Chain.plain access.jsonNames).text, ?_, not_mem_text plain (by decide) (by decide),
      readHole_value plain⟩
    simp [PathPart.render, Chain.text_plain named.nonempty, FieldAccess.plainChain]
  · have isNamed : ∀ found ∈ (Payload.field access).access?, found.Named := by
      rintro _ ⟨⟩
      exact named
    have read := readBody_append (Payload.named_expression isNamed) []
    rw [List.append_nil, Payload.text_expression isNamed] at read
    exact read
  · have push := @readStatements_push access [] named
    rw [nothing, List.append_nil] at push
    rw [FieldAccess.renderQuery_eq_push]
    exact push

theorem FieldAccess.ReadBack.isName {access : FieldAccess} (back : access.ReadBack) {name : String}
    (listed : name ∈ access.jsonNames) : IsName name := by
  obtain ⟨inner, -, -, read⟩ := back.hole
  have named := named_of_readHole read
  exact named.2 ⟨false, name⟩ (List.mem_map_of_mem listed)

/-- The code of a function, by the fields of an input that are named in it. -/
structure ClientFunction.NamesFields (function : ClientFunction) (alphabet : Alphabet)
    (schema : Schema) (input : Message) : Prop where
  code : ∃ opening after, function.render = opening ::
    (function.captures.flatMap renderGuard ++
      ⟨3, "const path = `" ++ String.join (function.path.map PathPart.render) ++
        "`; // eslint-disable-line quotes"⟩ ::
      ⟨3, "const body = " ++ function.payload.render ++ ";"⟩ ::
      ⟨3, "const queryParams: string[] = [];"⟩ :: (function.query.flatMap renderQuery ++ after))
  /-- The fields in the guards and in the path. -/
  captures : ∀ access ∈ function.captures, ∃ path, schema.resolve input path = .ok access
  payload : ∀ access ∈ function.payload.access?, ∃ path, schema.resolve input path = .ok access
  query : ∀ leaf ∈ function.query, leaf ∈ schema.queryLeaves input
  readBack : ∀ access ∈ function.accesses,
    (∀ name ∈ access.jsonNames, alphabet.IsIdentifier name) → access.ReadBack
  /-- Nothing else is read back: where a text is no name, the code is not that of its chain. -/
  isName : ∀ access ∈ function.accesses, access.ReadBack → ∀ name ∈ access.jsonNames, IsName name

theorem MethodPlan.Realizes.namesFields {plan : MethodPlan} {schema : Schema} {template : Template}
    {body : BodySelector} (realizes : plan.Realizes schema template body) (alphabet : Alphabet)
    (service : Service) (output : String) :
    (plan.functionFor schema service output).NamesFields alphabet schema plan.input := by
  constructor
  · rw [ClientFunction.render]
    simp only [List.append_assoc, List.cons_append, List.nil_append]
    exact ⟨_, _, rfl⟩
  · exact fun access captured => realizes.exists_resolve_of_mem_captures captured
  · intro access isPayload
    have payload : plan.payload.access? = some access := isPayload
    rcases realizes.payload_cases with
      ⟨-, isNothing⟩ | ⟨-, isRequest⟩ | ⟨path, found, -, isField, resolved⟩
    · simp [isNothing, Payload.access?] at payload
    · simp [isRequest, Payload.access?] at payload
    · obtain rfl : found = access := by simpa [isField, Payload.access?] using payload
      exact ⟨_, resolved⟩
  · exact fun leaf listed => MethodPlan.mem_queryLeaves_of_mem_query listed
  · intro access listed identifiers
    have nonempty := realizes.fields_ne_nil service output access listed
    have named : access.Named :=
      ⟨by simpa [FieldAccess.jsonNames] using nonempty, fun name mem =>
        Alphabet.isName_of_isIdentifier (identifiers name mem)⟩
    exact named.readBack
  · exact fun access _ back name listed => back.isName listed

namespace Viewpoint

/-- In all records of a run, the property for a field declares its name in JSON if this is an
identifier, and in all client functions, what is written for a field reads the names along its path if
these are identifiers, and only if they are names at all. -/
theorem json_names_read_back (view : Viewpoint) (alphabet : Alphabet) :
    (∀ (session : Session) (message : Message) (inRequest inResponse : Bool),
      ∀ record ∈ (view.synthesizeGiven session message inRequest inResponse).1,
        ∃ usage ∈ view.takenGiven session message inRequest inResponse, ∃ source shape,
          (source = message ∨ view.schema.message? usage.message = some source) ∧
          view.IsShape session (view.synthesizeGiven session message inRequest inResponse).2 usage
            source shape record ∧
          List.Forall₂ (fun field property => property.Declares alphabet field)
            (source.shown shape) record.properties) ∧
    ∀ (session : Session) (service : Service),
      List.Forall₂ (fun plan function => plan.method ∈ service.methods ∧
          view.schema.message? plan.method.input = some plan.input ∧
          function.NamesFields alphabet view.schema plan.input)
        (service.plans view.schema) (view.serviceCode session service).1.factory.functions := by
  constructor
  · intro session message inRequest inResponse record written
    obtain ⟨usage, isTaken, source, shape, known, isShape, same⟩ := exists_isShape written
    refine ⟨usage, isTaken, source, shape, known, isShape, ?_⟩
    rw [same]
    exact (view.shows_recordBy _ _ source shape).imp fun _ _ presents => presents.declares
  · intro session service
    refine view.forall₂_functions_of_plans session service fun plan planned output => ?_
    obtain ⟨binding, template, body, isMethod, -, -, -, found, realizes⟩ :=
      Service.realizes_of_mem_plans planned
    exact ⟨isMethod, found, realizes.namesFields alphabet service output⟩

/-- The property of the folder's etag, and what is written for the name of a book. -/
theorem json_names_linkedFolder :
    (∃ property ∈ (linkedRecord .response).properties, ∃ line ∈ property.render,
      readProperty ⟨fun _ => false, fun _ => false⟩ line.text.toList =
        some (⟨"etag", false, .named "string"⟩, [])) ∧
    ∃ function ∈ ((Viewpoint.mk pagesSchema "library").serviceCode {}
        pagesService).1.factory.functions,
      ⟨[bookName]⟩ ∈ function.captures ∧ FieldAccess.ReadBack ⟨[bookName]⟩ := by
  let ascii : Alphabet := ⟨fun _ => false, fun _ => false⟩
  constructor
  · have etag : ascii.IsIdentifier "etag" := ⟨'e', "tag".toList, rfl, rfl, rfl⟩
    have string : ascii.IsIdentifier "string" := ⟨'s', "tring".toList, rfl, rfl, rfl⟩
    obtain ⟨records, -⟩ := json_names_read_back linkedView ascii
    obtain ⟨usage, -, source, shape, known, isShape, declares⟩ :=
      records {} linkedFolder true true (linkedRecord .response) (linkedRecord_mem rfl)
    obtain rfl : source = linkedFolder := known.elim id eq_linkedFolder_of_message?
    obtain rfl : some .response = shape := injective_typeName_linkedFolder isShape.name
    cases declares with
    | cons _ others =>
      cases others with
      | cons isDeclared _ =>
        obtain ⟨line, lines, read⟩ := isDeclared
        refine ⟨_, List.mem_cons_of_mem _ List.mem_cons_self, line, ?_, read etag string⟩
        rw [lines]
        simp
  · let view : Viewpoint := ⟨pagesSchema, "library"⟩
    obtain ⟨-, functions⟩ := json_names_read_back view ascii
    have plans : pagesService.plans view.schema = [pagesPlan] := by decide
    have all := functions {} pagesService
    obtain ⟨output, only⟩ := view.exists_functions_eq {} plans
    rw [plans, only] at all
    rw [only]
    obtain ⟨-, -, names⟩ := (List.forall₂_cons.mp all).1
    have captured : ⟨[bookName]⟩ ∈
        (pagesPlan.functionFor pagesSchema pagesService output).captures := List.mem_cons_self
    refine ⟨_, List.mem_cons_self, captured, names.readBack _ ?_ ?_⟩
    · exact List.mem_append_left _ (List.mem_append_left _ captured)
    · intro name listed
      obtain rfl := List.mem_singleton.mp listed
      exact ⟨'b', "ookName".toList, rfl, rfl, rfl⟩

end Viewpoint

/-- A field whose name in JSON is no identifier. -/
def userId : Field where
  name := "user_id"
  jsonName := "user-id"
  kind := .scalar .string

def userRequest : Message where
  declared := ⟨"accounts", "UserRequest"⟩
  fields := [userId]

def getUser : Method where
  name := "GetUser"
  input := "accounts.UserRequest"
  output := "accounts.UserRequest"
  binding := some ⟨"get", "/v1/\x7buser_id\x7d", ""⟩

def usersService : Service where
  declared := ⟨"accounts", "Users"⟩
  methods := [getUser]

def usersView : Viewpoint where
  schema := .ofFiles [⟨"users.proto", "accounts", [userRequest], [], [usersService]⟩]
  package := "accounts"

def getUserPlan : MethodPlan where
  method := getUser
  input := userRequest
  verb := .get
  path := [.text "/", .text "v1", .text "/", .value ⟨[userId]⟩]
  payload := .nothing

/-- The property for the field is read by no alphabet, and what is written for the field in its client
function does not read it. -/
theorem not_json_names_userRequest :
    (∃ record ∈ (usersView.synthesizeGiven {} userRequest false false).1,
      ∃ property ∈ record.properties, property.render = [⟨1, "user-id: string;"⟩] ∧
        ∀ alphabet, readProperty alphabet "user-id: string;".toList = none) ∧
    ∃ function ∈ (usersView.serviceCode {} usersService).1.factory.functions,
      ⟨[userId]⟩ ∈ function.captures ∧
        (PathPart.value ⟨[userId]⟩).render = "$\x7brequest.user-id\x7d" ∧
        ¬FieldAccess.ReadBack ⟨[userId]⟩ := by
  constructor
  · refine ⟨usersView.defaultRecord userRequest,
      Viewpoint.mem_synthesizeGiven_of_mem_writeGiven (by decide), _, List.mem_cons_self,
      by decide, fun alphabet => ?_⟩
    have ident : alphabet.IsIdentifier "user" := ⟨'u', "ser".toList, rfl, rfl, rfl⟩
    have ends : alphabet.EndsIdentifier "-id: string;".toList :=
      Alphabet.endsIdentifier_cons (by decide) (by decide)
    have key : alphabet.readKey "user-id: string;".toList = some ("user", "-id: string;".toList) :=
      Alphabet.readKey_append ident ends
    rw [readProperty, key]
    rfl
  · have plans : usersService.plans usersView.schema = [getUserPlan] := by decide
    obtain ⟨output, functions⟩ := usersView.exists_functions_eq {} plans
    rw [functions]
    refine ⟨_, List.mem_cons_self, List.mem_cons_self, by decide, fun back => ?_⟩
    have isName : IsName "user-id" := back.isName List.mem_cons_self
    exact absurd isName (by decide)

end HttpClientGen
