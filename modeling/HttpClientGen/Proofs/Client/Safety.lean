import HttpClientGen.Proofs.Client.Path
import HttpClientGen.Proofs.Client.Statements
import HttpClientGen.Proofs.Script.Safety

/-!
# Client functions read no member of an absent value

The code of a client function is read as statements, and these are run on any request. Before a
chain such as `request.a.b` is evaluated, `request.a?.b` has been found to be true, and a missing
field of the path stops the function before anything is built. Elements of a list are not tested.
-/

namespace HttpClientGen

open Script

namespace Script.Scope

variable {scope : Scope} {members : List (String × Value)} {access leaf : FieldAccess}

/-- The value of a field of the request, or `undefined` if a value around it is absent. -/
def fieldValue (scope : Scope) (access : FieldAccess) : Value :=
  match scope.eval (.guarded access.jsonNames) with
  | .ok value => value
  | .error _ => .undefined

/-- The field passes for a condition. -/
def holds (scope : Scope) (access : FieldAccess) : Bool :=
  (scope.fieldValue access).isTrue

def testOf (scope : Scope) (access : FieldAccess) : Event :=
  .tested (.guarded access.jsonNames) (scope.fieldValue access)

theorem eval_guarded (root : scope.request = .object members) (access : FieldAccess) :
    scope.eval (.guarded access.jsonNames) = .ok (scope.fieldValue access) := by
  obtain ⟨value, evaluated⟩ := exists_eval_guarded root access.jsonNames
  rw [fieldValue, evaluated]

theorem eval_plain (root : scope.request = .object members) (holds : scope.holds access = true) :
    scope.eval (.plain access.jsonNames) = .ok (scope.fieldValue access) :=
  eval_plain_of_isTrue root (eval_guarded root access) holds

theorem statement_guard (root : scope.request = .object members) (access : FieldAccess) :
    scope.statement access.guardStatement =
      if scope.holds access then ⟨[scope.testOf access], none⟩
      else ⟨[scope.testOf access], some (.thrown access.missing)⟩ := by
  rw [FieldAccess.guardStatement, statement, test_of_eval (eval_guarded root access), holds]
  split
  · rfl
  · rfl

theorem run_cons (statement : Statement) (statements : List Statement) :
    scope.run (statement :: statements) =
      (scope.statement statement).andThen (scope.run statements) :=
  rfl

theorem run_append (statements later : List Statement) :
    scope.run (statements ++ later) = (scope.run statements).andThen (scope.run later) := by
  rw [run, List.map_append, Effect.sequence_append]
  rfl

/-- The guards of fields that are all there test each of them. -/
theorem run_guards (root : scope.request = .object members) {accesses : List FieldAccess}
    (allHold : ∀ access ∈ accesses, scope.holds access = true) :
    scope.run (accesses.map FieldAccess.guardStatement) =
      ⟨accesses.map scope.testOf, none⟩ := by
  induction accesses with
  | nil => rfl
  | cons access accesses ih =>
    rw [List.forall_mem_cons] at allHold
    rw [List.map_cons, run_cons, ih allHold.2, statement_guard root, if_pos allHold.1]
    rfl

/-- The first missing field ends the run. -/
theorem run_guards_of_missing (root : scope.request = .object members)
    {front back : List FieldAccess} (rest : List Statement)
    (allHold : ∀ earlier ∈ front, scope.holds earlier = true)
    (missing : scope.holds access = false) :
    scope.run ((front ++ access :: back).map FieldAccess.guardStatement ++ rest) =
      ⟨(front ++ [access]).map scope.testOf, some (.thrown access.missing)⟩ := by
  have stopped : scope.statement access.guardStatement =
      ⟨[scope.testOf access], some (.thrown access.missing)⟩ := by
    rw [statement_guard root, missing]
    rfl
  rw [List.map_append, List.append_assoc, run_append, run_guards root allHold, List.map_cons,
    List.cons_append, run_cons, stopped, List.map_append]
  rfl

/-- Guards that do not stop have found all their fields. -/
theorem holds_of_run_guards (root : scope.request = .object members)
    {accesses : List FieldAccess}
    (goesOn : (scope.run (accesses.map FieldAccess.guardStatement)).stop = none) :
    ∀ access ∈ accesses, scope.holds access = true := by
  induction accesses with
  | nil => simp
  | cons access accesses ih =>
    rw [List.map_cons, run_cons, statement_guard root] at goesOn
    by_cases holds : scope.holds access = true
    · rw [if_pos holds] at goesOn
      exact List.forall_mem_cons.mpr ⟨holds, ih goesOn⟩
    · rw [if_neg holds] at goesOn
      cases goesOn

end Script.Scope

namespace ClientFunction

variable {function : ClientFunction} {scope : Scope} {members : List (String × Value)}
  {past : List Event}

/-- The reasons for which a client function may stop: a field of the path that is missing, or an
element of a list that is absent. -/
inductive MayStop (function : ClientFunction) (scope : Scope) : Stop → Prop
  | missing {access : FieldAccess} (listed : access ∈ function.captures)
      (missing : scope.holds access = false) : function.MayStop scope (.thrown access.missing)
  | element {chain : Chain} (root : chain.root = "x") : function.MayStop scope (.absentRead chain)

theorem covered_plain {access : FieldAccess} {value : Value}
    (isTested : scope.testOf access ∈ past) (holds : scope.holds access = true) :
    (Event.evaluated (.plain access.jsonNames) value).Covered past := by
  intro names _ same
  have links : access.jsonNames.map (Link.mk false) = names.map (Link.mk false) :=
    congrArg Chain.links same
  have injective : Function.Injective (Link.mk false) := fun _ _ same => congrArg Link.name same
  obtain rfl := List.map_injective_iff.mpr injective links
  exact ⟨_, isTested, holds⟩

theorem covered_of_links {chain : Chain} {value : Value}
    (other : chain.root ≠ "request" ∨ ∀ link ∈ chain.links, link.optional = true) :
    (Event.evaluated chain value).Covered past := by
  rintro names nonempty rfl
  obtain ⟨name, names, rfl⟩ := List.exists_cons_of_ne_nil nonempty
  rcases other with differ | allOptional
  · exact absurd rfl differ
  · exact absurd (allOptional ⟨false, name⟩ (by simp [Chain.plain])) (by simp)

theorem safe_guards (root : scope.request = .object members) :
    (scope.run (function.captures.map FieldAccess.guardStatement)).Safe
      (function.MayStop scope) past := by
  refine Effect.safe_sequence ?_
  simp only [List.mem_map, forall_exists_index, and_imp, forall_apply_eq_imp_iff₂]
  intro access listed
  refine Scope.safe_test (Scope.eval_guarded root access) (fun _ => Effect.safe_nothing) ?_
  intro missing
  exact Effect.safe_halt (.missing listed missing)

/-- The only chains in the path are those of its fields. -/
theorem safe_path (root : scope.request = .object members)
    (allHold : ∀ access ∈ function.captures, scope.holds access = true)
    (allTested : ∀ access ∈ function.captures, scope.testOf access ∈ past) :
    (scope.statement (.path (function.path.flatMap PathPart.pieces))).Safe
      (function.MayStop scope) past := by
  refine Effect.Safe.andThen (Effect.safe_sequence ?_) fun _ => Effect.safe_event trivial
  simp only [List.mem_map, forall_exists_index, and_imp, forall_apply_eq_imp_iff₂]
  intro piece listed
  obtain ⟨part, inPath, listed⟩ := List.mem_flatMap.mp listed
  cases part with
  | text fixed =>
    obtain ⟨c, -, rfl⟩ := List.mem_map.mp listed
    exact Effect.safe_nothing
  | value access =>
    obtain rfl := List.mem_singleton.mp listed
    have captured : access ∈ function.captures := List.mem_filterMap.mpr ⟨_, inPath, rfl⟩
    exact Scope.safe_use (Scope.eval_plain root (allHold access captured))
      (covered_plain (allTested access captured) (allHold access captured)) Effect.safe_nothing

/-- The chain of the body is optional from its first link on. -/
theorem safe_body (root : scope.request = .object members) (payload : Payload) :
    (scope.statement (.body payload.expression)).Safe (function.MayStop scope) past := by
  refine Effect.Safe.andThen ?_ fun _ => Effect.safe_event trivial
  cases payload with
  | nothing => exact Effect.safe_nothing
  | request =>
    have itself : scope.eval ⟨"request", []⟩ = .ok (.object members) :=
      (Scope.eval_eq_ok_iff root rfl).mpr rfl
    have covered : (Event.evaluated ⟨"request", []⟩ (.object members)).Covered past :=
      covered_of_links (Or.inr (by simp))
    have body : Payload.request.expression = .stringify ⟨"request", []⟩ := rfl
    rw [body, Scope.body]
    exact Scope.safe_use itself covered Effect.safe_nothing
  | field access =>
    obtain ⟨value, evaluated⟩ := Scope.exists_eval_lenient root access.jsonNames
    exact Scope.safe_use evaluated (covered_of_links (Or.inr (by simp [Chain.lenient])))
      Effect.safe_nothing

/-- A pair is safe to push if its chain is. -/
theorem safe_pair {allowed : Stop → Prop} {leaf : FieldAccess} {chain : Chain}
    (safe : (scope.piece (.encoded chain)).Safe allowed past) :
    (scope.push (leaf.pair chain)).Safe allowed past := by
  refine Effect.Safe.andThen (Effect.safe_sequence ?_) fun _ => Effect.safe_event trivial
  simp only [List.mem_map, forall_exists_index, and_imp, forall_apply_eq_imp_iff₂]
  intro piece listed
  rcases List.mem_append.mp listed with inName | listed
  · obtain ⟨c, -, rfl⟩ := List.mem_map.mp inName
    exact Effect.safe_nothing
  · obtain rfl := List.mem_singleton.mp listed
    exact safe

/-- An element is not tested, so that an absent one stops the function. -/
theorem safe_element (element : Value) :
    (Scope.piece { scope with element := some element } (.encoded ⟨"x", []⟩)).Safe
      (function.MayStop scope) past := by
  have itself : Scope.eval { scope with element := some element } ⟨"x", []⟩ = .ok element := by
    rfl
  rw [Scope.piece, Scope.call]
  refine Scope.safe_use itself (covered_of_links (Or.inl (by decide))) ?_
  dsimp only
  cases element.member? scope.inherited "toString" with
  | none => exact Effect.safe_halt (.element rfl)
  | some member => exact Effect.safe_nothing

/-- A leaf is tested before it is read. -/
theorem safe_push (root : scope.request = .object members) {leaf : FieldAccess}
    (isArray : leaf.isList = true → scope.holds leaf = true →
      ∃ elements, scope.fieldValue leaf = .array elements) :
    (scope.statement leaf.pushStatement).Safe (function.MayStop scope) past := by
  have isTested : scope.testOf leaf ∈ past ++ [scope.testOf leaf] := by simp
  rw [FieldAccess.pushStatement]
  split
  · next list =>
    refine Scope.safe_test (Scope.eval_guarded root leaf) (fun holds => ?_)
      fun _ => Effect.safe_nothing
    refine Scope.safe_call (Scope.eval_plain root holds) holds (covered_plain isTested holds) ?_
    obtain ⟨elements, isArray⟩ := isArray list holds
    rw [isArray]
    refine Effect.safe_sequence ?_
    simp only [List.mem_map, forall_exists_index, and_imp, forall_apply_eq_imp_iff₂]
    exact fun element _ => safe_pair (safe_element element)
  · refine Scope.safe_test (Scope.eval_guarded root leaf) (fun holds => ?_)
      fun _ => Effect.safe_nothing
    exact safe_pair (Scope.safe_call (Scope.eval_plain root holds) holds
      (covered_plain isTested holds) Effect.safe_nothing)

/-- The request is an object, and what stands in it for a repeated field is a list. -/
structure Fits (scope : Scope) (function : ClientFunction) : Prop where
  root : ∃ members, scope.request = .object members
  lists : ∀ leaf ∈ function.query, leaf.isList = true → scope.holds leaf = true →
    ∃ elements, scope.fieldValue leaf = .array elements

/-- A run of the statements is safe on every request. -/
theorem safe_run (fits : Fits scope function) :
    (scope.run function.statements).Safe (function.MayStop scope) [] := by
  obtain ⟨⟨members, root⟩, lists⟩ := fits
  rw [statements, List.append_assoc, Scope.run_append]
  refine (safe_guards root).andThen fun goesOn => ?_
  have allHold := Scope.holds_of_run_guards root goesOn
  rw [Scope.run_guards root allHold]
  have allTested : ∀ access ∈ function.captures,
      scope.testOf access ∈ [] ++ function.captures.map scope.testOf := by
    intro access listed
    exact List.mem_map_of_mem listed
  refine (safe_path root allHold allTested).andThen fun _ => ?_
  refine (safe_body root function.payload).andThen fun _ => ?_
  refine (@Effect.safe_event _ _ .startedQuery trivial).andThen fun _ => ?_
  refine Effect.safe_sequence fun effect listed => ?_
  obtain ⟨statement, inQuery, rfl⟩ := List.mem_map.mp listed
  obtain ⟨leaf, isLeaf, rfl⟩ := List.mem_map.mp inQuery
  exact safe_push root (lists leaf isLeaf)

end ClientFunction

namespace Schema

variable {schema : Schema}

/-- A path to a leaf has at least one field. -/
theorem ne_nil_of_mem_leafPaths {onPath : List String} {message : Message} {fields : List Field}
    (listed : fields ∈ schema.leafPaths onPath message) : fields ≠ [] := by
  rw [leafPaths] at listed
  obtain ⟨field, -, listed⟩ := List.mem_flatMap.mp listed
  split at listed
  · obtain rfl := List.mem_singleton.mp listed
    simp
  · split at listed
    · cases listed
    · split at listed
      · cases listed
      · obtain ⟨others, -, rfl⟩ := List.mem_map.mp listed
        simp

end Schema

namespace MethodPlan.Realizes

variable {plan : MethodPlan} {schema : Schema} {template : Template} {body : BodySelector}

/-- Every field that the function for a plan reads is reached by one name or more. -/
theorem fields_ne_nil (realizes : plan.Realizes schema template body) (service : Service)
    (output : String) :
    ∀ access ∈ (plan.functionFor schema service output).accesses, access.fields ≠ [] := by
  have ofQuery : ∀ access ∈ plan.query schema, access.fields ≠ [] := by
    intro access listed
    obtain ⟨fields, found, rfl⟩ := List.mem_map.mp (mem_queryLeaves_of_mem_query listed)
    exact Schema.ne_nil_of_mem_leafPaths found
  intro access listed
  rcases List.mem_append.mp listed with listed | inQuery
  · rcases List.mem_append.mp listed with captured | inBody
    · obtain ⟨path, resolved⟩ := realizes.exists_resolve_of_mem_captures captured
      exact (Schema.path_of_resolve resolved).2
    · have payload : plan.payload.access? = some access := Option.mem_toList.mp inBody
      rcases realizes.payload_cases with
        ⟨-, isNothing⟩ | ⟨-, isRequest⟩ | ⟨path, found, -, isField, resolved⟩
      · simp [isNothing, Payload.access?] at payload
      · simp [isRequest, Payload.access?] at payload
      · obtain rfl : found = access := by simpa [isField, Payload.access?] using payload
        exact (Schema.path_of_resolve resolved).2
  · exact ofQuery access inQuery

/-- The fixed texts of the path are texts of the template. -/
theorem plain_path (realizes : plan.Realizes schema template body)
    (wellFormed : template.WellFormed)
    (plain : ∀ c ∈ template.render.toList, c ∉ ['\x60', '\\'])
    (named : ∀ access ∈ plan.captures, access.Named) : ∀ part ∈ plan.path, part.Plain := by
  obtain ⟨pieces, leads, written, areParts⟩ := realizes.exists_pieces_of_template wellFormed
  intro part inPath
  rw [← areParts] at inPath
  obtain ⟨piece, listed, rfl⟩ := List.mem_map.mp inPath
  cases piece with
  | fixed text =>
    intro c mem special
    have noBrace : c ∉ ['{', '}'] := leads _ listed c mem
    have inTemplate : c ∈ template.render.toList := by
      rw [← written, String.toList_join]
      exact List.mem_flatMap.mpr ⟨text, List.mem_map.mpr ⟨_, listed, rfl⟩, mem⟩
    have noMeaning := plain c inTemplate
    simp only [List.mem_cons, List.not_mem_nil, or_false, not_or] at special noBrace noMeaning
    rcases special with rfl | rfl | rfl
    · exact noMeaning.1 rfl
    · exact noMeaning.2 rfl
    · exact noBrace.1 rfl
  | capture path pattern access =>
    refine named access (List.mem_filterMap.mpr ⟨.value access, ?_, rfl⟩)
    rw [← areParts]
    exact List.mem_map.mpr ⟨_, listed, rfl⟩

/-- The code for a plan can be read if its fields have names of JavaScript and its template has no
backtick and no backslash. -/
theorem readable (realizes : plan.Realizes schema template body)
    (wellFormed : template.WellFormed)
    (plain : ∀ c ∈ template.render.toList, c ∉ ['\x60', '\\']) {service : Service}
    {output : String}
    (names : ∀ access ∈ (plan.functionFor schema service output).accesses,
      ∀ name ∈ access.jsonNames, IsName name) :
    (plan.functionFor schema service output).Readable := by
  have named : ∀ access ∈ (plan.functionFor schema service output).accesses, access.Named :=
    fun access listed =>
      ⟨by simpa [FieldAccess.jsonNames] using realizes.fields_ne_nil service output access listed,
        names access listed⟩
  refine ⟨named, realizes.plain_path wellFormed plain fun access captured => named access ?_⟩
  exact List.mem_append_left _ (List.mem_append_left _ captured)

end MethodPlan.Realizes

/-- A run of a client function is safe. -/
structure ClientFunction.NullSafe (function : ClientFunction) (scope : Scope) (run : Effect) :
    Prop where
  /-- The run ends with the handler, with the error for a missing field of the path, or at an absent
  element of a list. No other member of an absent value is read. -/
  stops : ∀ stop, run.stop = some stop → function.MayStop scope stop
  /-- `request.a.b.c` is evaluated only behind a test of `request.a?.b?.c` that found it true. -/
  tests : ∀ before names value after, names ≠ [] →
    run.events = before ++ .evaluated (.plain names) value :: after →
    ∃ value, .tested (.guarded names) value ∈ before ∧ value.isTrue = true
  /-- The first missing field of the path is reported, and nothing is done but to test the fields up
  to this one. -/
  first : ∀ front access back, function.captures = front ++ access :: back →
    (∀ earlier ∈ front, scope.holds earlier = true) → scope.holds access = false →
    run = ⟨(front ++ [access]).map scope.testOf,
      some (.thrown ("missing required field request." ++ access.path.toString))⟩

theorem ClientFunction.nullSafe_run {function : ClientFunction} {scope : Scope}
    (fits : Fits scope function) : function.NullSafe scope (scope.run function.statements) := by
  have safe := safe_run fits
  refine ⟨safe.stops, fun before names value after nonempty split => ?_,
    fun front access back captures allHold missing => ?_⟩
  · exact safe.covered before _ after split names nonempty rfl
  · obtain ⟨members, root⟩ := fits.root
    rw [statements, captures, List.append_assoc]
    exact Scope.run_guards_of_missing root _ allHold missing

namespace Viewpoint

/-- The code of every client function is null-safe and fails fast, on every request. -/
theorem nullSafe_of_plans (view : Viewpoint) (session : Session) (service : Service) :
    List.Forall₂ (fun plan function =>
      ∃ binding template, plan.method ∈ service.methods ∧ plan.method.binding = some binding ∧
        Template.parse binding.path = .ok template ∧
        view.schema.message? plan.method.input = some plan.input ∧
        List.Forall₂ (fun path access => view.schema.resolve plan.input path = .ok access ∧
          access.path = path) template.capturePaths function.captures ∧
        ((∀ access ∈ function.accesses, ∀ name ∈ access.jsonNames, IsName name) →
          (∀ c ∈ binding.path.toList, c ∉ ['\x60', '\\']) →
          ∃ opening lines rest statements,
            function.render = opening :: (lines ++ ⟨3, "let uri = path;"⟩ :: rest) ∧
            readStatements lines = some statements ∧
            ∀ scope : Scope, ClientFunction.Fits scope function →
              function.NullSafe scope (scope.run statements)))
      (service.plans view.schema) (view.serviceCode session service).1.factory.functions := by
  refine view.forall₂_functions_of_plans session service fun plan planned output => ?_
  obtain ⟨binding, template, body, isMethod, bound, path, -, found, realizes⟩ :=
    Service.realizes_of_mem_plans planned
  obtain ⟨wellFormed, rendered⟩ := (Template.parse_eq_ok_iff _ _).mp path
  refine ⟨binding, template, isMethod, bound, path, found, ?_, fun names plain => ?_⟩
  · exact realizes.captures.imp fun _ _ resolved =>
      ⟨resolved, (Schema.path_of_resolve resolved).1⟩
  · rw [← rendered] at plain
    have readable := realizes.readable wellFormed plain names
    obtain ⟨opening, rest, code⟩ :=
      (plan.functionFor view.schema service output).exists_render_eq_preparation
    exact ⟨opening, _, rest, _, code, ClientFunction.readStatements_preparation readable,
      fun scope fits => ClientFunction.nullSafe_run fits⟩

end Viewpoint

def bookName : Field where
  name := "book_name"
  jsonName := "bookName"
  kind := .scalar .string

def numbers : Field where
  name := "numbers"
  jsonName := "numbers"
  kind := .scalar .int32
  cardinality := .repeated

/-- A request for some pages of a book. -/
def pagesRequest : Message where
  declared := ⟨"library", "PagesRequest"⟩
  fields := [bookName, numbers]

def getPages : Method where
  name := "GetPages"
  input := "library.PagesRequest"
  output := "library.PagesRequest"
  binding := some ⟨"get", "/v1/\x7bbook_name=books/*\x7d/pages", ""⟩

def pagesService : Service where
  declared := ⟨"library", "Pages"⟩
  methods := [getPages]

def pagesFile : SchemaFile where
  name := "pages.proto"
  package := "library"
  messages := [pagesRequest]
  services := [pagesService]

def pagesSchema : Schema :=
  .ofFiles [pagesFile]

def pagesPlan : MethodPlan where
  method := getPages
  input := pagesRequest
  verb := .get
  path := [.text "/", .text "v1", .text "/", .value ⟨[bookName]⟩, .text "/", .text "pages"]
  payload := .nothing

theorem mem_accesses_pages {output : String} {access : FieldAccess}
    (listed : access ∈ (pagesPlan.functionFor pagesSchema pagesService output).accesses) :
    access = ⟨[bookName]⟩ ∨ access = ⟨[numbers]⟩ := by
  have leaves : pagesSchema.queryLeaves pagesRequest = [⟨[bookName]⟩, ⟨[numbers]⟩] := by
    unfold Schema.queryLeaves Schema.leafPaths
    simp [pagesRequest, Field.isQueryLeaf, bookName, numbers, FieldKind.message?]
  rcases List.mem_append.mp listed with captured | inQuery
  · exact Or.inl (List.mem_singleton.mp captured)
  · have isLeaf : access ∈ pagesSchema.queryLeaves pagesRequest := (List.mem_filter.mp inQuery).1
    simpa [leaves] using isLeaf

/-- Without the name of a book a request is refused, whatever numbers it asks for. -/
theorem nullSafe_getPages :
    ∃ function ∈ ((Viewpoint.mk pagesSchema "library").serviceCode {}
        pagesService).1.factory.functions,
      ∃ opening lines rest statements,
        function.render = opening :: (lines ++ ⟨3, "let uri = path;"⟩ :: rest) ∧
        readStatements lines = some statements ∧
        Scope.run ⟨.object [("numbers", .array [.null])], none, fun _ _ => .undefined⟩ statements =
          ⟨[.tested (.guarded ["bookName"]) .undefined],
            some (.thrown "missing required field request.book_name")⟩ := by
  let view : Viewpoint := ⟨pagesSchema, "library"⟩
  have plans : pagesService.plans view.schema = [pagesPlan] := by decide
  have all := view.nullSafe_of_plans {} pagesService
  have known := @Viewpoint.forall₂_functions_of_plans view {} pagesService
    (fun plan function => ∃ output, function = plan.functionFor view.schema pagesService output)
    fun plan _ output => ⟨output, rfl⟩
  rw [plans] at all known
  obtain ⟨_, _, ⟨output, rfl⟩, -, functions⟩ := List.forall₂_cons_left_iff.mp known
  rw [functions] at all ⊢
  obtain ⟨binding, template, -, bound, -, -, -, safe⟩ := (List.forall₂_cons.mp all).1
  obtain rfl : _ = binding := Option.some.inj bound
  have names : ∀ access ∈ (pagesPlan.functionFor pagesSchema pagesService output).accesses,
      ∀ name ∈ access.jsonNames, IsName name := by
    intro access listed
    rcases mem_accesses_pages listed with rfl | rfl <;> decide
  have plain : ("/v1/\x7bbook_name=books/*\x7d/pages".toList.all (· ∉ ['\x60', '\\'])) = true := by
    decide
  obtain ⟨opening, lines, rest, statements, code, read, run⟩ :=
    safe names fun c listed => of_decide_eq_true (List.all_eq_true.mp plain c listed)
  let scope : Scope := ⟨.object [("numbers", .array [.null])], none, fun _ _ => .undefined⟩
  have fits :
      ClientFunction.Fits scope (pagesPlan.functionFor pagesSchema pagesService output) := by
    refine ⟨⟨_, rfl⟩, fun leaf inQuery list _ => ?_⟩
    rcases mem_accesses_pages (List.mem_append_right _ inQuery) with rfl | rfl
    · cases list
    · exact ⟨_, rfl⟩
  refine ⟨_, List.mem_cons_self, opening, lines, rest, statements, code, read, ?_⟩
  exact (run scope fits).first [] ⟨[bookName]⟩ [] rfl (by simp) (by decide)

end HttpClientGen
