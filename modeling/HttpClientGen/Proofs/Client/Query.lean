import HttpClientGen.Proofs.Client.Plan

/-!
# What the query carries

A request is split between the path, the body and the query. The leaves of the request that lie in
or below a field of the path or the body stay out of the query, and each of the others has one
statement there that pushes it, in the order of the leaves. Whole names decide what lies below a
field. Nothing is said here about the values that are pushed when the client runs.
-/

namespace HttpClientGen

def Line.isPush (line : Line) : Bool :=
  decide (4 ≤ line.level) && "queryParams.push(".toList.isPrefixOf line.text.toList

namespace FieldAccess

/-- The statement that pushes one value, if it is there. -/
def singlePush (leaf : FieldAccess) : Document :=
  [⟨3, "if (request." ++ leaf.optionalChain ++ ") \x7b"⟩,
   ⟨4, "queryParams.push(`" ++ leaf.plainChain ++ "=$\x7bencodeURIComponent(request." ++
     leaf.plainChain ++ ".toString())\x7d`)"⟩,
   ⟨3, "\x7d"⟩]

def elementPush (leaf : FieldAccess) : Document :=
  [⟨3, "if (request." ++ leaf.optionalChain ++ ") \x7b"⟩,
   ⟨4, "request." ++ leaf.plainChain ++ ".forEach((x) => \x7b"⟩,
   ⟨5, "queryParams.push(`" ++ leaf.plainChain ++ "=$\x7bencodeURIComponent(x.toString())\x7d`)"⟩,
   ⟨4, "\x7d)"⟩,
   ⟨3, "\x7d"⟩]

/-- The statement for a leaf: element by element if the leaf is repeated. -/
def push (leaf : FieldAccess) : Document :=
  if leaf.fields.getLast?.map (·.cardinality) = some .repeated then leaf.elementPush
  else leaf.singlePush

theorem isList_iff {leaf : FieldAccess} :
    leaf.isList = true ↔ leaf.fields.getLast?.map (·.cardinality) = some .repeated := by
  rw [isList]
  cases leaf.fields.getLast? <;> simp

theorem renderQuery_eq_push (leaf : FieldAccess) : ClientFunction.renderQuery leaf = leaf.push := by
  rw [push, ClientFunction.renderQuery]
  by_cases list : leaf.isList = true
  · rw [if_pos list, if_pos (isList_iff.mp list)]
    rfl
  · rw [if_neg list, if_neg (mt isList_iff.mpr list)]
    rfl

end FieldAccess

/-- Each statement for a leaf has exactly one line that pushes. -/
theorem FieldAccess.length_filter_push (leaf : FieldAccess) :
    (leaf.push.filter Line.isPush).length = 1 := by
  rw [push]
  split
  · simp [elementPush, Line.isPush, List.isPrefixOf]
  · simp [singlePush, Line.isPush, List.isPrefixOf]

namespace ClientFunction

def beforeQuery (function : ClientFunction) : Document :=
  [⟨2, function.method ++
    "(request) \x7b // eslint-disable-line @typescript-eslint/no-unused-vars"⟩] ++
  function.captures.flatMap renderGuard ++
  [⟨3, "const path = `" ++ function.pathText ++ "`; // eslint-disable-line quotes"⟩,
   ⟨3, "const body = " ++ function.payload.render ++ ";"⟩,
   ⟨3, "const queryParams: string[] = [];"⟩]

def afterQuery (function : ClientFunction) : Document :=
  [⟨3, "let uri = path;"⟩,
   ⟨3, "if (queryParams.length > 0) \x7b"⟩,
   ⟨4, "uri += `?$\x7bqueryParams.join(\"&\")\x7d`"⟩,
   ⟨3, "\x7d"⟩,
   ⟨3, "return handler(\x7b"⟩,
   ⟨4, "path: uri,"⟩,
   ⟨4, "method: " ++ Text.quote function.verb.name ++ ","⟩,
   ⟨4, "body,"⟩,
   ⟨3, "\x7d, \x7b"⟩,
   ⟨4, "service: " ++ Text.quote function.service ++ ","⟩,
   ⟨4, "method: " ++ Text.quote function.method ++ ","⟩,
   ⟨3, "\x7d) as Promise<" ++ function.output ++ ">;"⟩,
   ⟨2, "\x7d,"⟩]

theorem render_eq (function : ClientFunction) :
    function.render =
      function.beforeQuery ++ function.query.flatMap FieldAccess.push ++ function.afterQuery := by
  have pushes : function.query.flatMap renderQuery = function.query.flatMap FieldAccess.push :=
    List.flatMap_congr fun leaf _ => leaf.renderQuery_eq_push
  rw [render, pushes, beforeQuery, afterQuery]

theorem getLast?_beforeQuery (function : ClientFunction) :
    function.beforeQuery.getLast? = some ⟨3, "const queryParams: string[] = [];"⟩ := by
  rw [beforeQuery, List.getLast?_append_of_ne_nil _ (by simp)]
  rfl

theorem filter_beforeQuery (function : ClientFunction) :
    function.beforeQuery.filter Line.isPush = [] := by
  have guards : (function.captures.flatMap renderGuard).filter Line.isPush = [] := by
    rw [List.filter_flatMap, List.flatMap_eq_nil_iff]
    intro access _
    simp [renderGuard, Line.isPush, List.isPrefixOf]
  simp [beforeQuery, guards, Line.isPush]

theorem filter_afterQuery (function : ClientFunction) :
    function.afterQuery.filter Line.isPush = [] := by
  simp [afterQuery, Line.isPush, List.isPrefixOf]

/-- A leaf in the query has its statement in the code. -/
theorem push_infix_render {function : ClientFunction} {leaf : FieldAccess}
    (listed : leaf ∈ function.query) : leaf.push <:+: function.render := by
  obtain ⟨front, back, split⟩ := List.append_of_mem listed
  rw [render_eq, split]
  exact ⟨function.beforeQuery ++ front.flatMap FieldAccess.push,
    back.flatMap FieldAccess.push ++ function.afterQuery, by simp⟩

end ClientFunction

def sentPaths (template : Template) (body : BodySelector) : List FieldPath :=
  template.capturePaths ++ body.path?.toList

namespace Schema

/-- The leaves of a request that are neither in nor below a field that is sent elsewhere. -/
def unsentLeaves (schema : Schema) (input : Message) (sent : List FieldPath) :
    List FieldAccess :=
  (schema.queryLeaves input).filter fun leaf =>
    decide (∀ path ∈ sent, ¬path.names <+: leaf.path.names)

theorem mem_unsentLeaves {schema : Schema} {input : Message} {sent : List FieldPath}
    {leaf : FieldAccess} :
    leaf ∈ schema.unsentLeaves input sent ↔
      leaf ∈ schema.queryLeaves input ∧ ∀ path ∈ sent, ¬path.names <+: leaf.path.names := by
  rw [unsentLeaves, List.mem_filter, decide_eq_true_eq]

end Schema

/-- What is sent in the query is a leaf of the request. -/
theorem MethodPlan.mem_queryLeaves_of_mem_query {plan : MethodPlan} {schema : Schema}
    {leaf : FieldAccess} (listed : leaf ∈ plan.query schema) :
    leaf ∈ schema.queryLeaves plan.input := by
  rw [query] at listed
  split at listed
  · cases listed
  · exact (List.mem_filter.mp listed).1

namespace MethodPlan.Realizes

variable {plan : MethodPlan} {schema : Schema} {template : Template} {body : BodySelector}

theorem payload_eq_request_iff (realizes : plan.Realizes schema template body) :
    plan.payload = .request ↔ body = .whole := by
  rcases realizes.payload_cases with
    ⟨rfl, payload⟩ | ⟨rfl, payload⟩ | ⟨path, access, rfl, payload, -⟩ <;> simp [payload]

/-- Apart from the whole request, a leaf is sent if it lies in or below a field of the path or the
body. -/
theorem sends_iff (realizes : plan.Realizes schema template body) (part : body ≠ .whole)
    (leaf : FieldAccess) :
    plan.sends leaf = true ↔
      ∃ path ∈ sentPaths template body, path.names <+: leaf.path.names := by
  have inPath : plan.captures.any (fun access => leaf.path.startsWith access.path) = true ↔
      ∃ path ∈ template.capturePaths, path.names <+: leaf.path.names := by
    rw [← realizes.map_path_captures]
    simp [FieldPath.startsWith]
  rw [sends, Bool.or_eq_true, inPath]
  rcases realizes.payload_cases with
    ⟨rfl, payload⟩ | ⟨rfl, payload⟩ | ⟨path, access, rfl, payload, resolved⟩
  · simp [payload, sentPaths, BodySelector.path?]
  · exact absurd rfl part
  · obtain ⟨rfl, -⟩ := Schema.path_of_resolve resolved
    simp [payload, sentPaths, BodySelector.path?, FieldPath.startsWith, or_and_right, exists_or]

/-- The query holds the leaves that nothing else sends, in their order. -/
theorem query_eq (realizes : plan.Realizes schema template body) (part : body ≠ .whole) :
    plan.query schema = schema.unsentLeaves plan.input (sentPaths template body) := by
  rw [query, if_neg (mt (payload_eq_request_iff realizes).mp part), Schema.unsentLeaves]
  refine List.filter_congr fun leaf _ => ?_
  rw [Bool.eq_iff_iff, Bool.not_eq_true', ← Bool.not_eq_true, sends_iff realizes part leaf,
    decide_eq_true_eq, not_exists]
  exact forall_congr' fun path => not_and

end MethodPlan.Realizes

namespace Viewpoint

/-- The path, the body and the query of a client function share the request: the function pushes
nothing if the body is the whole request, and otherwise it pushes exactly the leaves that are
neither in nor below a field of the path or the body, each of them once and in their order. -/
theorem query_of_plans (view : Viewpoint) (session : Session) (service : Service) :
    List.Forall₂ (fun plan function =>
      ∃ binding template body, plan.method ∈ service.methods ∧
        plan.method.binding = some binding ∧
        Template.parse binding.path = .ok template ∧
        BodySelector.parse binding.body = .ok body ∧
        view.schema.message? plan.method.input = some plan.input ∧
        (body = .whole → function.render.filter Line.isPush = []) ∧
        (body ≠ .whole → ∃ before after,
          function.render = before ++
            (view.schema.unsentLeaves plan.input (sentPaths template body)).flatMap
              FieldAccess.push ++ after ∧
          before.getLast? = some ⟨3, "const queryParams: string[] = [];"⟩ ∧
          after.head? = some ⟨3, "let uri = path;"⟩ ∧
          before.filter Line.isPush = [] ∧ after.filter Line.isPush = []) ∧
        ∀ leaf ∈ view.schema.queryLeaves plan.input,
          (leaf.push.filter Line.isPush).length = 1 ∧
          (body = .whole ∨ (∃ path ∈ sentPaths template body, path.names <+: leaf.path.names) ∨
            leaf.push <:+: function.render))
      (service.plans view.schema) (view.serviceCode session service).1.factory.functions := by
  refine view.forall₂_functions_of_plans session service fun plan planned output => ?_
  obtain ⟨binding, template, body, isMethod, bound, path, selector, found, realizes⟩ :=
    Service.realizes_of_mem_plans planned
  have code := (plan.functionFor view.schema service output).render_eq
  set function := plan.functionFor view.schema service output
  have query : function.query = plan.query view.schema := rfl
  refine ⟨binding, template, body, isMethod, bound, path, selector, found, ?_, ?_, ?_⟩
  · intro whole
    have nothing : function.query = [] := by
      rw [query, MethodPlan.query, if_pos (realizes.payload_eq_request_iff.mpr whole)]
    simp [code, nothing, function.filter_beforeQuery, function.filter_afterQuery]
  · intro part
    rw [query, realizes.query_eq part] at code
    exact ⟨function.beforeQuery, function.afterQuery, code, function.getLast?_beforeQuery, rfl,
      function.filter_beforeQuery, function.filter_afterQuery⟩
  · intro leaf listed
    refine ⟨leaf.length_filter_push, ?_⟩
    by_cases whole : body = .whole
    · exact Or.inl whole
    · by_cases sent : ∃ path ∈ sentPaths template body, path.names <+: leaf.path.names
      · exact Or.inr (Or.inl sent)
      · refine Or.inr (Or.inr (ClientFunction.push_infix_render ?_))
        rw [query, realizes.query_eq whole, Schema.mem_unsentLeaves]
        exact ⟨listed, fun path isSent covers => sent ⟨path, isSent, covers⟩⟩

end Viewpoint

end HttpClientGen
