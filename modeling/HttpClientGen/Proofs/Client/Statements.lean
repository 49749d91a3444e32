import HttpClientGen.Proofs.Client.Query
import HttpClientGen.Proofs.Script.Reading

/-!
# The statements of generated code

The lines of a client function up to its use of the path are read as statements again, provided that
the names of its fields are names in JavaScript and that its path has no character with a meaning of
its own in a template literal. The statements are those that the fields of the function call for.
-/

namespace HttpClientGen

open Script

/-- The characters of a text that means itself in a template literal. -/
def charPieces (text : String) : List Piece :=
  text.toList.map .char

namespace FieldAccess

def missing (access : FieldAccess) : String :=
  "missing required field request." ++ access.path.toString

def guardStatement (access : FieldAccess) : Statement :=
  .throwUnless (.guarded access.jsonNames) access.missing

/-- The pair of the field's name in the query and the value of a chain. -/
def pair (leaf : FieldAccess) (chain : Chain) : List Piece :=
  charPieces (leaf.plainChain ++ "=") ++ [.encoded chain]

def pushStatement (leaf : FieldAccess) : Statement :=
  if leaf.isList then
    .pushEachIf (.guarded leaf.jsonNames) (.plain leaf.jsonNames) (leaf.pair ⟨"x", []⟩)
  else .pushIf (.guarded leaf.jsonNames) (leaf.pair (.plain leaf.jsonNames))

/-- The field is reached by names of JavaScript. -/
structure Named (access : FieldAccess) : Prop where
  nonempty : access.jsonNames ≠ []
  names : ∀ name ∈ access.jsonNames, IsName name

end FieldAccess

def PathPart.pieces : PathPart → List Piece
  | text fixed => charPieces fixed
  | value access => [.value (.plain access.jsonNames)]

def Payload.expression : Payload → Body
  | nothing => .null
  | request => .stringify ⟨"request", []⟩
  | field access => .stringifyOrEmpty (.lenient access.jsonNames)

def Payload.access? : Payload → Option FieldAccess
  | field access => some access
  | _ => none

namespace ClientFunction

/-- The fields of the request that the function reads. -/
def accesses (function : ClientFunction) : List FieldAccess :=
  function.captures ++ function.payload.access?.toList ++ function.query

def statements (function : ClientFunction) : List Statement :=
  function.captures.map FieldAccess.guardStatement ++
    [.path (function.path.flatMap PathPart.pieces), .body function.payload.expression, .query] ++
    function.query.map FieldAccess.pushStatement

/-- The lines behind the head of the function and in front of its use of the path. -/
def preparation (function : ClientFunction) : Document :=
  function.beforeQuery.tail ++ function.query.flatMap FieldAccess.push

end ClientFunction

/-- A part of the path means itself if it is a text, and else its field is reached by names. -/
def PathPart.Plain : PathPart → Prop
  | text fixed => ∀ c ∈ fixed.toList, c ∉ ['\x60', '\\', '{']
  | value access => access.Named

section Texts

theorem flatMap_text_charPieces (text : String) :
    (charPieces text).flatMap Piece.text = text.toList := by
  simp [charPieces, List.flatMap_map]

theorem plain_charPieces {text : String} (plain : ∀ c ∈ text.toList, c ∉ ['\x60', '\\', '{']) :
    ∀ piece ∈ charPieces text, piece.Plain := by
  intro piece listed
  obtain ⟨c, mem, rfl⟩ := List.mem_map.mp listed
  exact plain c mem

theorem PathPart.text_pieces {part : PathPart} (plain : part.Plain) :
    part.pieces.flatMap Piece.text = part.render.toList := by
  cases part with
  | text fixed => exact flatMap_text_charPieces fixed
  | value access =>
    have named : access.Named := plain
    simp [pieces, render, Chain.text_plain named.nonempty, FieldAccess.plainChain]

theorem PathPart.plain_pieces {part : PathPart} (plain : part.Plain) :
    ∀ piece ∈ part.pieces, piece.Plain := by
  cases part with
  | text fixed => exact plain_charPieces plain
  | value access =>
    have named : access.Named := plain
    intro piece listed
    obtain rfl := List.mem_singleton.mp listed
    exact Chain.named_plain named.names

theorem ClientFunction.text_path {function : ClientFunction}
    (plain : ∀ part ∈ function.path, part.Plain) :
    (function.path.flatMap PathPart.pieces).flatMap Piece.text = function.pathText.toList := by
  rw [pathText, String.toList_join, List.flatMap_assoc, List.flatMap_map]
  exact List.flatMap_congr fun part listed => PathPart.text_pieces (plain part listed)

theorem Payload.text_expression {payload : Payload}
    (named : ∀ access ∈ payload.access?, access.Named) :
    payload.expression.text = payload.render.toList := by
  cases payload with
  | nothing => rfl
  | request =>
    have text : (Body.stringify ⟨"request", []⟩).text =
        "JSON.stringify(".toList ++ ((Chain.mk "request" []).text ++ ")".toList) := rfl
    have rendered : Payload.request.render = "JSON.stringify(request)" := rfl
    rw [expression, text, rendered]
    simp [Chain.text]
  | field access =>
    have text : (Body.stringifyOrEmpty (.lenient access.jsonNames)).text =
        "JSON.stringify(".toList ++
          ((Chain.lenient access.jsonNames).text ++ " ?? \x7b\x7d)".toList) := rfl
    have rendered : (Payload.field access).render =
        "JSON.stringify(request?." ++ access.optionalChain ++ " ?? \x7b\x7d)" := rfl
    rw [expression, text, rendered, Chain.text_lenient (named access rfl).nonempty]
    simp [FieldAccess.optionalChain]

theorem Payload.named_expression {payload : Payload}
    (named : ∀ access ∈ payload.access?, access.Named) : payload.expression.Named := by
  cases payload with
  | nothing => trivial
  | request => exact ⟨Chain.isName_request, by simp⟩
  | field access => exact Chain.named_lenient (named access rfl).names

end Texts

section Reading

variable {access leaf : FieldAccess} {lines : Document}

theorem readStatements_guard (named : access.Named) :
    readStatements (ClientFunction.renderGuard access ++ lines) =
      (readStatements lines).map (access.guardStatement :: ·) := by
  have test : readLine ("if (!request." ++ access.optionalChain ++ ") \x7b").toList =
      some (.unless (.guarded access.jsonNames)) := by
    have split : ("if (!request." ++ access.optionalChain ++ ") \x7b").toList =
        "if (!".toList ++ ((Chain.guarded access.jsonNames).text ++ ") \x7b".toList) := by
      simp [Chain.text_guarded named.nonempty, FieldAccess.optionalChain]
    rw [split]
    exact readLine_unless (Chain.named_guarded named.names)
  have thrown : readLine ("throw new Error(" ++ Text.quote access.missing ++ ");").toList =
      some (.throw access.missing) := by
    have split : ("throw new Error(" ++ Text.quote access.missing ++ ");").toList =
        "throw new Error(".toList ++ ((Text.quote access.missing).toList ++ ");".toList) := by
      simp
    rw [split]
    exact readLine_throw access.missing
  calc readStatements (ClientFunction.renderGuard access ++ lines)
      = groupLines (readLine ("if (!request." ++ access.optionalChain ++ ") \x7b").toList ::
          readLine ("throw new Error(" ++ Text.quote access.missing ++ ");").toList ::
          readLine "\x7d".toList :: lines.map fun line => readLine line.text.toList) := rfl
    _ = (readStatements lines).map (access.guardStatement :: ·) := by
      rw [test, thrown, readLine_close]
      rfl

/-- No character of the name in the query has a meaning of its own. -/
theorem FieldAccess.Named.plain_pair (named : leaf.Named) {chain : Chain}
    (chainNamed : chain.Named) : ∀ piece ∈ leaf.pair chain, piece.Plain := by
  refine List.forall_mem_append.mpr ⟨plain_charPieces fun c mem => ?_, ?_⟩
  · have inName : c ∈ (Chain.plain leaf.jsonNames).text ∨ c = '=' := by
      rw [Chain.text_plain named.nonempty, List.mem_append]
      rw [String.toList_append, List.mem_append] at mem
      exact mem.imp Or.inr (by simp)
    rintro special
    simp only [List.mem_cons, List.not_mem_nil, or_false] at special
    have outside := fun {c : Char} => not_mem_text (c := c) (Chain.named_plain named.names)
    rcases special with rfl | rfl | rfl <;> rcases inName with inChain | ⟨⟨⟩⟩ <;>
      exact outside (by decide) (by decide) inChain
  · rintro piece listed
    obtain rfl := List.mem_singleton.mp listed
    exact chainNamed

theorem readLine_pair (named : leaf.Named) {chain : Chain} (chainNamed : chain.Named) :
    readLine ("queryParams.push(`".toList ++ (leaf.plainChain.toList ++
      ("=$\x7bencodeURIComponent(".toList ++ (chain.text ++ ".toString())\x7d`)".toList)))) =
      some (.push (leaf.pair chain)) := by
  have split : leaf.plainChain.toList ++
      ("=$\x7bencodeURIComponent(".toList ++ (chain.text ++ ".toString())\x7d`)".toList)) =
      (leaf.pair chain).flatMap Piece.text ++ "`)".toList := by
    rw [FieldAccess.pair, List.flatMap_append, flatMap_text_charPieces]
    simp
  rw [split]
  exact readLine_push (named.plain_pair chainNamed)

theorem readStatements_push (named : leaf.Named) :
    readStatements (leaf.push ++ lines) = (readStatements lines).map (leaf.pushStatement :: ·) := by
  have test : readLine ("if (request." ++ leaf.optionalChain ++ ") \x7b").toList =
      some (.when (.guarded leaf.jsonNames)) := by
    have split : ("if (request." ++ leaf.optionalChain ++ ") \x7b").toList =
        "if (".toList ++ ((Chain.guarded leaf.jsonNames).text ++ ") \x7b".toList) := by
      simp [Chain.text_guarded named.nonempty, FieldAccess.optionalChain]
    rw [split]
    exact readLine_when (Chain.named_guarded named.names)
  by_cases list : leaf.isList = true
  · have form : leaf.push = leaf.elementPush := if_pos (FieldAccess.isList_iff.mp list)
    have loop : readLine ("request." ++ leaf.plainChain ++ ".forEach((x) => \x7b").toList =
        some (.forEach (.plain leaf.jsonNames)) := by
      have split : ("request." ++ leaf.plainChain ++ ".forEach((x) => \x7b").toList =
          ((Chain.plain leaf.jsonNames).calling "forEach").text ++ "((x) => \x7b".toList := by
        simp [Chain.text_calling, Chain.text_plain named.nonempty, FieldAccess.plainChain]
      rw [split]
      exact readLine_forEach (Chain.named_plain named.names) rfl
    have pushed : readLine ("queryParams.push(`" ++ leaf.plainChain ++
        "=$\x7bencodeURIComponent(x.toString())\x7d`)").toList =
        some (.push (leaf.pair ⟨"x", []⟩)) := by
      rw [← readLine_pair named ⟨by decide, by simp⟩]
      simp [Chain.text]
    calc readStatements (leaf.push ++ lines)
        = readStatements (leaf.elementPush ++ lines) := by rw [form]
      _ = groupLines (readLine ("if (request." ++ leaf.optionalChain ++ ") \x7b").toList ::
            readLine ("request." ++ leaf.plainChain ++ ".forEach((x) => \x7b").toList ::
            readLine ("queryParams.push(`" ++ leaf.plainChain ++
              "=$\x7bencodeURIComponent(x.toString())\x7d`)").toList ::
            readLine "\x7d)".toList :: readLine "\x7d".toList ::
            lines.map fun line => readLine line.text.toList) := rfl
      _ = (readStatements lines).map (leaf.pushStatement :: ·) := by
        rw [test, loop, pushed, readLine_closeEach, readLine_close, FieldAccess.pushStatement,
          if_pos list]
        rfl
  · have form : leaf.push = leaf.singlePush := if_neg (mt FieldAccess.isList_iff.mpr list)
    have pushed : readLine ("queryParams.push(`" ++ leaf.plainChain ++
        "=$\x7bencodeURIComponent(request." ++ leaf.plainChain ++ ".toString())\x7d`)").toList =
        some (.push (leaf.pair (.plain leaf.jsonNames))) := by
      rw [← readLine_pair named (Chain.named_plain named.names)]
      simp [Chain.text_plain named.nonempty, FieldAccess.plainChain]
    calc readStatements (leaf.push ++ lines)
        = readStatements (leaf.singlePush ++ lines) := by rw [form]
      _ = groupLines (readLine ("if (request." ++ leaf.optionalChain ++ ") \x7b").toList ::
            readLine ("queryParams.push(`" ++ leaf.plainChain ++
              "=$\x7bencodeURIComponent(request." ++ leaf.plainChain ++
              ".toString())\x7d`)").toList ::
            readLine "\x7d".toList :: lines.map fun line => readLine line.text.toList) := rfl
      _ = (readStatements lines).map (leaf.pushStatement :: ·) := by
        rw [test, pushed, readLine_close, FieldAccess.pushStatement, if_neg list]
        rfl

/-- Lines that are read one group after the other. -/
theorem readStatements_flatMap {α : Type} {xs : List α} {render : α → Document}
    {meaning : α → Statement} (lines : Document)
    (each : ∀ x ∈ xs, ∀ lines, readStatements (render x ++ lines) =
      (readStatements lines).map (meaning x :: ·)) :
    readStatements (xs.flatMap render ++ lines) =
      (readStatements lines).map (xs.map meaning ++ ·) := by
  induction xs with
  | nil => simp
  | cons x xs ih =>
    rw [List.forall_mem_cons] at each
    rw [List.flatMap_cons, List.append_assoc, each.1, ih each.2, Option.map_map]
    rfl

namespace ClientFunction

variable {function : ClientFunction}

/-- Only names of JavaScript and texts that mean themselves are written into the code. -/
structure Readable (function : ClientFunction) : Prop where
  named : ∀ access ∈ function.accesses, access.Named
  plain : ∀ part ∈ function.path, part.Plain

theorem readStatements_middle (readable : function.Readable) :
    readStatements
      (⟨3, "const path = `" ++ function.pathText ++ "`; // eslint-disable-line quotes"⟩ ::
        ⟨3, "const body = " ++ function.payload.render ++ ";"⟩ ::
        ⟨3, "const queryParams: string[] = [];"⟩ :: lines) =
      (readStatements lines).map fun later =>
        .path (function.path.flatMap PathPart.pieces) :: .body function.payload.expression ::
          .query :: later := by
  have inPayload : ∀ access ∈ function.payload.access?, access.Named := fun access mem =>
    readable.named access (by simp [accesses, Option.mem_def.mp mem])
  have path : readLine ("const path = `" ++ function.pathText ++
      "`; // eslint-disable-line quotes").toList =
      some (.path (function.path.flatMap PathPart.pieces)) := by
    rw [String.toList_append, String.toList_append, List.append_assoc, ← text_path readable.plain]
    refine readLine_path fun piece listed => ?_
    obtain ⟨part, inPath, listed⟩ := List.mem_flatMap.mp listed
    exact PathPart.plain_pieces (readable.plain part inPath) piece listed
  have body : readLine ("const body = " ++ function.payload.render ++ ";").toList =
      some (.body function.payload.expression) := by
    rw [String.toList_append, String.toList_append, List.append_assoc,
      ← Payload.text_expression inPayload]
    exact readLine_body (Payload.named_expression inPayload)
  have forms : readStatements
      (⟨3, "const path = `" ++ function.pathText ++ "`; // eslint-disable-line quotes"⟩ ::
        ⟨3, "const body = " ++ function.payload.render ++ ";"⟩ ::
        ⟨3, "const queryParams: string[] = [];"⟩ :: lines) =
      groupLines (some (.path (function.path.flatMap PathPart.pieces)) ::
        some (.body function.payload.expression) :: some .query ::
        lines.map fun line => readLine line.text.toList) := by
    rw [← path, ← body, ← readLine_query]
    rfl
  rw [forms, readStatements]
  generalize lines.map (fun line => readLine line.text.toList) = later
  rw [groupLines, groupLines, groupLines]
  cases groupLines later <;> rfl

/-- The code of a client function is read as its statements. -/
theorem readStatements_preparation (readable : function.Readable) :
    readStatements function.preparation = some function.statements := by
  have guards : ∀ access ∈ function.captures, ∀ lines,
      readStatements (renderGuard access ++ lines) =
        (readStatements lines).map (access.guardStatement :: ·) := fun access listed lines =>
    readStatements_guard (readable.named access (by simp [accesses, listed]))
  have pushes : ∀ leaf ∈ function.query, ∀ lines,
      readStatements (leaf.push ++ lines) = (readStatements lines).map (leaf.pushStatement :: ·) :=
    fun leaf listed lines => readStatements_push (readable.named leaf (by simp [accesses, listed]))
  have nothing : readStatements [] = some [] := rfl
  have split : function.preparation = function.captures.flatMap renderGuard ++
      (⟨3, "const path = `" ++ function.pathText ++ "`; // eslint-disable-line quotes"⟩ ::
        ⟨3, "const body = " ++ function.payload.render ++ ";"⟩ ::
        ⟨3, "const queryParams: string[] = [];"⟩ ::
        (function.query.flatMap FieldAccess.push ++ [])) := by
    simp [preparation, beforeQuery]
  rw [split, readStatements_flatMap _ guards, readStatements_middle readable,
    readStatements_flatMap _ pushes, nothing]
  simp [statements]

theorem exists_render_eq_preparation (function : ClientFunction) :
    ∃ opening rest, function.render =
      opening :: (function.preparation ++ ⟨3, "let uri = path;"⟩ :: rest) :=
  ⟨⟨2, function.method ++
      "(request) \x7b // eslint-disable-line @typescript-eslint/no-unused-vars"⟩,
    function.afterQuery.tail, by simp [render_eq, preparation, beforeQuery, afterQuery]⟩

end ClientFunction

end Reading

end HttpClientGen
