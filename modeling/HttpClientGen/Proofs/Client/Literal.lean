import HttpClientGen.Proofs.Client.Safety
import HttpClientGen.Proofs.Script.Evaluation

/-!
# What the path evaluates to

The path of a client function is a template literal. If the fields in it have names of JavaScript,
the only holes of the literal are those of its fields. It evaluates to the path of the binding, with
the values of the fields in the places of the variables, if and only if the fixed texts of the path
have no backtick, no backslash and no carriage return: nothing is escaped there.
-/

namespace HttpClientGen

open Script

/-- A part of the path without an opening brace, or a field that is reached by names. -/
def PathPart.Clean : PathPart → Prop
  | text fixed => '{' ∉ fixed.toList
  | value access => access.Named

section Paths

theorem noHole_text {text : String} {pieces : List Piece} (nonempty : text.toList ≠ []) :
    NoHole (charPieces text ++ pieces) := by
  obtain ⟨c, cs, chars⟩ := List.exists_cons_of_ne_nil nonempty
  intro chain
  simp [charPieces, chars]

theorem spaced_chars {cs : List Char} {pieces : List Piece} (clean : '{' ∉ cs)
    (noHole : NoHole pieces) (spaced : Spaced pieces) : Spaced (cs.map .char ++ pieces) := by
  induction cs with
  | nil => exact spaced
  | cons c cs ih =>
    obtain ⟨other, clean'⟩ : '{' ≠ c ∧ '{' ∉ cs := by simpa using clean
    refine ⟨other.symm, fun _ => ?_, ih clean'⟩
    cases cs with
    | nil => exact noHole
    | cons d cs => simp [NoHole]

/-- Every field of a path stands behind a slash. -/
theorem spaced_pathOf {parts : List PathPart} {verb : Option String}
    (clean : ∀ part ∈ pathOf parts verb, part.Clean) :
    NoHole ((pathOf parts verb).flatMap PathPart.pieces) ∧
      Spaced ((pathOf parts verb).flatMap PathPart.pieces) := by
  induction parts with
  | nil =>
    cases verb with
    | none => exact ⟨by simp [NoHole, pathOf], trivial⟩
    | some verb =>
      have only : (pathOf [] (some verb)).flatMap PathPart.pieces = charPieces (":" ++ verb) ++ [] :=
        rfl
      have colon : PathPart.Clean (.text (":" ++ verb)) := clean _ (by simp [pathOf])
      rw [only]
      exact ⟨noHole_text (by simp), spaced_chars colon (by simp [NoHole]) trivial⟩
  | cons part parts ih =>
    have split : pathOf (part :: parts) verb = .text "/" :: part :: pathOf parts verb := rfl
    rw [split] at clean ⊢
    simp only [List.forall_mem_cons] at clean
    obtain ⟨noHole, spaced⟩ := ih clean.2.2
    have slash (pieces : List Piece) : PathPart.pieces (.text "/") ++ pieces = .char '/' :: pieces :=
      rfl
    rw [List.flatMap_cons, List.flatMap_cons, slash]
    refine ⟨by simp [NoHole], by decide, by simp, ?_⟩
    cases part with
    | text fixed => exact spaced_chars clean.2.1 noHole spaced
    | value access =>
      have named : access.Named := clean.2.1
      exact ⟨Chain.named_plain named.names, spaced⟩

end Paths

namespace PathPiece

/-- The piece when the value of the field is known. -/
def filled (values : Chain → String) : PathPiece → String
  | fixed text => text
  | capture _ _ access => values (.plain access.jsonNames)

/-- A fixed text that means itself in a template literal. -/
def Verbatim : PathPiece → Prop
  | fixed text => ∀ c ∈ text.toList, c ∉ ['\x60', '\\', '\r']
  | capture _ _ _ => True

/-- The field of a variable is reached by names of JavaScript. -/
def Reached (piece : PathPiece) : Prop :=
  ∀ access ∈ piece.access?, ∀ name ∈ access.jsonNames, IsName name

variable {schema : Schema} {input : Message} {piece : PathPiece} {pieces : List PathPiece}

@[simp] theorem part_eq_text_iff {text : String} : piece.part = .text text ↔ piece = fixed text := by
  cases piece <;> simp [part]

@[simp] theorem part_eq_value_iff {access : FieldAccess} :
    piece.part = .value access ↔ ∃ path pattern, piece = capture path pattern access := by
  cases piece <;> simp [part]

theorem named_of_leads {path : FieldPath} {pattern : Option String} {access : FieldAccess}
    (leads : (capture path pattern access).Leads schema input)
    (reached : (capture path pattern access).Reached) : access.Named := by
  obtain ⟨-, nonempty⟩ := Schema.path_of_resolve leads.2
  exact ⟨by simpa [FieldAccess.jsonNames] using nonempty, reached access rfl⟩

theorem text_pieces (leads : piece.Leads schema input) (reached : piece.Reached) :
    piece.part.pieces.flatMap Piece.text = piece.emitted.toList := by
  cases piece with
  | fixed text => exact flatMap_text_charPieces text
  | capture path pattern access =>
    have named := named_of_leads leads reached
    have plain : (PathPart.value access).Plain := named
    exact PathPart.text_pieces plain

theorem filled_pieces (values : Chain → String) (piece : PathPiece) :
    piece.part.pieces.flatMap (Piece.filled values) = (piece.filled values).toList := by
  cases piece with
  | fixed text => simp [part, PathPart.pieces, charPieces, List.flatMap_map, Piece.filled, filled]
  | capture path pattern access => simp [part, PathPart.pieces, Piece.filled, filled]

theorem verbatim_pieces_iff :
    Script.Verbatim (pieces.flatMap (·.part.pieces)) ↔ ∀ piece ∈ pieces, piece.Verbatim := by
  constructor
  · intro verbatim piece listed
    cases piece with
    | fixed text =>
      intro c mem
      refine verbatim c (List.mem_flatMap.mpr ⟨_, listed, ?_⟩)
      exact List.mem_map_of_mem mem
    | capture path pattern access => trivial
  · intro verbatim c listed
    obtain ⟨piece, inPath, listed⟩ := List.mem_flatMap.mp listed
    cases piece with
    | fixed text =>
      obtain ⟨d, mem, ⟨⟩⟩ := List.mem_map.mp listed
      exact verbatim _ inPath c mem
    | capture path pattern access => cases List.mem_singleton.mp listed

theorem clean_part (leads : piece.Leads schema input) (reached : piece.Reached) :
    piece.part.Clean := by
  cases piece with
  | fixed text => exact fun mem => leads '{' mem (by simp)
  | capture path pattern access => exact named_of_leads leads reached

/-- The text of a piece has no opening brace but that of its hole, if it is a variable. -/
theorem exists_block (leads : piece.Leads schema input) (reached : piece.Reached) :
    ∃ opening block, piece.emitted.toList = opening ++ block ∧ '{' ∉ block ∧
      (opening = [] ∨ opening = ['$', '{'] ∧
        ∃ path pattern access, piece = capture path pattern access) := by
  cases piece with
  | fixed text => exact ⟨[], text.toList, rfl, fun mem => leads '{' mem (by simp), Or.inl rfl⟩
  | capture path pattern access =>
    have named := named_of_leads leads reached
    have outside := not_mem_text (Chain.named_plain named.names) (c := '{') (by decide) (by decide)
    refine ⟨['$', '{'], (Chain.plain access.jsonNames).text ++ ['}'], ?_, by simp [outside],
      Or.inr ⟨rfl, path, pattern, access, rfl⟩⟩
    rw [← text_pieces leads reached]
    simp [part, PathPart.pieces]

/-- No path begins in the middle of a hole. -/
theorem head?_emitted (leads : ∀ piece ∈ pieces, piece.Leads schema input)
    (reached : ∀ piece ∈ pieces, piece.Reached) :
    (pieces.flatMap (·.emitted.toList)).head? ≠ some '{' := by
  induction pieces with
  | nil => simp
  | cons piece pieces ih =>
    rw [List.forall_mem_cons] at leads reached
    obtain ⟨opening, block, text, noBrace, isOpening⟩ := exists_block leads.1 reached.1
    rw [List.flatMap_cons, text]
    rcases isOpening with rfl | ⟨rfl, -⟩
    · cases block with
      | nil => exact ih leads.2 reached.2
      | cons c block =>
        intro first
        obtain rfl : c = '{' := by simpa using first
        simp at noBrace
    · simp

/-- A hole behind a text without opening braces. -/
theorem front_of_hole {block rest before after : List Char} (noBrace : '{' ∉ block)
    (outside : rest.head? ≠ some '{') (split : block ++ rest = before ++ '$' :: '{' :: after) :
    ∃ front, before = block ++ front ∧ rest = front ++ '$' :: '{' :: after := by
  rcases List.append_eq_append_iff.mp split with ⟨front, before, rest⟩ | ⟨others, here, rest'⟩
  · exact ⟨front, before, rest⟩
  · cases others with
    | nil => exact ⟨[], by simpa using here.symm, by simpa using rest'.symm⟩
    | cons c others =>
      obtain ⟨-, brace⟩ := List.cons.inj rest'
      cases others with
      | nil =>
        obtain rfl : '{' :: after = rest := brace
        exact absurd rfl outside
      | cons d others =>
        obtain ⟨rfl, -⟩ := List.cons.inj brace
        simp [here] at noBrace

/-- Every hole of the path is that of a variable. -/
theorem exists_capture_of_hole (leads : ∀ piece ∈ pieces, piece.Leads schema input)
    (reached : ∀ piece ∈ pieces, piece.Reached) {before after : List Char}
    (hole : pieces.flatMap (·.emitted.toList) = before ++ '$' :: '{' :: after) :
    ∃ front path pattern access back, pieces = front ++ capture path pattern access :: back ∧
      before = front.flatMap (·.emitted.toList) := by
  induction pieces generalizing before with
  | nil => simp at hole
  | cons piece pieces ih =>
    rw [List.forall_mem_cons] at leads reached
    obtain ⟨opening, block, text, noBrace, isOpening⟩ := exists_block leads.1 reached.1
    have outside := head?_emitted leads.2 reached.2
    rw [List.flatMap_cons, text, List.append_assoc] at hole
    have behind {front : List Char} (later : block ++ pieces.flatMap (·.emitted.toList) =
        front ++ '$' :: '{' :: after) (isFront : before = opening ++ front) :
        ∃ front path pattern access back,
          piece :: pieces = front ++ capture path pattern access :: back ∧
            before = front.flatMap (·.emitted.toList) := by
      obtain ⟨others, rfl, rest⟩ := front_of_hole noBrace outside later
      obtain ⟨front, path, pattern, access, back, rfl, rfl⟩ := ih leads.2 reached.2 rest
      exact ⟨piece :: front, path, pattern, access, back, rfl, by simp [isFront, text]⟩
    rcases isOpening with rfl | ⟨rfl, path, pattern, access, rfl⟩
    · exact behind hole rfl
    · cases before with
      | nil => exact ⟨[], path, pattern, access, pieces, rfl, rfl⟩
      | cons c before =>
        obtain ⟨rfl, brace⟩ := List.cons.inj hole
        cases before with
        | nil => exact absurd (List.cons.inj brace).1 (by decide)
        | cons d before =>
          obtain ⟨rfl, later⟩ := List.cons.inj brace
          exact behind later rfl

/-- What means itself in the path has no character that could end the literal or begin an escape. -/
theorem not_mem_emitted (leads : ∀ piece ∈ pieces, piece.Leads schema input)
    (reached : ∀ piece ∈ pieces, piece.Reached) (verbatim : ∀ piece ∈ pieces, piece.Verbatim) :
    ∀ c ∈ pieces.flatMap (·.emitted.toList), c ∉ ['\x60', '\\'] := by
  intro c mem special
  obtain ⟨piece, listed, mem⟩ := List.mem_flatMap.mp mem
  cases piece with
  | fixed text =>
    refine verbatim _ listed c mem ?_
    simp only [List.mem_cons, List.not_mem_nil, or_false] at special ⊢
    exact special.imp_right Or.inl
  | capture path pattern access =>
    have named := named_of_leads (leads _ listed) (reached _ listed)
    rw [← text_pieces (leads _ listed) (reached _ listed)] at mem
    have inChain : c ∈ ['$', '{', '}'] ∨ c ∈ (Chain.plain access.jsonNames).text := by
      have parts : c = '$' ∨ c = '{' ∨ c ∈ (Chain.plain access.jsonNames).text ∨ c = '}' := by
        simpa [part, PathPart.pieces] using mem
      simp only [List.mem_cons, List.not_mem_nil, or_false]
      tauto
    have outside := fun {c : Char} => not_mem_text (c := c) (Chain.named_plain named.names)
    simp only [List.mem_cons, List.not_mem_nil, or_false] at special
    rcases special with rfl | rfl <;> rcases inChain with frame | inChain
    · simp at frame
    · exact outside (by decide) (by decide) inChain
    · simp at frame
    · exact outside (by decide) (by decide) inChain

/-- The literal for some pieces of a path, with what follows it on its line. -/
theorem evalTemplate_join_iff {parts : List PathPart} {verb : Option String}
    (leads : ∀ piece ∈ pieces, piece.Leads schema input)
    (areParts : pieces.map part = pathOf parts verb) (reached : ∀ piece ∈ pieces, piece.Reached)
    (values : Chain → String) (rest : List Char) :
    evalTemplate values ((String.join (pieces.map emitted)).toList ++ '\x60' :: rest) =
        some ((String.join (pieces.map (filled values))).toList, rest) ↔
      ∀ piece ∈ pieces, piece.Verbatim := by
  have text : (String.join (pieces.map emitted)).toList =
      (pieces.flatMap (·.part.pieces)).flatMap Piece.text := by
    rw [String.toList_join, List.flatMap_assoc, List.flatMap_map]
    exact List.flatMap_congr fun piece listed =>
      (text_pieces (leads piece listed) (reached piece listed)).symm
  have result : (String.join (pieces.map (filled values))).toList =
      (pieces.flatMap (·.part.pieces)).flatMap (Piece.filled values) := by
    rw [String.toList_join, List.flatMap_assoc, List.flatMap_map]
    exact List.flatMap_congr fun piece _ => (filled_pieces values piece).symm
  have clean : ∀ part ∈ pathOf parts verb, part.Clean := by
    rw [← areParts]
    intro part listed
    obtain ⟨piece, inPath, rfl⟩ := List.mem_map.mp listed
    exact clean_part (leads piece inPath) (reached piece inPath)
  have spaced : Spaced (pieces.flatMap (·.part.pieces)) := by
    have whole := (spaced_pathOf clean).2
    rwa [← areParts, List.flatMap_map] at whole
  rw [text, result, evalTemplate_eq_filled_iff spaced, verbatim_pieces_iff]

/-- How the text of some pieces is evaluated behind a backtick and in front of another. -/
structure Evaluates (pieces : List PathPiece) : Prop where
  /-- Where the text opens a hole, it is the hole of a variable. -/
  holes : ∀ before after,
    (String.join (pieces.map emitted)).toList = before ++ '$' :: '{' :: after →
    ∃ front path pattern access back, pieces = front ++ capture path pattern access :: back ∧
      before = (String.join (front.map emitted)).toList
  /-- Nothing could end the literal or begin an escape, if the fixed texts mean themselves. -/
  unescaped : (∀ piece ∈ pieces, piece.Verbatim) →
    ∀ c ∈ (String.join (pieces.map emitted)).toList, c ∉ ['\x60', '\\']
  /-- The fixed texts come out as they are, with values in the places of the variables, if and only
  if the fixed texts mean themselves. -/
  result : ∀ values rest,
    evalTemplate values ((String.join (pieces.map emitted)).toList ++ '\x60' :: rest) =
        some ((String.join (pieces.map (filled values))).toList, rest) ↔
      ∀ piece ∈ pieces, piece.Verbatim

theorem evaluates_of_reached {parts : List PathPart} {verb : Option String}
    (leads : ∀ piece ∈ pieces, piece.Leads schema input)
    (areParts : pieces.map part = pathOf parts verb) (reached : ∀ piece ∈ pieces, piece.Reached) :
    Evaluates pieces := by
  have text (pieces : List PathPiece) :
      (String.join (pieces.map emitted)).toList = pieces.flatMap (·.emitted.toList) := by
    rw [String.toList_join, List.flatMap_map]
  refine ⟨fun before after hole => ?_, fun verbatim => ?_,
    evalTemplate_join_iff leads areParts reached⟩
  · rw [text] at hole
    obtain ⟨front, path, pattern, access, back, split, isFront⟩ :=
      exists_capture_of_hole leads reached hole
    exact ⟨front, path, pattern, access, back, split, by rw [text, isFront]⟩
  · rw [text]
    exact not_mem_emitted leads reached verbatim

end PathPiece

namespace Viewpoint

/-- The path of a client function evaluates to the path of its binding, with values in the places of
the variables, if and only if the fixed texts of the path mean themselves in a template literal. -/
theorem path_literal_of_plans (view : Viewpoint) (session : Session) (service : Service) :
    List.Forall₂ (fun plan function =>
      ∃ binding, plan.method ∈ service.methods ∧ plan.method.binding = some binding ∧
        view.schema.message? plan.method.input = some plan.input ∧
        ∃ pieces : List PathPiece, (∀ piece ∈ pieces, piece.Leads view.schema plan.input) ∧
          pieces.map PathPiece.part = function.path ∧
          binding.path = String.join (pieces.map PathPiece.written) ∧
          (∃ before after, function.render = before ++
            ⟨3, "const path = `" ++ String.join (pieces.map PathPiece.emitted) ++
              "`; // eslint-disable-line quotes"⟩ :: after) ∧
          ((∀ piece ∈ pieces, piece.Reached) → PathPiece.Evaluates pieces))
      (service.plans view.schema) (view.serviceCode session service).1.factory.functions := by
  refine view.forall₂_functions_of_plans session service fun plan planned output => ?_
  obtain ⟨binding, template, body, isMethod, bound, path, -, found, realizes⟩ :=
    Service.realizes_of_mem_plans planned
  obtain ⟨wellFormed, rendered⟩ := (Template.parse_eq_ok_iff _ _).mp path
  obtain ⟨pieces, leads, written, areParts⟩ := realizes.exists_pieces_of_template wellFormed
  obtain ⟨parts, isPath, -⟩ := realizes.path
  have emitted : (plan.functionFor view.schema service output).pathText =
      String.join (pieces.map PathPiece.emitted) := by
    rw [ClientFunction.pathText, MethodPlan.functionFor, ← areParts, List.map_map]
    exact congrArg String.join (List.map_congr_left fun piece _ => piece.render_part)
  refine ⟨binding, isMethod, bound, found, pieces, leads, areParts, by rw [written, rendered], ?_,
    PathPiece.evaluates_of_reached leads (areParts.trans isPath)⟩
  rw [← emitted, ClientFunction.render]
  simp only [List.append_assoc, List.cons_append, List.nil_append]
  exact ⟨_ :: _, _, rfl⟩

end Viewpoint

/-- Whatever the name of the book is, it stands between the fixed texts of the path. -/
theorem path_literal_getPages :
    ∃ function ∈ ((Viewpoint.mk pagesSchema "library").serviceCode {}
        pagesService).1.factory.functions,
      ∃ pieces : List PathPiece, pieces.map PathPiece.part = function.path ∧
        (∀ piece ∈ pieces, piece.Reached ∧ piece.Verbatim) ∧
        ∀ name : String, evalTemplate (fun _ => name)
            ((String.join (pieces.map PathPiece.emitted)).toList ++ ['\x60']) =
          some (("/v1/" ++ name ++ "/pages").toList, []) := by
  let view : Viewpoint := ⟨pagesSchema, "library"⟩
  have plans : pagesService.plans view.schema = [pagesPlan] := by decide
  have all := view.path_literal_of_plans {} pagesService
  obtain ⟨output, functions⟩ := view.exists_functions_eq {} plans
  rw [plans, functions] at all
  rw [functions]
  obtain ⟨binding, -, -, -, pieces, -, areParts, -, -, evaluates⟩ := (List.forall₂_cons.mp all).1
  have form : ∃ path pattern, pieces = [.fixed "/", .fixed "v1", .fixed "/",
      .capture path pattern ⟨[bookName]⟩, .fixed "/", .fixed "pages"] := by
    have parts : pieces.map PathPiece.part = pagesPlan.path := areParts
    simpa [pagesPlan, List.map_eq_cons_iff] using parts
  obtain ⟨path, pattern, rfl⟩ := form
  have name : IsName "bookName" := by decide
  have reached : ∀ piece ∈ [.fixed "/", .fixed "v1", .fixed "/",
      .capture path pattern ⟨[bookName]⟩, .fixed "/", .fixed "pages"], PathPiece.Reached piece := by
    simp [PathPiece.Reached, PathPiece.access?, FieldAccess.jsonNames, bookName, name]
  have verbatim : ∀ piece ∈ [.fixed "/", .fixed "v1", .fixed "/",
      .capture path pattern ⟨[bookName]⟩, .fixed "/", .fixed "pages"], PathPiece.Verbatim piece := by
    simp [PathPiece.Verbatim]
  refine ⟨_, List.mem_cons_self, _, areParts,
    fun piece listed => ⟨reached piece listed, verbatim piece listed⟩, fun name => ?_⟩
  have result := ((evaluates reached).result (fun _ => name) []).mpr verbatim
  simpa [PathPiece.filled] using result

/-- A method with a backtick in its path. -/
def getTick : Method where
  name := "GetTick"
  input := "library.PagesRequest"
  output := "library.PagesRequest"
  binding := some ⟨"get", "/v1/a`b", ""⟩

def tickService : Service where
  declared := ⟨"library", "Ticks"⟩
  methods := [getTick]

def tickPlan : MethodPlan where
  method := getTick
  input := pagesRequest
  verb := .get
  path := [.text "/", .text "v1", .text "/", .text "a`b"]
  payload := .nothing

/-- The literal for the path ends at the backtick in it, so that it does not evaluate to the path. -/
theorem not_path_literal_getTick :
    ∃ function ∈ ((Viewpoint.mk pagesSchema "library").serviceCode {}
        tickService).1.factory.functions,
      (∃ before after, function.render = before ++
        ⟨3, "const path = `/v1/a`b`; // eslint-disable-line quotes"⟩ :: after) ∧
      ∀ values,
        evalTemplate values "/v1/a`b`; // eslint-disable-line quotes".toList =
          some ("/v1/a".toList, "b`; // eslint-disable-line quotes".toList) ∧
        evalTemplate values "/v1/a`b`; // eslint-disable-line quotes".toList ≠
          some ("/v1/a`b".toList, "; // eslint-disable-line quotes".toList) := by
  let view : Viewpoint := ⟨pagesSchema, "library"⟩
  have plans : tickService.plans view.schema = [tickPlan] := by decide
  obtain ⟨output, functions⟩ := view.exists_functions_eq {} plans
  rw [functions]
  refine ⟨_, List.mem_cons_self, ⟨[_], _, rfl⟩, fun values => ?_⟩
  have spaced : Spaced ("/v1/a".toList.map .char ++ []) :=
    spaced_chars (by decide) (by simp [NoHole]) trivial
  have verbatim : Script.Verbatim ("/v1/a".toList.map .char ++ []) := by simp [Script.Verbatim]
  have ends : evalTemplate values "/v1/a`b`; // eslint-disable-line quotes".toList =
      some ("/v1/a".toList, "b`; // eslint-disable-line quotes".toList) := by
    have result := @evalTemplate_append values _ "b`; // eslint-disable-line quotes".toList spaced
      verbatim
    simpa [Piece.filled] using result
  refine ⟨ends, ?_⟩
  rw [ends]
  decide

end HttpClientGen
