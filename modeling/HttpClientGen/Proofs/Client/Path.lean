import HttpClientGen.Proofs.Client.Plan
import HttpClientGen.Proofs.Template.RoundTrip

/-!
# What the path is built from

The path of a client function is the path of the binding, character by character, with the fields
of the request in place of the variables. The guards in front of it test the same fields in the same
order. What the literal evaluates to is not a matter of this module.
-/

namespace HttpClientGen

/-- A piece of a binding's path: a fixed text, or a variable and the field to which it leads. -/
inductive PathPiece
  | fixed (text : String)
  | capture (path : FieldPath) (pattern : Option String) (access : FieldAccess)
  deriving DecidableEq, Repr

namespace PathPiece

/-- The piece as it stands in the binding. -/
def written : PathPiece → String
  | fixed text => text
  | capture path none _ => "\x7b" ++ path.toString ++ "\x7d"
  | capture path (some pattern) _ => "\x7b" ++ path.toString ++ "=" ++ pattern ++ "\x7d"

def emitted : PathPiece → String
  | fixed text => text
  | capture _ _ access => "$\x7brequest." ++ ".".intercalate access.jsonNames ++ "\x7d"

def access? : PathPiece → Option FieldAccess
  | fixed _ => none
  | capture _ _ access => some access

def part : PathPiece → PathPart
  | fixed text => .text text
  | capture _ _ access => .value access

theorem render_part (piece : PathPiece) : piece.part.render = piece.emitted := by
  cases piece <;> rfl

/-- A fixed text has no braces, and a variable has none between its own, so that the braces of the
whole text show where its variables are. The path of a variable leads to its field. -/
def Leads (schema : Schema) (input : Message) : PathPiece → Prop
  | fixed text => ∀ c ∈ text.toList, c ∉ ['{', '}']
  | capture path pattern access =>
    (Segment.capture path pattern).WellFormed ∧ schema.resolve input path = .ok access

end PathPiece

namespace Schema

variable {schema : Schema} {input : Message}

/-- A segment and its part of the path are one piece. -/
theorem exists_piece {segment : Segment} {part : PathPart} (wellFormed : segment.WellFormed)
    (resolved : schema.pathPart input segment = .ok part) :
    ∃ piece : PathPiece, piece.Leads schema input ∧ piece.written = segment.render ∧
      piece.part = part := by
  cases segment with
  | literal text =>
    obtain rfl := Except.ok.inj resolved
    refine ⟨.fixed text, fun c mem brace => wellFormed.2 c mem ?_, rfl, rfl⟩
    simp only [List.mem_cons, List.not_mem_nil, or_false] at brace ⊢
    exact Or.inr (Or.inr (brace.imp_right Or.inl))
  | single =>
    obtain rfl := Except.ok.inj resolved
    exact ⟨.fixed "*", by simp [PathPiece.Leads], rfl, rfl⟩
  | multiple =>
    obtain rfl := Except.ok.inj resolved
    exact ⟨.fixed "**", by simp [PathPiece.Leads], rfl, rfl⟩
  | capture path pattern =>
    rw [Schema.pathPart] at resolved
    split at resolved
    · next access found =>
      obtain rfl := Except.ok.inj resolved
      refine ⟨.capture path pattern access, ⟨wellFormed, found⟩, ?_, rfl⟩
      cases pattern <;> rfl
    · cases resolved

/-- The segments of a template and the parts of a path are the same pieces. -/
theorem exists_pieces {segments : List Segment} {parts : List PathPart}
    (wellFormed : ∀ segment ∈ segments, segment.WellFormed)
    (resolved : List.Forall₂ (fun segment part => schema.pathPart input segment = .ok part)
      segments parts) :
    ∃ pieces : List PathPiece, (∀ piece ∈ pieces, piece.Leads schema input) ∧
      pieces.map PathPiece.written = segments.flatMap (fun segment => ["/", segment.render]) ∧
      pieces.map PathPiece.part = pathOf parts none := by
  induction resolved with
  | nil => exact ⟨[], by simp, rfl, rfl⟩
  | @cons segment part segments parts first later ih =>
    rw [List.forall_mem_cons] at wellFormed
    obtain ⟨piece, leads, written, isPart⟩ := exists_piece wellFormed.1 first
    obtain ⟨pieces, allLead, allWritten, areParts⟩ := ih wellFormed.2
    have slash : (PathPiece.fixed "/").Leads schema input := by simp [PathPiece.Leads]
    refine ⟨.fixed "/" :: piece :: pieces, ?_, ?_, ?_⟩
    · exact List.forall_mem_cons.mpr ⟨slash, List.forall_mem_cons.mpr ⟨leads, allLead⟩⟩
    · rw [List.map_cons, List.map_cons, allWritten, written]
      rfl
    · rw [List.map_cons, List.map_cons, areParts, isPart]
      rfl

end Schema

theorem Template.render_eq_join {template : Template} (nonempty : template.segments ≠ []) :
    template.render =
      String.join (template.segments.flatMap fun segment => ["/", segment.render]) ++
        (template.verb.map (":" ++ ·)).getD "" := by
  obtain ⟨segments, verb⟩ := template
  have slashes : "/" ++ "/".intercalate (segments.map Segment.render) =
      String.join (segments.flatMap fun segment => ["/", segment.render]) := by
    induction segments with
    | nil => exact absurd rfl nonempty
    | cons segment segments ih =>
      cases segments with
      | nil => simp
      | cons next others =>
        rw [List.map_cons, List.map_cons, String.intercalate_cons_cons, ← List.map_cons,
          String.append_assoc, ih (by simp)]
        simp
  rw [Template.render, slashes]
  cases verb <;> rfl

namespace MethodPlan.Realizes

variable {plan : MethodPlan} {schema : Schema} {template : Template} {body : BodySelector}

/-- The path of a plan and its template are the same pieces. -/
theorem exists_pieces_of_template (realizes : plan.Realizes schema template body)
    (wellFormed : template.WellFormed) :
    ∃ pieces : List PathPiece, (∀ piece ∈ pieces, piece.Leads schema plan.input) ∧
      String.join (pieces.map PathPiece.written) = template.render ∧
      pieces.map PathPiece.part = plan.path := by
  obtain ⟨parts, path, resolved⟩ := realizes.path
  obtain ⟨pieces, leads, written, areParts⟩ :=
    Schema.exists_pieces wellFormed.segments_wellFormed resolved
  have split : plan.path = pieces.map PathPiece.part ++
      (template.verb.map fun verb => PathPart.text (":" ++ verb)).toList := by
    simp [path, areParts, pathOf]
  rw [split, Template.render_eq_join wellFormed.segments_ne_nil, ← written]
  cases hasVerb : template.verb with
  | none => exact ⟨pieces, leads, by simp, by simp⟩
  | some verb =>
    have clean : (PathPiece.fixed (":" ++ verb)).Leads schema plan.input := by
      intro c mem brace
      obtain ⟨-, clean⟩ := wellFormed.verb_wellFormed verb hasVerb
      have colonOrVerb : c = ':' ∨ c ∈ verb.toList := by simpa using mem
      rcases colonOrVerb with rfl | inVerb
      · simp at brace
      · refine clean c inVerb ?_
        simp only [List.mem_cons, List.not_mem_nil, or_false] at brace ⊢
        exact Or.inr (brace.imp_right Or.inl)
    refine ⟨pieces ++ [.fixed (":" ++ verb)], ?_, by simp [PathPiece.written], ?_⟩
    · exact List.forall_mem_append.mpr ⟨leads, List.forall_mem_singleton.mpr clean⟩
    · rw [List.map_append]
      rfl

end MethodPlan.Realizes

namespace Viewpoint

end Viewpoint

end HttpClientGen
