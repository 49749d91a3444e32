import HttpClientGen.Proofs.DocComment
import HttpClientGen.Proofs.Text.Quoted
import HttpClientGen.RecordType

/-!
# Unions are read back

The lines of a union, without its documentation, are a head and one line for each value of the
enumeration. Read as literals these lines are the names of the values in their order, and the last one
closes the union.
-/

namespace HttpClientGen

/-- The lines that are not documentation. A block of documentation goes from a line `/**` to the next
line ` */`; `inside` says whether one is open. -/
def codeLines (inside : Bool) : Document → Document
  | [] => []
  | line :: lines =>
    if inside then codeLines (line.text != " */") lines
    else if line.text = "/**" then codeLines true lines
    else line :: codeLines false lines

theorem codeLines_inside {block : Document} (open' : ∀ line ∈ block, line.text ≠ " */")
    (lines : Document) : codeLines true (block ++ lines) = codeLines true lines := by
  induction block with
  | nil => rfl
  | cons line block ih =>
    rw [List.forall_mem_cons] at open'
    have stays : (line.text != " */") = true := by simpa using open'.1
    rw [List.cons_append, codeLines, if_pos rfl, stays]
    exact ih open'.2

/-- A block of documentation is skipped, whatever it says. -/
theorem codeLines_doc (doc : DocComment) (level : Nat) (lines : Document) :
    codeLines false (doc.render level ++ lines) = codeLines false lines := by
  rw [DocComment.render_eq]
  split
  · rfl
  · have starred : ∀ line ∈ doc.texts.map (fun text =>
        Line.mk level (if text = "" then " *" else " * " ++ text)), line.text ≠ " */" := by
      intro line listed closing
      obtain ⟨text, -, rfl⟩ := List.mem_map.mp listed
      dsimp only at closing
      split at closing
      · exact absurd closing (by decide)
      · have chars := congrArg String.toList closing
        simp at chars
    have skipped : codeLines false (Document.comment level doc.texts ++ lines) =
        codeLines true (doc.texts.map (fun text =>
          Line.mk level (if text = "" then " *" else " * " ++ text)) ++
            (⟨level, " */"⟩ :: lines)) := by
      simp [Document.comment, codeLines]
    rw [skipped, codeLines_inside starred]
    rfl

theorem codeLines_line {line : Line} (code : line.text ≠ "/**") (lines : Document) :
    codeLines false (line :: lines) = line :: codeLines false lines := by
  rw [codeLines, if_neg (by decide), if_neg code]

/-- Reads a member of a union: a bar may stand in front of its literal, and a semicolon behind it
closes the union. -/
def readMember (cs : List Char) : Option (String × Bool) :=
  match (cs.dropPrefix? "| ".toList).getD cs with
  | '"' :: cs =>
    match Script.readString cs with
    | some (text, []) => some (String.ofList text, false)
    | some (text, [';']) => some (String.ofList text, true)
    | _ => none
  | _ => none

namespace UnionType

def memberLine (bar : String) (closes : Bool) (member : UnionMember) : Line :=
  ⟨1, bar ++ Text.quote member.value ++ if closes then ";" else ""⟩

/-- A bar is nothing or a bar and a blank. -/
theorem readMember_memberLine {bar : String} (isBar : bar = "" ∨ bar = "| ") (closes : Bool)
    (member : UnionMember) :
    readMember (memberLine bar closes member).text.toList = some (member.value, closes) := by
  have literal : ((memberLine bar closes member).text.toList.dropPrefix? "| ".toList).getD
      (memberLine bar closes member).text.toList =
        '"' :: (member.value.toList.flatMap Text.escapeChar ++
          '"' :: (if closes then ";" else "").toList) := by
    rcases isBar with rfl | rfl
    · simp [memberLine, Text.toList_quote, List.dropPrefix?]
    · simp [memberLine, Text.toList_quote, List.dropPrefix?]
  rw [readMember, literal]
  simp only [Text.readString_append]
  cases closes <;> simp

theorem code_memberLine {bar : String} (isBar : bar = "" ∨ bar = "| ") (closes : Bool)
    (member : UnionMember) : (memberLine bar closes member).text ≠ "/**" := by
  intro same
  have chars := congrArg String.toList same
  rcases isBar with rfl | rfl <;> simp [memberLine, Text.toList_quote] at chars

theorem codeLines_renderMembers (front : List UnionMember) (last : UnionMember)
    (lines : Document) :
    codeLines false (renderMembers (front ++ [last]) ++ lines) =
      front.map (memberLine "| " false) ++ memberLine "| " true last :: codeLines false lines := by
  have code := fun closes member => code_memberLine (Or.inr rfl) closes member
  induction front with
  | nil =>
    have form : renderMembers ([] ++ [last]) ++ lines =
        last.doc.render 1 ++ memberLine "| " true last :: lines := by
      simp [renderMembers, memberLine]
    rw [form, codeLines_doc, codeLines_line (code _ _)]
    rfl
  | cons member front ih =>
    have form : renderMembers (member :: front ++ [last]) ++ lines =
        member.doc.render 1 ++ memberLine "| " false member ::
          (renderMembers (front ++ [last]) ++ lines) := by
      cases front <;> simp [renderMembers, memberLine]
    rw [form, codeLines_doc, codeLines_line (code _ _), ih]
    rfl

/-- The lines of a union but for its documentation. -/
theorem codeLines_render {type : UnionType} {front : List UnionMember} {last : UnionMember}
    (members : type.members = front ++ [last]) :
    ∃ bar, (bar = "" ∨ bar = "| ") ∧
      codeLines false type.render = ⟨0, "export type " ++ type.name ++ " ="⟩ ::
        (front.map (memberLine bar false) ++ [memberLine bar true last, Line.blank]) := by
  obtain ⟨doc, name, _⟩ := type
  obtain rfl := members
  have head : "export type " ++ name ++ " =" ≠ "/**" := by
    intro same
    have chars := congrArg String.toList same
    simp at chars
  have rest : codeLines false [Line.blank] = [Line.blank] := rfl
  cases front with
  | nil =>
    refine ⟨"", Or.inl rfl, ?_⟩
    have form : render ⟨doc, name, [] ++ [last]⟩ =
        doc.render 0 ++ ⟨0, "export type " ++ name ++ " ="⟩ ::
          (last.doc.render 1 ++ memberLine "" true last :: [Line.blank]) := by
      simp [render, memberLine]
    rw [form, codeLines_doc, codeLines_line head, codeLines_doc,
      codeLines_line (code_memberLine (Or.inl rfl) _ _), rest]
    rfl
  | cons member front =>
    refine ⟨"| ", Or.inr rfl, ?_⟩
    have form : render ⟨doc, name, member :: front ++ [last]⟩ =
        doc.render 0 ++ ⟨0, "export type " ++ name ++ " ="⟩ ::
          (renderMembers (member :: front ++ [last]) ++ [Line.blank]) := by
      cases front <;> simp [render]
    rw [form, codeLines_doc, codeLines_line head, codeLines_renderMembers, rest]

/-- The lines of an enumeration with values are the quoted names of the values in their order. -/
theorem codeLines_ofEnumeration (name : String) {enumeration : Enumeration}
    (nonempty : enumeration.values ≠ []) :
    ∃ (lines : Document) (front : List EnumValue) (last : EnumValue),
      codeLines false (ofEnumeration name enumeration).render =
        ⟨0, "export type " ++ name ++ " ="⟩ :: (lines ++ [Line.blank]) ∧
      enumeration.values = front ++ [last] ∧
      lines.map (fun line => readMember line.text.toList) =
        front.map (fun value => some (value.name, false)) ++ [some (last.name, true)] := by
  obtain ⟨front, last, values⟩ :=
    (List.eq_nil_or_concat' enumeration.values).resolve_left nonempty
  have members : (ofEnumeration name enumeration).members =
      front.map (fun value => ⟨.of value.comments [], value.name⟩) ++
        [⟨.of last.comments [], last.name⟩] := by
    simp [ofEnumeration, values]
  obtain ⟨bar, isBar, code⟩ := codeLines_render members
  refine ⟨front.map (fun value => memberLine bar false ⟨.of value.comments [], value.name⟩) ++
    [memberLine bar true ⟨.of last.comments [], last.name⟩], front, last, ?_, values, ?_⟩
  · rw [code, List.map_map, List.append_assoc]
    rfl
  · simp [readMember_memberLine isBar, Function.comp_def]

/-- Quoting is safe and can be undone, and the lines of a union are the quoted names of the values,
the last of which, and only the last, is followed by a semicolon. -/
theorem quote_and_members_read_back :
    (∀ value : String, ∃ inner, (Text.quote value).toList = '"' :: (inner ++ ['"']) ∧
      (∀ before after, inner = before ++ '"' :: after → Odd (Text.backslashRun before)) ∧
      (∀ c ∈ inner, c ∉ ['\n', '\r']) ∧
      Script.readString (inner ++ ['"']) = some (value.toList, [])) ∧
    Function.Injective Text.quote ∧
    ∀ (name : String) (enumeration : Enumeration), enumeration.values ≠ [] →
      ∃ (lines : Document) (front : List EnumValue) (last : EnumValue),
        codeLines false (ofEnumeration name enumeration).render =
          ⟨0, "export type " ++ name ++ " ="⟩ :: (lines ++ [Line.blank]) ∧
        enumeration.values = front ++ [last] ∧
        lines.map (fun line => readMember line.text.toList) =
          front.map (fun value => some (value.name, false)) ++ [some (last.name, true)] := by
  refine ⟨fun value => ?_, Text.quote_injective, fun name enumeration nonempty => ?_⟩
  · refine ⟨value.toList.flatMap Text.escapeChar, Text.toList_quote value, ?_, ?_,
      Text.readString_append _ _⟩
    · exact fun before after quote => Text.odd_backslashRun_of_quote quote
    · exact fun c mem => Text.lineEnd_not_mem_flatMap _ mem
  · exact codeLines_ofEnumeration name nonempty

/-- Three values, one documented and one that has to be escaped. -/
def shelfKinds : Enumeration where
  declared := ⟨"library", "Shelf.Kind"⟩
  values := [⟨"OPEN", 0, none⟩, ⟨"SAID \"NO\"", 1, none⟩, ⟨"FULL", 2, some " No more books.\n"⟩]

theorem quote_and_members_shelfKinds :
    shelfKinds.values ≠ [] ∧
    ∃ (lines : Document) (front : List EnumValue) (last : EnumValue),
      codeLines false (ofEnumeration "Shelf_Kind" shelfKinds).render =
        ⟨0, "export type Shelf_Kind ="⟩ :: (lines ++ [Line.blank]) ∧
      shelfKinds.values = front ++ [last] ∧
      lines.map (fun line => readMember line.text.toList) =
        front.map (fun value => some (value.name, false)) ++ [some (last.name, true)] :=
  ⟨by decide, quote_and_members_read_back.2.2 "Shelf_Kind" shelfKinds (by decide)⟩

end UnionType

end HttpClientGen
