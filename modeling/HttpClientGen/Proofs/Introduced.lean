import HttpClientGen.PackageFile
import Mathlib.Data.List.Forall2

/-!
# Names in the lines of a document

The lines of a document that introduce a type name, and the names in them. Such a line stands at the
top level and starts with one of a few words; comments, properties, signatures and the code of clients
look different. A record is recognised by the line that opens it, so that the records in a document
can be counted, and their names be told, from the text alone.
-/

namespace HttpClientGen

/-- The words with which a type is introduced. -/
def introducers : List String :=
  ["export type ", "type ", "interface ", "export interface "]

namespace Line

/-- The line opens the declaration of a type at the top level. -/
def introducesType (line : Line) : Bool :=
  line.level == 0 && introducers.any fun words => words.toList.isPrefixOf line.text.toList

/-- The line introduces this type name. -/
def Introduces (line : Line) (name : String) : Prop :=
  ∃ words ∈ introducers, ∃ rest, line = ⟨0, words ++ name ++ " " ++ rest⟩

end Line

/-- A list of lines that introduces one type name. -/
def Document.IntroducesOnly (lines : Document) (name : String) : Prop :=
  ∃ line, lines.filter Line.introducesType = [line] ∧ line.Introduces name

namespace PackageFile

end PackageFile

section Lines

theorem filter_eq_nil_of_level {lines : Document} (deeper : ∀ line ∈ lines, line.level ≠ 0) :
    lines.filter Line.introducesType = [] := by
  refine List.filter_eq_nil_iff.mpr fun line listed => ?_
  simp [Line.introducesType, deeper line listed]

theorem level_comment {level : Nat} {texts : List String} :
    ∀ line ∈ Document.comment level texts, line.level = level := by
  intro line listed
  simp only [Document.comment, List.cons_append, List.mem_cons, List.mem_append, List.mem_map,
    List.not_mem_nil, or_false] at listed
  rcases listed with rfl | ⟨text, -, rfl⟩ | rfl <;> rfl

theorem level_doc (doc : DocComment) (level : Nat) :
    ∀ line ∈ doc.render level, line.level = level := by
  intro line listed
  rw [DocComment.render] at listed
  split at listed
  · cases listed
  · exact level_comment line listed

/-- No line of a comment looks like a declaration. -/
theorem filter_comment (texts : List String) :
    (Document.comment 0 texts).filter Line.introducesType = [] := by
  refine List.filter_eq_nil_iff.mpr fun line listed => ?_
  simp only [Document.comment, List.cons_append, List.mem_cons, List.mem_append, List.mem_map,
    List.not_mem_nil, or_false] at listed
  rcases listed with rfl | ⟨text, -, rfl⟩ | rfl
  · simp [Line.introducesType, introducers, List.isPrefixOf]
  · split <;> simp [Line.introducesType, introducers, List.isPrefixOf]
  · simp [Line.introducesType, introducers, List.isPrefixOf]

theorem filter_doc (doc : DocComment) : (doc.render 0).filter Line.introducesType = [] := by
  rw [DocComment.render]
  split
  · rfl
  · exact filter_comment _

theorem Line.introducesType_of_introduces {line : Line} {name : String}
    (introduces : line.Introduces name) : line.introducesType = true := by
  obtain ⟨words, isWords, rest, rfl⟩ := introduces
  rw [introducesType, Bool.and_eq_true, List.any_eq_true]
  exact ⟨rfl, words, isWords, by simp [List.append_assoc]⟩

/-- Comments and inner lines around the line that introduces a name change nothing. -/
theorem filter_split {front back : Document} {line : Line} {name : String}
    (before : front.filter Line.introducesType = []) (introduces : line.Introduces name)
    (after : back.filter Line.introducesType = []) :
    (front ++ line :: back).filter Line.introducesType = [line] := by
  simp [before, after, Line.introducesType_of_introduces introduces]

theorem filter_blank : [Line.blank].filter Line.introducesType = [] := by
  decide

def RecordType.opening (type : RecordType) : Line :=
  ⟨0, "export type " ++ type.name ++ " = \x7b"⟩

theorem RecordType.introduces_opening (type : RecordType) : type.opening.Introduces type.name :=
  ⟨"export type ", by simp [introducers], "= \x7b", congrArg _ (String.toList_inj.mp (by simp))⟩

theorem RecordType.filter_render (type : RecordType) :
    type.render.filter Line.introducesType = [type.opening] := by
  have properties : (type.properties.flatMap Property.render).filter Line.introducesType = [] := by
    refine filter_eq_nil_of_level fun line listed => ?_
    obtain ⟨property, -, listed⟩ := List.mem_flatMap.mp listed
    rcases List.mem_append.mp listed with inDoc | itself
    · simp [level_doc _ _ line inDoc]
    · simp [List.mem_singleton.mp itself]
  have split : type.render = type.doc.render 0 ++ type.opening ::
      (type.properties.flatMap Property.render ++ [⟨0, "\x7d;"⟩, Line.blank]) := by
    simp [render, opening]
  rw [split]
  refine filter_split (filter_doc _) type.introduces_opening ?_
  rw [List.filter_append, properties]
  decide

theorem RecordType.introducesOnly (type : RecordType) :
    Document.IntroducesOnly type.render type.name :=
  ⟨type.opening, type.filter_render, type.introduces_opening⟩

theorem level_renderMembers (members : List UnionMember) :
    ∀ line ∈ UnionType.renderMembers members, line.level = 1 := by
  induction members with
  | nil => simp [UnionType.renderMembers]
  | cons member members ih =>
    cases members with
    | nil =>
      rw [UnionType.renderMembers]
      exact List.forall_mem_append.mpr ⟨level_doc _ _, by simp⟩
    | cons next others =>
      rw [UnionType.renderMembers]
      · exact List.forall_mem_append.mpr
          ⟨List.forall_mem_append.mpr ⟨level_doc _ _, by simp⟩, ih⟩
      · simp

def UnionType.opening (type : UnionType) : Line :=
  ⟨0, "export type " ++ type.name ++ " ="⟩

theorem UnionType.introduces_opening (type : UnionType) : type.opening.Introduces type.name :=
  ⟨"export type ", by simp [introducers], "=", congrArg _ (String.toList_inj.mp (by simp))⟩

theorem UnionType.filter_render (type : UnionType) :
    type.render.filter Line.introducesType = [type.opening] := by
  have inner {lines : Document} (level : ∀ line ∈ lines, line.level = 1) :
      (lines ++ [Line.blank]).filter Line.introducesType = [] := by
    rw [List.filter_append, filter_blank,
      filter_eq_nil_of_level fun line listed => by simp [level line listed]]
    rfl
  rw [render, List.append_assoc, List.append_assoc, List.singleton_append]
  refine filter_split (filter_doc _) type.introduces_opening ?_
  split
  · exact inner (by simp)
  · exact inner (List.forall_mem_append.mpr ⟨level_doc _ _, by simp⟩)
  · exact inner (level_renderMembers _)

theorem UnionType.introducesOnly (type : UnionType) :
    Document.IntroducesOnly type.render type.name :=
  ⟨type.opening, type.filter_render, type.introduces_opening⟩

/-- The line that declares or opens the alias of a well-known type. -/
def WellKnown.opening (type : WellKnown) : Line :=
  match type.aliased? with
  | some target => ⟨0, "type " ++ type.aliasName ++ " = " ++ target ++ ";"⟩
  | none => ⟨0, "interface " ++ type.aliasName ++ " \x7b"⟩

theorem WellKnown.introduces_opening (type : WellKnown) :
    type.opening.Introduces type.aliasName := by
  rw [opening]
  cases type.aliased? with
  | some target =>
    exact ⟨"type ", by simp [introducers], "= " ++ target ++ ";",
      congrArg _ (String.toList_inj.mp (by simp))⟩
  | none =>
    exact ⟨"interface ", by simp [introducers], "\x7b",
      congrArg _ (String.toList_inj.mp (by simp))⟩

theorem WellKnown.filter_declaration (type : WellKnown) :
    type.declaration.filter Line.introducesType = [type.opening] := by
  have remarks : (if type.remarks = [] then [] else Document.comment 0 type.remarks).filter
      Line.introducesType = [] := by
    split
    · rfl
    · exact filter_comment _
  have introduces := type.introduces_opening
  rw [declaration, List.append_assoc]
  rw [opening] at introduces ⊢
  cases aliased : type.aliased? with
  | some target =>
    rw [aliased] at introduces
    exact filter_split remarks introduces filter_blank
  | none =>
    rw [aliased] at introduces
    exact filter_split remarks introduces (by decide)

theorem WellKnown.introducesOnly (type : WellKnown) :
    Document.IntroducesOnly type.declaration type.aliasName :=
  ⟨type.opening, type.filter_declaration, type.introduces_opening⟩

/-- The lines of a client function are all indented. -/
theorem level_function (function : ClientFunction) : ∀ line ∈ function.render, line.level ≠ 0 := by
  have guard (access : FieldAccess) :
      ∀ line ∈ ClientFunction.renderGuard access, line.level ≠ 0 := by
    simp [ClientFunction.renderGuard]
  have push (leaf : FieldAccess) : ∀ line ∈ ClientFunction.renderQuery leaf, line.level ≠ 0 := by
    rw [ClientFunction.renderQuery]
    split <;> simp
  rw [ClientFunction.render]
  simp only [List.forall_mem_append, List.forall_mem_flatMap]
  exact ⟨⟨⟨⟨by simp, fun access _ => guard access⟩, by simp⟩, fun leaf _ => push leaf⟩, by simp⟩

def ServiceCode.opening (code : ServiceCode) : Line :=
  ⟨0, "export interface " ++ code.interface.name ++ " \x7b"⟩

theorem ServiceCode.introduces_opening (code : ServiceCode) :
    code.opening.Introduces code.interface.name :=
  ⟨"export interface ", by simp [introducers], "\x7b",
    congrArg _ (String.toList_inj.mp (by simp))⟩

theorem ServiceCode.filter_render (code : ServiceCode) :
    code.render.filter Line.introducesType = [code.opening] := by
  have signatures : (code.interface.signatures.flatMap Signature.render).filter
      Line.introducesType = [] := by
    refine filter_eq_nil_of_level fun line listed => ?_
    obtain ⟨signature, -, listed⟩ := List.mem_flatMap.mp listed
    rcases List.mem_append.mp listed with inDoc | itself
    · simp [level_doc _ _ line inDoc]
    · simp [List.mem_singleton.mp itself]
  have functions : (code.factory.functions.flatMap ClientFunction.render).filter
      Line.introducesType = [] := by
    refine filter_eq_nil_of_level fun line listed => ?_
    obtain ⟨function, -, listed⟩ := List.mem_flatMap.mp listed
    exact level_function function line listed
  have split : code.render = code.interface.doc.render 0 ++ code.opening ::
      (code.interface.signatures.flatMap Signature.render ++ [⟨0, "\x7d"⟩, Line.blank] ++
        code.factory.render) := by
    simp [render, ServiceInterface.render, opening]
  have factory : code.factory.render.filter Line.introducesType = [] := by
    simp only [ClientFactory.render, List.filter_append, functions]
    simp [Line.introducesType, introducers, List.isPrefixOf, Line.blank]
  rw [split]
  refine filter_split (filter_doc _) code.introduces_opening ?_
  rw [List.filter_append, List.filter_append, signatures, factory]
  decide

theorem ServiceCode.introducesOnly (code : ServiceCode) :
    Document.IntroducesOnly code.render code.interface.name :=
  ⟨code.opening, code.filter_render, code.introduces_opening⟩

namespace PackageFile

end PackageFile

end Lines

def Line.recordName? (line : Line) : Option String :=
  if line.level = 0 then
    ("export type ".toList.isPrefixOf? line.text.toList).bind fun behind =>
      (" = \x7b".toList.isSuffixOf? behind).map String.ofList
  else none

def Document.recordNames (lines : Document) : List String :=
  lines.filterMap Line.recordName?

namespace Document

theorem recordNames_append (front back : Document) :
    recordNames (front ++ back) = front.recordNames ++ back.recordNames :=
  List.filterMap_append

end Document

theorem isPrefixOf?_eq_none {words text : List Char} (differs : words.isPrefixOf text = false) :
    words.isPrefixOf? text = none := by
  induction words generalizing text with
  | nil => simp [List.isPrefixOf] at differs
  | cons c words ih =>
    cases text with
    | nil => rfl
    | cons d text =>
      rw [List.isPrefixOf, Bool.and_eq_false_iff] at differs
      rw [List.isPrefixOf?]
      split
      · next same => exact ih (differs.resolve_left (by simp [same]))
      · rfl

theorem isPrefixOf?_append (words text : List Char) :
    words.isPrefixOf? (words ++ text) = some text := by
  induction words with
  | nil => simp [List.isPrefixOf?]
  | cons c words ih => simp [List.isPrefixOf?, ih]

theorem Line.recordName?_eq_none {line : Line}
    (differs : "export type ".toList.isPrefixOf line.text.toList = false) :
    line.recordName? = none := by
  rw [recordName?, isPrefixOf?_eq_none differs]
  simp

/-- Only a line that introduces a type opens a record. -/
theorem Line.recordName?_eq_none_of_introducesType {line : Line}
    (other : line.introducesType = false) : line.recordName? = none := by
  by_cases top : line.level = 0
  · refine recordName?_eq_none ?_
    simp only [introducesType, top, BEq.rfl, Bool.true_and, introducers, List.any_cons,
      Bool.or_eq_false_iff] at other
    exact other.1
  · rw [recordName?, if_neg top]

theorem recordNames_eq_filter (lines : Document) :
    lines.recordNames = Document.recordNames (lines.filter Line.introducesType) := by
  induction lines with
  | nil => rfl
  | cons line lines ih =>
    by_cases introduces : line.introducesType = true
    · rw [List.filter_cons_of_pos introduces]
      simp only [Document.recordNames, List.filterMap_cons] at ih ⊢
      rw [ih]
    · rw [List.filter_cons_of_neg introduces]
      have none := Line.recordName?_eq_none_of_introducesType (by simpa using introduces)
      simpa only [Document.recordNames, List.filterMap_cons, none] using ih

theorem RecordType.recordName?_opening (type : RecordType) :
    type.opening.recordName? = some type.name := by
  have text : type.opening.text.toList =
      "export type ".toList ++ (type.name.toList ++ " = \x7b".toList) := by
    simp [opening]
  have level : type.opening.level = 0 := rfl
  have behind : " = \x7b".toList.isSuffixOf? (type.name.toList ++ " = \x7b".toList) =
      some type.name.toList := by
    rw [List.isSuffixOf?, List.reverse_append, isPrefixOf?_append]
    simp
  rw [Line.recordName?, if_pos level, text, isPrefixOf?_append, Option.bind_some, behind]
  simp

theorem RecordType.recordNames_render (type : RecordType) :
    type.render.recordNames = [type.name] := by
  rw [recordNames_eq_filter, type.filter_render]
  simp [Document.recordNames, type.recordName?_opening]

theorem UnionType.recordNames_render (type : UnionType) : type.render.recordNames = [] := by
  have text : type.opening.text.toList =
      "export type ".toList ++ (type.name.toList ++ " =".toList) := by
    simp [opening]
  have level : type.opening.level = 0 := rfl
  have behind : " = \x7b".toList.isSuffixOf? (type.name.toList ++ " =".toList) = none := by
    simp [List.isSuffixOf?, List.isPrefixOf?]
  have none : type.opening.recordName? = none := by
    rw [Line.recordName?, if_pos level, text, isPrefixOf?_append, Option.bind_some, behind]
    rfl
  rw [recordNames_eq_filter, type.filter_render]
  simp [Document.recordNames, none]

theorem WellKnown.recordNames_declaration (type : WellKnown) :
    type.declaration.recordNames = [] := by
  have none : type.opening.recordName? = none := by
    rw [opening]
    split <;> exact Line.recordName?_eq_none (by simp [List.isPrefixOf])
  rw [recordNames_eq_filter, type.filter_declaration]
  simp [Document.recordNames, none]

theorem ServiceCode.recordNames_render (code : ServiceCode) : code.render.recordNames = [] := by
  have none : code.opening.recordName? = none :=
    Line.recordName?_eq_none (by simp [opening, List.isPrefixOf])
  rw [recordNames_eq_filter, code.filter_render]
  simp [Document.recordNames, none]

theorem recordNames_transportTypes : Document.recordNames transportTypes = [] := by
  decide

theorem recordNames_flatMap {α : Type} (xs : List α) (render : α → Document) :
    Document.recordNames (xs.flatMap render) = xs.flatMap fun x => (render x).recordNames := by
  induction xs with
  | nil => rfl
  | cons x xs ih =>
    rw [List.flatMap_cons, List.flatMap_cons, Document.recordNames_append, ih]

theorem recordNames_records (records : List RecordType) :
    Document.recordNames (records.flatMap RecordType.render) = records.map (·.name) := by
  simp only [recordNames_flatMap, RecordType.recordNames_render, List.map_eq_flatMap]

/-- The records in an output file are those of its messages and of their variants. -/
theorem PackageFile.recordNames_render (file : PackageFile) :
    file.render.recordNames = (file.messages ++ file.variants).map (·.name) := by
  have edges : Document.recordNames header = [] ∧ Document.recordNames trailer = [] := by
    decide
  have transport : Document.recordNames
      (if file.services.isEmpty then [] else transportTypes) = [] := by
    split
    · rfl
    · exact recordNames_transportTypes
  have silent {α : Type} (xs : List α) : (xs.flatMap fun _ => ([] : List String)) = [] := by
    simp
  simp only [render, Document.recordNames_append, edges, transport, recordNames_records,
    recordNames_flatMap file.wellKnown, WellKnown.recordNames_declaration,
    recordNames_flatMap file.enums, UnionType.recordNames_render,
    recordNames_flatMap file.services, ServiceCode.recordNames_render, silent, List.nil_append,
    List.append_nil, List.map_append]

/-- The records of an output file stand in its document. -/
theorem infix_of_mem_records {file : PackageFile} {record : RecordType}
    (listed : record ∈ file.messages ++ file.variants) : record.render <:+: file.render := by
  have within {records : List RecordType} (listed : record ∈ records) :
      record.render <:+: records.flatMap RecordType.render := by
    rw [List.flatMap_def]
    exact List.infix_of_mem_flatten (List.mem_map_of_mem listed)
  have inFront {part front : Document} (found : part <:+: front) (back : Document) :
      part <:+: front ++ back := found.trans (List.prefix_append front back).isInfix
  have atBack {part back : Document} (found : part <:+: back) (front : Document) :
      part <:+: front ++ back := found.trans (List.suffix_append front back).isInfix
  rw [PackageFile.render]
  rcases List.mem_append.mp listed with default | variant
  · exact inFront (inFront (inFront (inFront (atBack (within default) _) _) _) _) _
  · exact inFront (atBack (within variant) _) _

end HttpClientGen
