import HttpClientGen.Proofs.Comments.Output
import HttpClientGen.Proofs.Comments.Sources
import HttpClientGen.Proofs.DocComment

/-!
# Comments in output files

An output file is code with blocks of documentation between its lines. Where no comment of the
schema has an end of a comment in it, each block is one comment from its first line to its last, and
the code around the blocks is that of the schema without its comments. So no part of a comment
becomes code.
-/

namespace HttpClientGen

/-- A text that is made up of the lines of some code, with blocks of documentation between them. -/
inductive Commented : Document → List Char → Prop
  | nil : Commented [] []
  | line (line : Line) {code : Document} {text : List Char} (rest : Commented code text) :
      Commented (line :: code) (line.render.toList ++ text)
  | block {level : Nat} {block : List Char} {code : Document} {text : List Char}
      (isBlock : IsDocBlock level block) (rest : Commented code text) :
      Commented code (block ++ text)

theorem Commented.append {code code' : Document} {text text' : List Char}
    (first : Commented code text) (second : Commented code' text') :
    Commented (code ++ code') (text ++ text') := by
  induction first with
  | nil => exact second
  | line line _ ih =>
    rw [List.append_assoc]
    exact .line line ih
  | block isBlock _ ih =>
    rw [List.append_assoc]
    exact .block isBlock ih

/-- Two documents that differ at most in the blocks of documentation between the lines of code. -/
def SameCode (first second : Document) : Prop :=
  ∃ code, Commented code (Document.render first).toList ∧
    Commented code (Document.render second).toList

namespace SameCode

theorem refl (lines : Document) : SameCode lines lines := by
  have whole : Commented lines (Document.render lines).toList := by
    rw [Document.toList_render]
    induction lines with
    | nil => exact .nil
    | cons line lines ih => exact .line line ih
  exact ⟨lines, whole, whole⟩

theorem append {first second first' second' : Document} (front : SameCode first second)
    (back : SameCode first' second') : SameCode (first ++ first') (second ++ second') := by
  obtain ⟨code, left, right⟩ := front
  obtain ⟨code', left', right'⟩ := back
  refine ⟨code ++ code', ?_, ?_⟩
  · rw [Document.toList_render, List.flatMap_append, ← Document.toList_render,
      ← Document.toList_render]
    exact left.append left'
  · rw [Document.toList_render, List.flatMap_append, ← Document.toList_render,
      ← Document.toList_render]
    exact right.append right'

theorem flatMap {α : Type} {xs : List α} {f : α → Document} {g : α → α}
    (each : ∀ x ∈ xs, SameCode (f x) (f (g x))) :
    SameCode (xs.flatMap f) ((xs.map g).flatMap f) := by
  induction xs with
  | nil => exact .refl []
  | cons x xs ih =>
    obtain ⟨here, later⟩ := List.forall_mem_cons.mp each
    rw [List.map_cons, List.flatMap_cons, List.flatMap_cons]
    exact here.append (ih later)

end SameCode

namespace DocComment

theorem Intact.commented {doc : DocComment} (intact : doc.Intact) (level : Nat) :
    Commented [] (Document.render (doc.render level)).toList := by
  rw [render_eq]
  split
  · exact .nil
  · have isBlock : IsDocBlock level (Document.render (Document.comment level doc.texts)).toList :=
      isDocBlock_comment_iff.mpr (intact_iff.mp intact)
    have alone := Commented.block isBlock .nil
    rwa [List.append_nil] at alone

theorem intact_uncommented (doc : DocComment) : doc.uncommented.Intact :=
  List.forall_mem_nil _

/-- Documentation that is intact adds no code. -/
theorem Intact.sameCode {doc : DocComment} (intact : doc.Intact) (level : Nat) :
    SameCode (doc.render level) (doc.uncommented.render level) :=
  ⟨[], intact.commented level, doc.intact_uncommented.commented level⟩

end DocComment

section Renderers

theorem RecordType.sameCode {type : RecordType} (intact : ∀ doc ∈ type.docs, doc.Intact) :
    SameCode type.render type.uncommented.render := by
  obtain ⟨own, others⟩ := List.forall_mem_cons.mp intact
  have properties : SameCode (type.properties.flatMap Property.render)
      ((type.properties.map Property.uncommented).flatMap Property.render) :=
    .flatMap fun property listed =>
      ((others _ (List.mem_map_of_mem listed)).sameCode 1).append (.refl _)
  rw [render, render]
  exact (((own.sameCode 0).append (.refl _)).append properties).append (.refl _)

theorem UnionType.sameCode_renderMembers {members : List UnionMember}
    (intact : ∀ member ∈ members, member.doc.Intact) :
    SameCode (renderMembers members) (renderMembers (members.map UnionMember.uncommented)) := by
  induction members with
  | nil => exact .refl []
  | cons member members ih =>
    obtain ⟨here, later⟩ := List.forall_mem_cons.mp intact
    cases members with
    | nil => exact (here.sameCode 1).append (.refl _)
    | cons next members => exact ((here.sameCode 1).append (.refl _)).append (ih later)

theorem UnionType.sameCode {type : UnionType} (intact : ∀ doc ∈ type.docs, doc.Intact) :
    SameCode type.render type.uncommented.render := by
  obtain ⟨own, others⟩ := List.forall_mem_cons.mp intact
  have members (member : UnionMember) (listed : member ∈ type.members) : member.doc.Intact :=
    others _ (List.mem_map_of_mem listed)
  have front := (own.sameCode 0).append (.refl [⟨0, "export type " ++ type.name ++ " ="⟩])
  rw [render, render]
  refine (front.append ?_).append (.refl _)
  rw [uncommented]
  cases held : type.members with
  | nil => exact .refl _
  | cons member others =>
    rw [held] at members
    cases others with
    | nil => exact ((members member List.mem_cons_self).sameCode 1).append (.refl _)
    | cons next others => exact sameCode_renderMembers members

section Functions

theorem FieldAccess.jsonNames_uncommented (access : FieldAccess) :
    access.uncommented.jsonNames = access.jsonNames := by
  rw [jsonNames, uncommented, List.map_map]
  rfl

theorem FieldAccess.plainChain_uncommented (access : FieldAccess) :
    access.uncommented.plainChain = access.plainChain := by
  rw [plainChain, jsonNames_uncommented, plainChain]

theorem FieldAccess.optionalChain_uncommented (access : FieldAccess) :
    access.uncommented.optionalChain = access.optionalChain := by
  rw [optionalChain, jsonNames_uncommented, optionalChain]

theorem FieldAccess.isList_uncommented (access : FieldAccess) :
    access.uncommented.isList = access.isList := by
  rw [isList, uncommented, List.getLast?_map, Option.any_map]
  rfl

variable (function : ClientFunction)

theorem ClientFunction.flatMap_renderGuard_uncommented :
    function.uncommented.captures.flatMap renderGuard = function.captures.flatMap renderGuard := by
  rw [captures, uncommented, filterMap_access?_uncommented, List.flatMap_map]
  refine List.flatMap_congr fun access _ => ?_
  rw [renderGuard, FieldAccess.optionalChain_uncommented, FieldAccess.path_uncommented, renderGuard]

theorem ClientFunction.pathText_uncommented : function.uncommented.pathText = function.pathText := by
  have part (part : PathPart) : part.uncommented.render = part.render := by
    cases part with
    | text fixed => rfl
    | value access => rw [PathPart.uncommented, PathPart.render,
        FieldAccess.plainChain_uncommented, PathPart.render]
  rw [pathText, uncommented, List.map_map, pathText]
  exact congrArg String.join (List.map_congr_left fun held _ => part held)

theorem Payload.render_uncommented (payload : Payload) :
    payload.uncommented.render = payload.render := by
  cases payload with
  | nothing => rfl
  | request => rfl
  | field access =>
    exact congrArg (fun chain => "JSON.stringify(request?." ++ chain ++ " ?? \x7b\x7d)")
      access.optionalChain_uncommented

theorem ClientFunction.flatMap_renderQuery_uncommented :
    function.uncommented.query.flatMap renderQuery = function.query.flatMap renderQuery := by
  rw [uncommented, List.flatMap_map]
  refine List.flatMap_congr fun access _ => ?_
  simp only [renderQuery, FieldAccess.plainChain_uncommented,
    FieldAccess.optionalChain_uncommented, FieldAccess.isList_uncommented]

/-- Comments have no part in client functions. -/
theorem ClientFunction.render_uncommented : function.uncommented.render = function.render := by
  rw [render, flatMap_renderGuard_uncommented, pathText_uncommented,
    flatMap_renderQuery_uncommented, render]
  simp only [uncommented, Payload.render_uncommented]

end Functions

theorem ServiceCode.sameCode {code : ServiceCode}
    (intact : ∀ doc ∈ code.interface.docs, doc.Intact) :
    SameCode code.render code.uncommented.render := by
  obtain ⟨own, others⟩ := List.forall_mem_cons.mp intact
  have signatures : SameCode (code.interface.signatures.flatMap Signature.render)
      ((code.interface.signatures.map Signature.uncommented).flatMap Signature.render) :=
    .flatMap fun signature listed =>
      ((others _ (List.mem_map_of_mem listed)).sameCode 1).append (.refl _)
  have factory : code.uncommented.factory.render = code.factory.render := by
    have functions : code.uncommented.factory.functions.flatMap ClientFunction.render =
        code.factory.functions.flatMap ClientFunction.render := by
      rw [uncommented, ClientFactory.uncommented, List.flatMap_map]
      exact List.flatMap_congr fun function _ => function.render_uncommented
    rw [ClientFactory.render, functions]
    rfl
  rw [render, render, factory, ServiceInterface.render, ServiceInterface.render]
  exact ((((own.sameCode 0).append (.refl _)).append signatures).append (.refl _)).append (.refl _)

/-- An output file has the same code as one without comments. -/
theorem PackageFile.sameCode {file : PackageFile} (intact : ∀ doc ∈ file.docs, doc.Intact) :
    SameCode file.render file.uncommented.render := by
  simp only [docs, List.forall_mem_append, List.forall_mem_flatMap] at intact
  obtain ⟨⟨⟨enums, messages⟩, services⟩, variants⟩ := intact
  have transport : file.uncommented.services.isEmpty = file.services.isEmpty :=
    List.isEmpty_map
  rw [render, render, transport]
  refine .append (.append (.append (.append (.append (.append ?_ ?_) ?_) ?_) ?_) ?_) (.refl _)
  · exact .refl _
  · exact .flatMap fun type listed => UnionType.sameCode (enums type listed)
  · exact .flatMap fun type listed => RecordType.sameCode (messages type listed)
  · exact .refl _
  · exact .flatMap fun code listed => ServiceCode.sameCode (services code listed)
  · exact .flatMap fun type listed => RecordType.sameCode (variants type listed)

end Renderers

/-- Two files of one name whose texts are the same code with blocks of documentation in between. -/
structure GeneratedFile.SameCode (file other : GeneratedFile) : Prop where
  name : other.name = file.name
  content : ∃ code, Commented code file.content.toList ∧ Commented code other.content.toList

namespace Schema

variable {schema : Schema}

/-- The output files have the same code as those of the schema without comments. -/
theorem generate_sameCode {requested : List String} {options : Options}
    {files : List GeneratedFile} (done : schema.generate requested options = .ok files)
    (clean : ∀ comment ∈ schema.allComments, ¬commentEnd <:+: comment.toList) :
    ∃ others, schema.uncommented.generate requested options = .ok others ∧
      List.Forall₂ GeneratedFile.SameCode files others := by
  obtain ⟨outputs, run, rfl⟩ := map_eq_ok_iff.mp done
  refine ⟨(outputs.map PackageOutput.uncommented).map PackageOutput.render, ?_, ?_⟩
  · rw [generate, outputs_uncommented, run]
    rfl
  · rw [List.map_map, List.forall₂_map_left_iff, List.forall₂_map_right_iff, List.forall₂_same]
    intro output listed
    refine ⟨rfl, PackageFile.sameCode fun doc held => ?_⟩
    obtain ⟨comments, behaviors, rfl, known⟩ := comesFrom_of_mem_outputs run listed doc held
    exact DocComment.intact_of_iff.mpr fun comment given => clean comment (known comment given)

/-- The documentation of a declaration is a single block exactly if its comment has no end of a
comment in it. Where no comment of the schema has one, all output files are code with such blocks
between the lines, and the schema without its comments gives the same code. -/
theorem comments_stay_in_blocks (schema : Schema) (requested : List String) (options : Options) :
    (∀ (comments : Option String) (behaviors : List FieldBehavior) (level : Nat),
      DocComment.IsText comments behaviors level
        (Document.render ((DocComment.of comments behaviors).render level)).toList) ∧
    ((∀ comment ∈ schema.allComments, ¬commentEnd <:+: comment.toList) →
      ∀ files, schema.generate requested options = .ok files →
        ∃ others, schema.uncommented.generate requested options = .ok others ∧
          List.Forall₂ GeneratedFile.SameCode files others) :=
  ⟨DocComment.isText_of, fun clean _ done => generate_sameCode done clean⟩

/-- Books, with a comment that has the start of a comment in it, but no end. -/
def bookSchema : Schema :=
  .ofFiles [
    { name := "library.proto"
      package := "library"
      messages := [
        { declared := ⟨"library", "Book"⟩
          comments := some " Stands on shelves/*.\n"
          fields := [
            { name := "name", kind := .scalar .string, behaviors := [.identifier]
              comments := some " The name.\n" }] }] }]

theorem comments_stay_in_blocks_books :
    (∀ comment ∈ bookSchema.allComments, ¬commentEnd <:+: comment.toList) ∧
      ∃ files others, bookSchema.generate ["library.proto"] {} = .ok files ∧
        bookSchema.uncommented.generate ["library.proto"] {} = .ok others ∧
        List.Forall₂ GeneratedFile.SameCode files others := by
  have scanned : ∀ comment ∈ bookSchema.allComments, behindComment comment.toList = none := by
    decide
  have clean : ∀ comment ∈ bookSchema.allComments, ¬commentEnd <:+: comment.toList :=
    fun comment listed => behindComment_eq_none_iff.mp (scanned comment listed)
  have present : ∀ name ∈ ["library.proto"], (bookSchema.file? name).isSome := by decide
  obtain ⟨files, done⟩ := exists_generate_of_faultless {} present rfl
  obtain ⟨others, alsoDone, same⟩ :=
    (comments_stay_in_blocks bookSchema ["library.proto"] {}).2 clean files done
  exact ⟨clean, files, others, done, alsoDone, same⟩

/-- A pattern of resource names in a comment ends the block of its declaration too early. -/
theorem not_isDocBlock_pattern :
    ¬∀ (comments : Option String) (behaviors : List FieldBehavior) (level : Nat),
      let text := (Document.render ((DocComment.of comments behaviors).render level)).toList
      text ≠ [] → IsDocBlock level text := by
  intro single
  have pattern := DocComment.isText_of (some " Format: shelves/*/books/*\n") [] 0
  have said : ¬DocComment.Silent (some " Format: shelves/*/books/*\n") [] := fun silent =>
    absurd (silent.1 _ rfl 'F' (by decide)) (by decide)
  have written := mt pattern.eq_nil_iff.mp said
  have clean := (pattern.isDocBlock_iff written).mp (single _ _ _ written) _ rfl
  rw [← behindComment_eq_none_iff] at clean
  exact absurd clean (by decide)

end Schema

end HttpClientGen
