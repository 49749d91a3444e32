import HttpClientGen.Document
import HttpClientGen.Proofs.Text.Blank
import HttpClientGen.Proofs.Text.Pieces

/-!
# Comments that stay comments

A block comment ends where its end first appears, so the documentation of a declaration is one block
comment as long as no line of it has such an end. Nothing in the comments of a schema is escaped:
a comment with an end in it closes its block too early, and the rest of it becomes code.
-/

namespace HttpClientGen

def commentEnd : List Char :=
  ['*', '/']

/-- What follows the first end of a comment. -/
def behindComment : List Char → Option (List Char)
  | [] => none
  | c :: cs => if commentEnd.isPrefixOf (c :: cs) then some (cs.drop 1) else behindComment cs

/-- The text is one block of documentation, indented and closed by a line feed. The comment that it
opens goes on up to the last line. -/
def IsDocBlock (level : Nat) (text : List Char) : Prop :=
  ∃ content, text = (indentation level).toList ++ '/' :: '*' :: '*' :: content ∧
    behindComment ('*' :: content) = some ['\n']

section Scanning

theorem isPrefixOf_commentEnd_append {c : Char} {cs rest : List Char}
    (apart : rest.head? ≠ some '/') :
    commentEnd.isPrefixOf (c :: cs ++ rest) = commentEnd.isPrefixOf (c :: cs) := by
  cases cs with
  | cons next cs => simp [commentEnd, List.isPrefixOf]
  | nil =>
    cases rest with
    | nil => rfl
    | cons first rest =>
      have differ : ('/' == first) = false := by
        rw [List.head?_cons, ne_eq, Option.some.injEq] at apart
        simpa using Ne.symm apart
      simp [commentEnd, List.isPrefixOf, differ]

/-- A text without an end is passed over, unless what follows makes up an end together with it. -/
theorem behindComment_append {front rest : List Char} (none : behindComment front = none)
    (apart : rest.head? ≠ some '/') : behindComment (front ++ rest) = behindComment rest := by
  induction front with
  | nil => rfl
  | cons c front ih =>
    rw [behindComment] at none
    split at none
    · cases none
    · next inside =>
      rw [List.cons_append, behindComment, ← List.cons_append, isPrefixOf_commentEnd_append apart,
        if_neg inside]
      exact ih none

theorem behindComment_eq_none_iff {cs : List Char} :
    behindComment cs = none ↔ ¬commentEnd <:+: cs := by
  induction cs with
  | nil => simp [behindComment, commentEnd]
  | cons c cs ih =>
    rw [behindComment, List.infix_cons_iff, not_or, ← ih, ← List.isPrefixOf_iff_prefix]
    split <;> simp_all

/-- The first end of a comment is not behind any other one. -/
theorem length_le_of_behindComment {front back rest : List Char}
    (found : behindComment (front ++ commentEnd ++ back) = some rest) :
    back.length ≤ rest.length := by
  induction front with
  | nil =>
    obtain rfl : back = rest := by simpa [behindComment, commentEnd] using found
    exact Nat.le_refl _
  | cons c front ih =>
    rw [List.cons_append, List.cons_append, behindComment] at found
    split at found
    · obtain rfl := Option.some.inj found
      simp only [List.length_drop, List.length_append, commentEnd, List.length_cons,
        List.length_nil]
      omega
    · exact ih found

theorem behindComment_cons_eq_none_iff {c : Char} {cs : List Char} :
    behindComment (c :: cs) = none ↔
      commentEnd.isPrefixOf (c :: cs) = false ∧ behindComment cs = none := by
  rw [behindComment]
  cases commentEnd.isPrefixOf (c :: cs) <;> simp

/-- Characters other than the star are passed over, whatever follows. -/
theorem behindComment_append_of_not_mem {front : List Char} (clean : '*' ∉ front)
    (rest : List Char) : behindComment (front ++ rest) = behindComment rest := by
  induction front with
  | nil => rfl
  | cons c front ih =>
    rw [List.mem_cons, not_or] at clean
    have inside : ¬commentEnd.isPrefixOf (c :: (front ++ rest)) = true := by
      simp [commentEnd, List.isPrefixOf, clean.1]
    rw [List.cons_append, behindComment, if_neg inside, ih clean.2]

end Scanning

/-!
The lines of a comment have an end in them exactly if the comment has: neither line feeds nor blanks
are part of an end.
-/

section Lines

theorem not_mem_of_blank {cs : List Char} (blank : ∀ c ∈ cs, Text.isBlank c = true) {c : Char}
    (notBlank : Text.isBlank c = false) : c ∉ cs := by
  intro listed
  rw [blank c listed] at notBlank
  cases notBlank

theorem behindComment_trim {cs : List Char} :
    behindComment (Text.trim cs) = none ↔ behindComment cs = none := by
  obtain ⟨front, back, split, inFront, inBack⟩ := Text.exists_blanks_around cs
  constructor
  · intro none
    have apart : back.head? ≠ some '/' := fun slash =>
      not_mem_of_blank inBack (by decide) (List.mem_of_mem_head? slash)
    have behind : behindComment back = Option.none := by
      have passed := behindComment_append_of_not_mem (not_mem_of_blank inBack (by decide)) []
      rwa [List.append_nil] at passed
    rw [split, List.append_assoc,
      behindComment_append_of_not_mem (not_mem_of_blank inFront (by decide)),
      behindComment_append none apart, behind]
  · intro none
    rw [behindComment_eq_none_iff] at none ⊢
    intro inside
    exact none (inside.trans ⟨front, back, split.symm⟩)

/-- An end of a comment lies within one line. -/
theorem behindComment_pieces {cs : List Char} :
    (∀ piece ∈ Text.pieces '\n' cs, behindComment piece = none) ↔ behindComment cs = none := by
  induction cs with
  | nil => simp [Text.pieces]
  | cons c cs ih =>
    rw [Text.pieces]
    split
    · next feed =>
      subst feed
      rw [List.forall_mem_cons, ih, behindComment_cons_eq_none_iff]
      simp [behindComment, commentEnd, List.isPrefixOf]
    · split
      · next none => exact absurd none (Text.pieces_ne_nil cs)
      · next piece others cut =>
        -- a piece stops before the line feed, and a line feed does not go on with an end
        have same : commentEnd.isPrefixOf (c :: piece) = commentEnd.isPrefixOf (c :: cs) := by
          cases cs with
          | nil =>
            obtain ⟨rfl, -⟩ := List.cons.inj cut
            rfl
          | cons next cs =>
            rw [Text.pieces] at cut
            split at cut
            · next feed =>
              obtain ⟨rfl, -⟩ := List.cons.inj cut
              simp [commentEnd, List.isPrefixOf, feed]
            · split at cut
              · obtain ⟨rfl, -⟩ := List.cons.inj cut
                simp [commentEnd, List.isPrefixOf]
              · obtain ⟨rfl, -⟩ := List.cons.inj cut
                simp [commentEnd, List.isPrefixOf]
        rw [cut, List.forall_mem_cons] at ih
        rw [List.forall_mem_cons, behindComment_cons_eq_none_iff, behindComment_cons_eq_none_iff,
          same, and_assoc, ih]

/-- The lines that a comment contributes have no end in them if the comment has none. -/
theorem behindComment_linesOf {comment : String} :
    (∀ line ∈ DocComment.linesOf comment, behindComment line.toList = none) ↔
      ¬commentEnd <:+: comment.toList := by
  rw [← behindComment_eq_none_iff, ← behindComment_pieces]
  simp only [DocComment.linesOf, List.forall_mem_map, List.mem_filter, String.toList_ofList]
  constructor
  · intro clean piece listed
    by_cases blank : Text.trim piece = []
    · rw [← behindComment_trim, blank]
      rfl
    · rw [← behindComment_trim]
      exact clean _ ⟨List.mem_map_of_mem listed, by simpa using blank⟩
  · rintro clean _ ⟨listed, -⟩
    obtain ⟨piece, isPiece, rfl⟩ := List.mem_map.mp listed
    exact behindComment_trim.mpr (clean piece isPiece)

/-- Only a blank comment contributes no line. -/
theorem linesOf_eq_nil_iff {comment : String} :
    DocComment.linesOf comment = [] ↔ ∀ c ∈ comment.toList, Text.isBlank c = true := by
  have feed : Text.isBlank '\n' = true := by decide
  rw [DocComment.linesOf, List.map_eq_nil_iff, List.filter_eq_nil_iff]
  simp only [List.forall_mem_map, decide_not, Bool.not_eq_true', decide_eq_false_iff_not,
    Decidable.not_not, Text.trim_eq_nil_iff]
  rw [Text.forall_mem_pieces_iff]
  refine forall₂_congr fun c _ => ⟨fun blank => ?_, fun blank _ => blank⟩
  by_cases same : c = '\n'
  · rw [same, feed]
  · exact blank same

end Lines

section Blocks

theorem Document.toList_render (lines : Document) :
    (Document.render lines).toList = lines.flatMap (·.render.toList) := by
  rw [Document.render, String.toList_join, List.flatMap_map]

def starred (level : Nat) (text : String) : Line :=
  ⟨level, if text = "" then " *" else " * " ++ text⟩

theorem star_not_mem_indentation (level : Nat) : '*' ∉ (indentation level).toList := by
  simp [indentation]

theorem toList_starred (level : Nat) (text : String) :
    (starred level text).render.toList = (indentation level).toList ++
      (if text = "" then [' ', '*'] else ' ' :: '*' :: ' ' :: text.toList) ++ ['\n'] := by
  by_cases none : text = ""
  · simp [starred, Line.render, none]
  · simp [starred, Line.render, none]

theorem head?_indentation_append (level : Nat) (rest : List Char) :
    ((indentation level).toList ++ ' ' :: rest).head? = some ' ' := by
  cases level with
  | zero => rfl
  | succ level => simp [indentation, Nat.mul_succ, List.replicate_succ]

theorem head?_starred (level : Nat) (text : String) :
    (starred level text).render.toList.head? = some ' ' := by
  rw [toList_starred]
  split
  · rw [List.append_assoc]
    exact head?_indentation_append level _
  · rw [List.append_assoc]
    exact head?_indentation_append level _

/-- A starred line has an end of a comment in it if its text has. -/
theorem behindComment_starred {level : Nat} {text : String} :
    behindComment (starred level text).render.toList = none ↔
      behindComment text.toList = none := by
  rw [toList_starred, List.append_assoc,
    behindComment_append_of_not_mem (star_not_mem_indentation level)]
  by_cases none : text = ""
  · simp [none, behindComment, commentEnd, List.isPrefixOf]
  · rw [if_neg none]
    have opening : behindComment (' ' :: '*' :: ' ' :: text.toList ++ ['\n']) =
        behindComment (text.toList ++ ['\n']) := by
      simp [behindComment, commentEnd, List.isPrefixOf]
    rw [opening]
    constructor
    · intro clean
      rw [behindComment_eq_none_iff] at clean ⊢
      exact fun inside => clean (inside.trans (List.infix_append [] _ _))
    · intro clean
      rw [behindComment_append clean (by simp)]
      rfl

/-- The text of a block comment: its opening line, its starred lines and its last line. -/
theorem toList_comment (level : Nat) (texts : List String) :
    (Document.render (Document.comment level texts)).toList =
      (indentation level).toList ++ '/' :: '*' :: '*' :: '\n' ::
        (texts.flatMap (fun text => (starred level text).render.toList) ++
          (indentation level).toList ++ [' ', '*', '/', '\n']) := by
  have lines : Document.comment level texts =
      ⟨level, "/**"⟩ :: texts.map (starred level) ++ [⟨level, " */"⟩] := rfl
  rw [Document.toList_render, lines]
  simp [Line.render, List.flatMap_map]

theorem behindComment_lines {level : Nat} {texts : List String}
    (clean : ∀ text ∈ texts, behindComment text.toList = none) {rest : List Char}
    (apart : rest.head? ≠ some '/') :
    behindComment (texts.flatMap (fun text => (starred level text).render.toList) ++ rest) =
      behindComment rest := by
  induction texts with
  | nil => rfl
  | cons text texts ih =>
    obtain ⟨here, later⟩ := List.forall_mem_cons.mp clean
    rw [List.flatMap_cons, List.append_assoc,
      behindComment_append (behindComment_starred.mpr here), ih later]
    cases texts with
    | nil => exact apart
    | cons next texts =>
      rw [List.flatMap_cons, List.append_assoc, List.head?_append, head?_starred]
      simp

/-- A block comment ends in its last line exactly if none of its lines has an end in it. -/
theorem isDocBlock_comment_iff {level : Nat} {texts : List String} :
    IsDocBlock level (Document.render (Document.comment level texts)).toList ↔
      ∀ text ∈ texts, behindComment text.toList = none := by
  let last := (indentation level).toList ++ [' ', '*', '/', '\n']
  let inside := texts.flatMap fun text => (starred level text).render.toList
  have whole := toList_comment level texts
  constructor
  · rintro ⟨content, split, ends⟩ text listed
    rw [whole, List.append_assoc] at split
    have same : '\n' :: (inside ++ last) = content := by simpa using split
    by_contra notClean
    have line : behindComment (starred level text).render.toList ≠ none :=
      fun none => notClean (behindComment_starred.mp none)
    rw [ne_eq, behindComment_eq_none_iff, not_not] at line
    have part : (starred level text).render.toList <:+: inside := by
      simp only [inside, List.flatMap_def]
      exact List.infix_of_mem_flatten (List.mem_map_of_mem listed)
    obtain ⟨front, back, found⟩ := line.trans part
    -- behind an end within a line there is at least the last line, which is more than a line feed
    have early : behindComment ('*' :: '\n' :: front ++ commentEnd ++ (back ++ last)) =
        some ['\n'] := by
      rw [← ends, ← same, ← found]
      simp
    have short := length_le_of_behindComment early
    simp only [last, List.length_append, List.length_cons, List.length_nil] at short
    omega
  · intro clean
    refine ⟨'\n' :: (inside ++ last), ?_, ?_⟩
    · rw [whole, List.append_assoc]
    · have apart : last.head? ≠ some '/' := by
        rw [head?_indentation_append]
        simp
      have opening : behindComment ('*' :: '\n' :: (inside ++ last)) =
          behindComment (inside ++ last) := by
        simp [behindComment, commentEnd, List.isPrefixOf]
      rw [opening, behindComment_lines clean apart,
        behindComment_append_of_not_mem (star_not_mem_indentation level)]
      simp [behindComment, commentEnd, List.isPrefixOf]

end Blocks

namespace DocComment

variable {comments : Option String} {behaviors : List FieldBehavior}

/-- Nothing is said where the comment is blank and there are no behaviours. -/
def Silent (comments : Option String) (behaviors : List FieldBehavior) : Prop :=
  (∀ comment ∈ comments, ∀ c ∈ comment.toList, Text.isBlank c = true) ∧ behaviors = []

def texts (doc : DocComment) : List String :=
  doc.lines ++ (if doc.lines = [] ∨ doc.behaviors = [] then [] else [""]) ++ doc.behaviorLine

theorem render_eq (doc : DocComment) (level : Nat) :
    doc.render level = if doc.texts = [] then [] else Document.comment level doc.texts := by
  rw [render, ← texts]
  split
  · next none => rw [if_pos none]
  · next some => rw [if_neg some]

theorem texts_of_eq_nil_iff : (DocComment.of comments behaviors).texts = [] ↔
    Silent comments behaviors := by
  have lines : (DocComment.of comments behaviors).lines = [] ↔
      ∀ comment ∈ comments, ∀ c ∈ comment.toList, Text.isBlank c = true := by
    cases comments with
    | none => simp [DocComment.of]
    | some comment => simp [DocComment.of, linesOf_eq_nil_iff]
  rw [Silent, ← lines, texts, behaviorLine]
  by_cases none : behaviors = [] <;> simp [DocComment.of, none]

theorem star_not_mem_behaviorLine (doc : DocComment) :
    ∀ text ∈ doc.behaviorLine, '*' ∉ text.toList := by
  have names (behavior : FieldBehavior) : '*' ∉ behavior.name.toList := by
    cases behavior <;> decide
  have list (behaviors : List FieldBehavior) :
      '*' ∉ (", ".intercalate (behaviors.map FieldBehavior.name)).toList := by
    induction behaviors with
    | nil => simp
    | cons behavior behaviors ih =>
      cases behaviors with
      | nil => simpa using names behavior
      | cons next behaviors =>
        rw [List.map_cons] at ih
        simp only [List.map_cons, String.intercalate_cons_cons, String.toList_append,
          List.mem_append, not_or]
        exact ⟨⟨names behavior, by decide⟩, ih⟩
  rw [behaviorLine]
  split
  · nofun
  · intro text listed
    obtain rfl := List.mem_singleton.mp listed
    rw [String.toList_append, List.mem_append, not_or]
    exact ⟨by decide, list doc.behaviors⟩

/-- No line of the schema has an end of a comment in it. -/
def Intact (doc : DocComment) : Prop :=
  ∀ line ∈ doc.lines, behindComment line.toList = none

theorem intact_iff {doc : DocComment} :
    doc.Intact ↔ ∀ text ∈ doc.texts, behindComment text.toList = none := by
  have others (text : String) (listed : text ∈ doc.behaviorLine) :
      behindComment text.toList = none := by
    have passed := behindComment_append_of_not_mem (star_not_mem_behaviorLine doc text listed) []
    rwa [List.append_nil] at passed
  rw [texts, List.forall_mem_append, List.forall_mem_append]
  refine ⟨fun clean => ⟨⟨clean, ?_⟩, others⟩, fun clean => clean.1.1⟩
  split
  · nofun
  · intro text listed
    obtain rfl := List.mem_singleton.mp listed
    rfl

theorem intact_of_iff : (DocComment.of comments behaviors).Intact ↔
    ∀ comment ∈ comments, ¬commentEnd <:+: comment.toList := by
  cases comments with
  | none => simp [Intact, DocComment.of]
  | some comment => simp [Intact, DocComment.of, behindComment_linesOf]

/-- The text for a comment and behaviours has nothing in it exactly if there is nothing to say.
Otherwise it starts and ends as a block of documentation, and it is a single block exactly if the
comment has no end of a comment in it. -/
structure IsText (comments : Option String) (behaviors : List FieldBehavior) (level : Nat)
    (text : List Char) : Prop where
  eq_nil_iff : text = [] ↔ Silent comments behaviors
  delimited : text ≠ [] →
    ∃ inside, text = (indentation level).toList ++ "/**".toList ++ inside ++ "*/\n".toList
  isDocBlock_iff : text ≠ [] →
    (IsDocBlock level text ↔ ∀ comment ∈ comments, ¬commentEnd <:+: comment.toList)

theorem isText_of (comments : Option String) (behaviors : List FieldBehavior) (level : Nat) :
    IsText comments behaviors level
      (Document.render ((DocComment.of comments behaviors).render level)).toList := by
  rw [render_eq]
  by_cases silent : (DocComment.of comments behaviors).texts = []
  · rw [if_pos silent]
    constructor
    · exact iff_of_true rfl (texts_of_eq_nil_iff.mp silent)
    · exact fun some => absurd rfl some
    · exact fun some => absurd rfl some
  · rw [if_neg silent]
    have block := toList_comment level (DocComment.of comments behaviors).texts
    constructor
    · refine iff_of_false ?_ (mt texts_of_eq_nil_iff.mpr silent)
      rw [block]
      simp
    · intro _
      let lines := (DocComment.of comments behaviors).texts.flatMap fun text =>
        (starred level text).render.toList
      refine ⟨'\n' :: (lines ++ (indentation level).toList ++ [' ']), ?_⟩
      rw [block]
      simp [lines]
    · intro _
      rw [isDocBlock_comment_iff, ← intact_iff, intact_of_iff]

end DocComment

end HttpClientGen
