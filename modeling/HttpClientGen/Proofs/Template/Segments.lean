import HttpClientGen.Proofs.Template.Nesting
import HttpClientGen.Proofs.Text.Pieces

/-!
# Reading the segments of a template

A component of a path is read as a segment exactly if it is the written form of a well-formed one,
and then as that segment. The same holds for the dotted path of a variable.
-/

namespace HttpClientGen

/-- The characters of an identifier: none of those that mean something in a template. -/
theorem isAlphanum_of_mem_identifier {name : List Char} {c : Char} (ident : isIdentifier name)
    (mem : c ∈ name) : c.isAlphanum = true ∨ c = '_' := by
  cases name with
  | nil => simp at mem
  | cons first rest =>
    simp only [isIdentifier, Bool.and_eq_true, Bool.or_eq_true, beq_iff_eq,
      List.all_eq_true] at ident
    rcases List.mem_cons.mp mem with rfl | mem
    · exact ident.1.imp_left fun letter => by simp [Char.isAlphanum, letter]
    · exact ident.2 c mem

theorem not_mem_identifier {name : List Char} {c : Char} (ident : isIdentifier name)
    (reserved : c.isAlphanum = false) (differ : c ≠ '_') : c ∉ name := by
  intro mem
  rcases isAlphanum_of_mem_identifier ident mem with letter | same
  · simp [reserved] at letter
  · exact differ same

theorem identifier_ne_nil {name : List Char} (ident : isIdentifier name) : name ≠ [] := by
  rintro rfl
  simp [isIdentifier] at ident

theorem readFieldNames_eq_ok_iff {path : List Char} {offset : Nat} {names : List (List Char)}
    {read : List String} :
    readFieldNames path offset names = .ok read ↔
      (∀ name ∈ names, isIdentifier name) ∧ read = names.map String.ofList := by
  induction names generalizing offset read with
  | nil =>
    constructor
    · rintro ⟨⟩
      simp
    · rintro ⟨-, rfl⟩
      rfl
  | cons name names ih =>
    rw [readFieldNames]
    by_cases ident : isIdentifier name
    · simp only [if_pos ident, bind_eq_ok_iff, ih, List.map_cons, List.forall_mem_cons]
      constructor
      · rintro ⟨others, ⟨idents, rfl⟩, ⟨⟩⟩
        exact ⟨⟨ident, idents⟩, rfl⟩
      · rintro ⟨⟨-, idents⟩, rfl⟩
        exact ⟨_, ⟨idents, rfl⟩, rfl⟩
    · rw [if_neg ident]
      exact ⟨(nomatch ·), fun both => absurd (both.1 name List.mem_cons_self) ident⟩

namespace FieldPath

/-- Paths that can be read: at least one name, and identifiers only. -/
def WellFormed (path : FieldPath) : Prop :=
  path.names ≠ [] ∧ ∀ name ∈ path.names, isIdentifier name.toList

theorem toList_toString (path : FieldPath) :
    path.toString.toList = ['.'].intercalate (path.names.map String.toList) := by
  simp [toString, String.toList_intercalate]

/-- The written form of a path holds only dots and the characters of identifiers. -/
theorem not_mem_toString {path : FieldPath} {c : Char}
    (idents : ∀ name ∈ path.names, isIdentifier name.toList) (reserved : c.isAlphanum = false)
    (differ : c ≠ '_') (noDot : c ≠ '.') : c ∉ path.toString.toList := by
  obtain ⟨names⟩ := path
  rw [toList_toString]
  induction names with
  | nil => simp
  | cons name names ih =>
    have first := not_mem_identifier (idents name List.mem_cons_self) reserved differ
    have others := ih fun other listed => idents other (List.mem_cons_of_mem name listed)
    cases names with
    | nil => simpa using first
    | cons next names =>
      simp only [List.map_cons, List.intercalate_cons_cons] at others ⊢
      simp [first, noDot, others]

theorem toString_ne_nil {path : FieldPath} (wellFormed : path.WellFormed) :
    path.toString.toList ≠ [] := by
  obtain ⟨names⟩ := path
  obtain ⟨nonempty, idents⟩ := wellFormed
  cases names with
  | nil => exact absurd rfl nonempty
  | cons name names =>
    have first := identifier_ne_nil (idents name List.mem_cons_self)
    rw [toList_toString]
    cases names <;> simp_all [List.intercalate_cons_cons]

theorem read_eq_ok_iff {offset : Nat} {cs : List Char} {path : FieldPath} :
    FieldPath.read offset cs = .ok path ↔ path.WellFormed ∧ path.toString.toList = cs := by
  obtain ⟨names⟩ := path
  rw [toList_toString]
  constructor
  · intro read
    rw [FieldPath.read] at read
    split at read
    · cases read
    · obtain ⟨_, found, ⟨⟩⟩ := map_eq_ok_iff.mp read
      obtain ⟨idents, rfl⟩ := readFieldNames_eq_ok_iff.mp found
      obtain ⟨nonempty, -, joined⟩ := Text.pieces_eq_iff.mp (rfl : Text.pieces '.' cs = _)
      refine ⟨⟨by simpa using nonempty, ?_⟩, ?_⟩
      · simpa using idents
      · simpa [Function.comp_def] using joined
  · rintro ⟨wellFormed, rfl⟩
    have nonempty := toString_ne_nil wellFormed
    rw [toList_toString] at nonempty
    obtain ⟨some, idents⟩ := wellFormed
    have cut : Text.pieces '.' (['.'].intercalate (names.map String.toList)) =
        names.map String.toList := by
      refine Text.pieces_eq_iff.mpr ⟨by simpa using some, fun piece listed => ?_, rfl⟩
      obtain ⟨name, named, rfl⟩ := List.mem_map.mp listed
      exact not_mem_identifier (idents name named) (by decide) (by decide)
    rw [FieldPath.read, if_neg nonempty, map_eq_ok_iff, cut]
    refine ⟨names, readFieldNames_eq_ok_iff.mpr ⟨?_, by simp [Function.comp_def]⟩, rfl⟩
    intro piece listed
    obtain ⟨name, named, rfl⟩ := List.mem_map.mp listed
    exact idents name named

end FieldPath

namespace Segment

/-- What is written between the braces of a variable. -/
def innerText (path : FieldPath) (pattern : Option String) : List Char :=
  path.toString.toList ++ pattern.elim [] ('=' :: ·.toList)

theorem toList_render_capture (path : FieldPath) (pattern : Option String) :
    (capture path pattern).render.toList = '{' :: (innerText path pattern ++ ['}']) := by
  cases pattern <;> simp [render, innerText]

theorem wellFormed_capture_iff {path : FieldPath} {pattern : Option String} :
    (capture path pattern).WellFormed ↔ path.WellFormed ∧
      ∀ text ∈ pattern, text ≠ "" ∧ ∀ c ∈ text.toList, c ∉ ['{', '}'] :=
  and_assoc.symm

/-- There is no brace between the braces of a well-formed variable. -/
theorem not_mem_innerText {path : FieldPath} {pattern : Option String}
    (wellFormed : (capture path pattern).WellFormed) :
    '{' ∉ innerText path pattern ∧ '}' ∉ innerText path pattern := by
  obtain ⟨⟨-, idents⟩, clean⟩ := wellFormed_capture_iff.mp wellFormed
  have inPath (c : Char) (brace : c ∈ ['{', '}']) : c ∉ path.toString.toList := by
    have braces : c = '{' ∨ c = '}' := by simpa using brace
    rcases braces with rfl | rfl
    · exact FieldPath.not_mem_toString idents (by decide) (by decide) (by decide)
    · exact FieldPath.not_mem_toString idents (by decide) (by decide) (by decide)
  have inPattern (c : Char) (brace : c ∈ ['{', '}']) :
      c ∉ pattern.elim [] ('=' :: ·.toList) := by
    cases pattern with
    | none => simp
    | some text =>
      intro mem
      rcases List.mem_cons.mp mem with rfl | mem
      · simp at brace
      · exact (clean text rfl).2 c mem brace
  constructor <;>
    exact fun mem => (List.mem_append.mp mem).elim (inPath _ (by simp)) (inPattern _ (by simp))

/-- The first `=` between the braces of a variable is the one behind its path. -/
theorem cutFirst_innerText {path : FieldPath} (wellFormed : path.WellFormed)
    (pattern : Option String) :
    Text.cutFirst '=' (innerText path pattern) =
      pattern.map fun text => (path.toString.toList, text.toList) := by
  have noEquals : '=' ∉ path.toString.toList :=
    FieldPath.not_mem_toString wellFormed.2 (by decide) (by decide) (by decide)
  cases pattern with
  | none => exact Text.cutFirst_eq_none_iff.mpr (by simpa [innerText] using noEquals)
  | some text => exact Text.cutFirst_eq_some_iff.mpr ⟨noEquals, rfl⟩

theorem readVariable_eq_ok_iff {offset : Nat} {inner : List Char} {segment : Segment}
    (opens : '{' ∉ inner) (shuts : '}' ∉ inner) :
    Template.readVariable offset inner = .ok segment ↔
      ∃ path pattern, segment = capture path pattern ∧ segment.WellFormed ∧
        innerText path pattern = inner := by
  constructor
  · intro read
    rw [Template.readVariable] at read
    split at read
    · obtain ⟨path, found, ⟨⟩⟩ := bind_eq_ok_iff.mp read
      obtain ⟨wellFormed, rfl⟩ := FieldPath.read_eq_ok_iff.mp found
      exact ⟨path, none, rfl, wellFormed_capture_iff.mpr ⟨wellFormed, by simp⟩, by simp [innerText]⟩
    · next front back cut =>
      obtain ⟨-, rfl⟩ := Text.cutFirst_eq_some_iff.mp cut
      split at read
      · cases read
      · next nonempty =>
        obtain ⟨path, found, ⟨⟩⟩ := bind_eq_ok_iff.mp read
        obtain ⟨wellFormed, rfl⟩ := FieldPath.read_eq_ok_iff.mp found
        refine ⟨path, some (String.ofList back), rfl, ?_, by simp [innerText]⟩
        refine wellFormed_capture_iff.mpr ⟨wellFormed, ?_⟩
        rintro _ ⟨⟩
        simp only [List.mem_append, List.mem_cons, not_or] at opens shuts
        refine ⟨by simpa using nonempty, fun c mem brace => ?_⟩
        rw [String.toList_ofList] at mem
        simp only [List.mem_cons, List.not_mem_nil, or_false] at brace
        rcases brace with rfl | rfl
        · exact opens.2.2 mem
        · exact shuts.2.2 mem
  · rintro ⟨path, pattern, rfl, wellFormed, rfl⟩
    obtain ⟨pathOk, clean⟩ := wellFormed_capture_iff.mp wellFormed
    have read (at' : Nat) : FieldPath.read at' path.toString.toList = .ok path :=
      FieldPath.read_eq_ok_iff.mpr ⟨pathOk, rfl⟩
    rw [Template.readVariable, cutFirst_innerText pathOk]
    cases pattern with
    | none =>
      have whole : innerText path none = path.toString.toList := by simp [innerText]
      simp only [Option.map_none, whole, read]
      rfl
    | some text =>
      have nonempty : text.toList ≠ [] := by simpa using (clean text rfl).1
      simp only [Option.map_some, if_neg nonempty, read, String.ofList_toList]
      rfl

/-- The text of a literal: no character of it means anything in a template. -/
theorem plain_of_wellFormed_literal {text : String} (wellFormed : (literal text).WellFormed)
    {c : Char} (reserved : c ∈ ['/', ':', '{', '}', '*']) : c ∉ text.toList :=
  fun mem => wellFormed.2 c mem reserved

/-- A well-formed segment is written without slashes and colons outside of braces. -/
theorem closes_render {segment : Segment} (wellFormed : segment.WellFormed) {stop : Char}
    (stops : stop = '/' ∨ stop = ':') : Template.Closes stop 0 segment.render.toList := by
  cases segment with
  | literal text =>
    have plain := @plain_of_wellFormed_literal text wellFormed
    refine (Template.closes_of_plain (plain (by simp)) (plain (by simp))).mpr (plain ?_)
    rcases stops with rfl | rfl <;> simp
  | capture path pattern =>
    obtain ⟨opens, shuts⟩ := not_mem_innerText wellFormed
    rw [toList_render_capture]
    exact Template.closes_braced opens shuts
  | single => rcases stops with rfl | rfl <;> simp [render, Template.Closes]
  | multiple => rcases stops with rfl | rfl <;> simp [render, Template.Closes]

theorem render_ne_nil {segment : Segment} (wellFormed : segment.WellFormed) :
    segment.render.toList ≠ [] := by
  cases segment with
  | literal text => simpa [render] using wellFormed.1
  | capture path pattern => simp [toList_render_capture]
  | single => simp [render]
  | multiple => simp [render]

/-- The reader looks for braces with a test on each character. -/
theorem any_brace_eq_false_iff {inner : List Char} :
    (inner.any fun c => c == '{' || c == '}') = false ↔ '{' ∉ inner ∧ '}' ∉ inner := by
  simp only [List.any_eq_false, Bool.or_eq_true, beq_iff_eq, not_or]
  constructor
  · intro clean
    exact ⟨fun mem => (clean _ mem).1 rfl, fun mem => (clean _ mem).2 rfl⟩
  · rintro ⟨opens, shuts⟩ c mem
    exact ⟨fun same => opens (same ▸ mem), fun same => shuts (same ▸ mem)⟩

theorem any_reserved_eq_false_iff {text : List Char} :
    (text.any fun c => c == '{' || c == '}' || c == '*') = false ↔
      '{' ∉ text ∧ '}' ∉ text ∧ '*' ∉ text := by
  simp only [List.any_eq_false, Bool.or_eq_true, beq_iff_eq, not_or]
  constructor
  · intro clean
    exact ⟨fun mem => (clean _ mem).1.1 rfl, fun mem => (clean _ mem).1.2 rfl,
      fun mem => (clean _ mem).2 rfl⟩
  · rintro ⟨opens, shuts, stars⟩ c mem
    exact ⟨⟨fun same => opens (same ▸ mem), fun same => shuts (same ▸ mem)⟩,
      fun same => stars (same ▸ mem)⟩

/-- Where a text has no braces, the scans leave no slash and no colon in it. -/
theorem wellFormed_literal_of_closes {text : List Char} (nonempty : text ≠ [])
    (noSlash : Template.Closes '/' 0 text) (noColon : Template.Closes ':' 0 text)
    (clean : '{' ∉ text ∧ '}' ∉ text ∧ '*' ∉ text) :
    (literal (String.ofList text)).WellFormed := by
  obtain ⟨opens, shuts, stars⟩ := clean
  have slashes := (Template.closes_of_plain opens shuts).mp noSlash
  have colons := (Template.closes_of_plain opens shuts).mp noColon
  refine ⟨by simpa using nonempty, fun c mem reserved => ?_⟩
  rw [String.toList_ofList] at mem
  simp only [List.mem_cons, List.not_mem_nil, or_false] at reserved
  rcases reserved with rfl | rfl | rfl | rfl | rfl <;> contradiction

theorem render_of_readSegment {offset : Nat} {text : List Char} {segment : Segment}
    (nonempty : text ≠ []) (noSlash : Template.Closes '/' 0 text)
    (noColon : Template.Closes ':' 0 text)
    (read : Template.readSegment ⟨offset, text⟩ = .ok segment) :
    segment.WellFormed ∧ segment.render.toList = text := by
  rw [Template.readSegment] at read
  split at read
  · obtain rfl := Except.ok.inj read
    simp_all [WellFormed, render]
  · obtain rfl := Except.ok.inj read
    simp_all [WellFormed, render]
  · next inner same =>
    split at read
    · cases read
    · next closed =>
      obtain ⟨body, rfl⟩ := List.getLast?_eq_some_iff.mp (Decidable.not_not.mp closed)
      rw [List.dropLast_concat] at read
      split at read
      · cases read
      · next clean =>
        obtain ⟨opens, shuts⟩ := any_brace_eq_false_iff.mp (Bool.not_eq_true _ ▸ clean)
        obtain ⟨path, pattern, rfl, wellFormed, whole⟩ :=
          (readVariable_eq_ok_iff opens shuts).mp read
        exact ⟨wellFormed, by rw [toList_render_capture, whole, ← same]⟩
  · split at read
    · cases read
    · next clean =>
      obtain rfl := Except.ok.inj read
      have plain := any_reserved_eq_false_iff.mp (Bool.not_eq_true _ ▸ clean)
      exact ⟨wellFormed_literal_of_closes nonempty noSlash noColon plain, by simp [render]⟩

theorem readSegment_render {segment : Segment} (wellFormed : segment.WellFormed) (offset : Nat) :
    Template.readSegment ⟨offset, segment.render.toList⟩ = .ok segment := by
  cases segment with
  | literal text =>
    have plain := @plain_of_wellFormed_literal text wellFormed
    have opens : '{' ∉ text.toList := plain (by simp)
    have stars : '*' ∉ text.toList := plain (by simp)
    have clean := any_reserved_eq_false_iff.mpr ⟨opens, plain (by simp), stars⟩
    rw [Template.readSegment]
    simp only [render]
    split
    · next same => exact absurd (same ▸ List.mem_cons_self) stars
    · next same => exact absurd (same ▸ List.mem_cons_self) stars
    · next same => exact absurd (same ▸ List.mem_cons_self) opens
    · simp [clean]
  | capture path pattern =>
    obtain ⟨opens, shuts⟩ := not_mem_innerText wellFormed
    have clean := any_brace_eq_false_iff.mpr ⟨opens, shuts⟩
    have read : Template.readVariable offset (innerText path pattern) =
        .ok (capture path pattern) :=
      (readVariable_eq_ok_iff opens shuts).mpr ⟨path, pattern, rfl, wellFormed, rfl⟩
    simp [toList_render_capture, Template.readSegment, clean, read]
  | single => rfl
  | multiple => rfl

/-- A component without slashes and colons outside of braces is read as the well-formed segment that
it is the written form of, if there is one. -/
theorem readSegment_eq_ok_iff {offset : Nat} {text : List Char} {segment : Segment}
    (nonempty : text ≠ []) (noSlash : Template.Closes '/' 0 text)
    (noColon : Template.Closes ':' 0 text) :
    Template.readSegment ⟨offset, text⟩ = .ok segment ↔
      segment.WellFormed ∧ segment.render.toList = text := by
  constructor
  · exact render_of_readSegment nonempty noSlash noColon
  · rintro ⟨wellFormed, rfl⟩
    exact readSegment_render wellFormed offset

end Segment

end HttpClientGen
