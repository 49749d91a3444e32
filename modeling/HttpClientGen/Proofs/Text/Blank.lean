import HttpClientGen.Text
import Mathlib.Data.List.DropRight
import Mathlib.Data.List.TakeWhile

/-!
# What trimming takes off

Trimming takes blanks off both ends of a text, and what is left neither starts nor ends with one.
There is only one text that can be left. Nothing is left of the texts that are all blank.
-/

namespace HttpClientGen.Text

/-- The text neither starts nor ends with white space. -/
def IsTrimmed (cs : List Char) : Prop :=
  (∀ c ∈ cs.head?, isBlank c = false) ∧ ∀ c ∈ cs.getLast?, isBlank c = false

-- The instances are named, for another one goes through all characters that there are.
instance (cs : List Char) : Decidable (IsTrimmed cs) :=
  @instDecidableAnd _ _ (Option.decidableForallMem cs.head?) (Option.decidableForallMem cs.getLast?)

/-- Only blanks are taken off the end of a text. -/
theorem exists_blanks_behind (cs : List Char) :
    ∃ back, cs = trimEnd cs ++ back ∧ ∀ c ∈ back, isBlank c = true := by
  refine ⟨cs.rtakeWhile isBlank, List.rdropWhile_append_rtakeWhile.symm, ?_⟩
  intro c listed
  exact List.mem_rtakeWhile_imp listed

theorem exists_blanks_around (cs : List Char) :
    ∃ front back, cs = front ++ trim cs ++ back ∧ (∀ c ∈ front, isBlank c = true) ∧
      ∀ c ∈ back, isBlank c = true := by
  have atStart : cs.takeWhile isBlank ++ trimStart cs = cs := List.takeWhile_append_dropWhile
  obtain ⟨back, atEnd, inBack⟩ := exists_blanks_behind (trimStart cs)
  refine ⟨cs.takeWhile isBlank, back, ?_, ?_, inBack⟩
  · rw [List.append_assoc, trim, ← atEnd, atStart]
  · intro c listed
    exact List.mem_takeWhile_imp listed

theorem mem_of_mem_trim {cs : List Char} {c : Char} (listed : c ∈ trim cs) : c ∈ cs := by
  obtain ⟨front, back, split, -⟩ := exists_blanks_around cs
  rw [split]
  exact List.mem_append_left back (List.mem_append_right front listed)

theorem trim_eq_nil_iff {cs : List Char} : trim cs = [] ↔ ∀ c ∈ cs, isBlank c = true := by
  constructor
  · intro none
    obtain ⟨front, back, split, inFront, inBack⟩ := exists_blanks_around cs
    rw [none, List.append_nil] at split
    rw [split]
    exact List.forall_mem_append.mpr ⟨inFront, inBack⟩
  · intro blank
    have start : cs.dropWhile isBlank = [] := List.dropWhile_eq_nil_iff.mpr blank
    rw [trim, trimStart, start]
    rfl

/-- A text that starts with something other than a blank is left as it is at its start, and the
blanks in front of it are taken off. -/
theorem trimStart_append {front cs : List Char} (blank : ∀ c ∈ front, isBlank c = true)
    (starts : ∀ c ∈ cs.head?, isBlank c = false) : trimStart (front ++ cs) = cs := by
  rw [trimStart, List.dropWhile_append_of_pos blank]
  cases cs with
  | nil => rfl
  | cons c cs =>
    have visible : ¬isBlank c = true := by simpa using starts c rfl
    rw [List.dropWhile_cons_of_neg visible]

/-- The same at the end. -/
theorem trimEnd_append {cs back : List Char} (blank : ∀ c ∈ back, isBlank c = true)
    (ends : ∀ c ∈ cs.getLast?, isBlank c = false) : trimEnd (cs ++ back) = cs := by
  have turned : trimStart (back.reverse ++ cs.reverse) = cs.reverse :=
    trimStart_append (by simpa using blank) (by simpa using ends)
  rw [trimEnd, List.reverse_append]
  exact List.reverse_eq_iff.mpr turned

theorem head?_trimStart (cs : List Char) : ∀ c ∈ (trimStart cs).head?, isBlank c = false := by
  intro c first
  have stops := List.head?_dropWhile_not isBlank cs
  rw [← trimStart, first] at stops
  exact stops

theorem getLast?_trimEnd (cs : List Char) : ∀ c ∈ (trimEnd cs).getLast?, isBlank c = false := by
  intro c last
  rw [trimEnd, List.getLast?_reverse] at last
  exact head?_trimStart cs.reverse c last

/-- What is left of a text in front of the blanks at its end does not end with one itself, and
nothing else is such a part of the text. -/
theorem trimEnd_eq_iff {cs inner : List Char} :
    trimEnd cs = inner ↔ (∀ c ∈ inner.getLast?, isBlank c = false) ∧
      ∃ back, cs = inner ++ back ∧ ∀ c ∈ back, isBlank c = true := by
  constructor
  · rintro rfl
    exact ⟨getLast?_trimEnd cs, exists_blanks_behind cs⟩
  · rintro ⟨ends, back, rfl, blank⟩
    exact trimEnd_append blank ends

theorem trimEnd_eq_nil_iff {cs : List Char} : trimEnd cs = [] ↔ ∀ c ∈ cs, isBlank c = true := by
  rw [trimEnd_eq_iff]
  simp

theorem isTrimmed_trim (cs : List Char) : IsTrimmed (trim cs) := by
  constructor
  · intro c first
    obtain ⟨back, split, -⟩ := exists_blanks_behind (trimStart cs)
    obtain ⟨rest, same⟩ := List.head?_eq_some_iff.mp first
    apply head?_trimStart cs
    rw [split, ← trim, same]
    rfl
  · exact getLast?_trimEnd (trimStart cs)

/-- What is left of a text is the only trimmed text that stands in it between blanks. -/
theorem trim_eq_iff {cs inner : List Char} :
    trim cs = inner ↔ IsTrimmed inner ∧ ∃ front back, cs = front ++ inner ++ back ∧
      (∀ c ∈ front, isBlank c = true) ∧ ∀ c ∈ back, isBlank c = true := by
  constructor
  · rintro rfl
    exact ⟨isTrimmed_trim cs, exists_blanks_around cs⟩
  · rintro ⟨⟨starts, ends⟩, front, back, rfl, inFront, inBack⟩
    cases inner with
    | nil =>
      rw [trim_eq_nil_iff, List.append_nil]
      exact List.forall_mem_append.mpr ⟨inFront, inBack⟩
    | cons c inner =>
      have begins : ∀ d ∈ (c :: inner ++ back).head?, isBlank d = false := starts
      rw [trim, List.append_assoc, trimStart_append inFront begins]
      exact trimEnd_append inBack ends

theorem trim_of_isTrimmed {cs : List Char} (trimmed : IsTrimmed cs) : trim cs = cs :=
  trim_eq_iff.mpr ⟨trimmed, [], [], by simp, by simp, by simp⟩

theorem trim_trimStart (cs : List Char) : trim (trimStart cs) = trim cs := by
  rw [trim, trim, trimStart, trimStart, List.dropWhile_idempotent]

theorem trim_trimEnd (cs : List Char) : trim (trimEnd cs) = trim cs := by
  obtain ⟨behind, split, blank⟩ := exists_blanks_behind cs
  have itself : trim (trimEnd cs) = trim (trimEnd cs) := rfl
  obtain ⟨trimmed, front, back, same, inFront, inBack⟩ := trim_eq_iff.mp itself
  refine (trim_eq_iff.mpr ⟨trimmed, front, back ++ behind, ?_, inFront, ?_⟩).symm
  · rw [← List.append_assoc, ← same]
    exact split
  · exact List.forall_mem_append.mpr ⟨inBack, blank⟩

/-- A character that is no blank keeps the blanks on one side of it apart from the other side. -/
theorem trimStart_append_cons {front back : List Char} {c : Char} (visible : isBlank c = false) :
    trimStart (front ++ c :: back) = trimStart front ++ c :: back := by
  have stays : List.dropWhile isBlank (c :: back) = c :: back :=
    List.dropWhile_cons_of_neg (by simp [visible])
  rw [trimStart, List.dropWhile_append, stays]
  split
  · next none => rw [trimStart, List.isEmpty_iff.mp none, List.nil_append]
  · rfl

theorem trimEnd_append_cons {front back : List Char} {c : Char} (visible : isBlank c = false) :
    trimEnd (front ++ c :: back) = front ++ c :: trimEnd back := by
  have turned : trimStart (back.reverse ++ c :: front.reverse) =
      trimStart back.reverse ++ c :: front.reverse := trimStart_append_cons visible
  rw [trimEnd, trimEnd, List.reverse_append, List.reverse_cons, List.append_assoc,
    List.singleton_append]
  show (trimStart (back.reverse ++ c :: front.reverse)).reverse =
    front ++ c :: (trimStart back.reverse).reverse
  rw [turned]
  simp

/-- Around a character that is no blank, each side of a text is trimmed at its own end. -/
theorem trim_append_cons {front back : List Char} {c : Char} (visible : isBlank c = false) :
    trim (front ++ c :: back) = trimStart front ++ c :: trimEnd back := by
  rw [trim, trimStart_append_cons visible, trimEnd_append_cons visible]

end HttpClientGen.Text
