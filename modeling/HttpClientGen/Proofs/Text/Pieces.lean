import HttpClientGen.Text

/-!
# What cutting a text gives

The pieces of a text are the only list of texts without the separator that is the text again when
the separator is put between them.
-/

namespace HttpClientGen.Text

variable {sep : Char}

theorem pieces_eq_splitOn (cs : List Char) : pieces sep cs = cs.splitOn sep := by
  induction cs with
  | nil => simp [pieces]
  | cons c cs ih =>
    have nonempty := List.splitOn_ne_nil sep cs
    rw [pieces, List.splitOn_cons_eq_if_modifyHead, ih]
    by_cases same : c = sep
    · simp [same]
    · cases split : cs.splitOn sep with
      | nil => exact absurd split nonempty
      | cons piece others => simp [same]

theorem pieces_ne_nil (cs : List Char) : pieces sep cs ≠ [] := by
  rw [pieces_eq_splitOn]
  exact List.splitOn_ne_nil sep cs

theorem not_mem_of_mem_pieces {cs piece : List Char} (listed : piece ∈ pieces sep cs) :
    sep ∉ piece := by
  induction cs generalizing piece with
  | nil =>
    obtain rfl : piece = [] := by simpa [pieces] using listed
    simp
  | cons c cs ih =>
    rw [pieces] at listed
    split at listed
    · rcases List.mem_cons.mp listed with rfl | later
      · simp
      · exact ih later
    · next differ =>
      split at listed
      · next none => exact absurd none (pieces_ne_nil cs)
      · next first others cut =>
        rcases List.mem_cons.mp listed with rfl | later
        · have clean : sep ∉ first := ih (by simp [cut])
          simp [clean, Ne.symm differ]
        · exact ih (by simp [cut, later])

theorem pieces_eq_iff {cs : List Char} {parts : List (List Char)} :
    pieces sep cs = parts ↔
      parts ≠ [] ∧ (∀ part ∈ parts, sep ∉ part) ∧ [sep].intercalate parts = cs := by
  constructor
  · rintro rfl
    refine ⟨pieces_ne_nil cs, fun part listed => not_mem_of_mem_pieces listed, ?_⟩
    rw [pieces_eq_splitOn, List.intercalate_splitOn]
  · rintro ⟨nonempty, clean, rfl⟩
    rw [pieces_eq_splitOn, List.splitOn_intercalate sep clean nonempty]

/-- The pieces hold the characters of the text other than the separator. -/
theorem forall_mem_pieces_iff {p : Char → Prop} {cs : List Char} :
    (∀ piece ∈ pieces sep cs, ∀ c ∈ piece, p c) ↔ ∀ c ∈ cs, c ≠ sep → p c := by
  induction cs with
  | nil => simp [pieces]
  | cons c cs ih =>
    rw [pieces, List.forall_mem_cons, ← ih]
    split
    · next same => simp [same]
    · next differ =>
      split
      · next none => exact absurd none (pieces_ne_nil cs)
      · next piece others cut => simp [cut, differ, and_assoc]

theorem cutFirst_eq_none_iff {cs : List Char} : cutFirst sep cs = none ↔ sep ∉ cs := by
  induction cs with
  | nil => simp [cutFirst]
  | cons c cs ih =>
    by_cases same : c = sep
    · simp [cutFirst, same]
    · simp [cutFirst, same, ih, Ne.symm same]

theorem cutFirst_eq_some_iff {cs before after : List Char} :
    cutFirst sep cs = some (before, after) ↔ sep ∉ before ∧ cs = before ++ sep :: after := by
  induction cs generalizing before with
  | nil => simp [cutFirst]
  | cons c cs ih =>
    cases before with
    | nil => by_cases same : c = sep <;> simp [cutFirst, same]
    | cons b before =>
      by_cases same : c = sep
      · simp only [cutFirst, same, if_true, Option.some.injEq, Prod.mk.injEq, List.mem_cons,
          List.cons_append, List.cons.injEq]
        constructor
        · rintro ⟨⟨⟩, -⟩
        · rintro ⟨clean, rfl, -⟩
          exact absurd (Or.inl rfl) clean
      · simp only [cutFirst, same, if_false, Option.map_eq_some_iff, Prod.exists, Prod.mk.injEq,
          List.cons.injEq, List.mem_cons, not_or, List.cons_append]
        constructor
        · rintro ⟨front, back, cut, ⟨rfl, rfl⟩, rfl⟩
          obtain ⟨clean, rfl⟩ := ih.mp cut
          exact ⟨⟨Ne.symm same, clean⟩, rfl, rfl⟩
        · rintro ⟨⟨-, clean⟩, rfl, rfl⟩
          exact ⟨before, after, ih.mpr ⟨clean, rfl⟩, ⟨rfl, rfl⟩, rfl⟩

end HttpClientGen.Text
