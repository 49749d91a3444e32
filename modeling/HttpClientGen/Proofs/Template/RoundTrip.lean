import HttpClientGen.Proofs.Template.Segments

/-!
# Templates are read back exactly

`Template.parse` accepts the written forms of well-formed templates and nothing else, and what it
reads is the template whose written form the text is. Offsets play no part in this: they are only
used where a text is refused.
-/

namespace HttpClientGen.Template

theorem find?_placeComponents_eq_none_iff (offset : Nat) {texts : List (List Char)} :
    (placeComponents offset texts).find? (·.text = []) = none ↔ ∀ text ∈ texts, text ≠ [] := by
  induction texts generalizing offset with
  | nil => simp [placeComponents]
  | cons text texts ih =>
    by_cases empty : text = [] <;> simp [placeComponents, empty, ih]

/-- The components of a path are the texts that the second scan cuts it into, none of them empty. -/
theorem splitComponents_eq_ok_iff {size offset : Nat} {path : List Char}
    {components : List Component} :
    splitComponents size offset path = .ok components ↔
      ∃ texts, cutComponents size 0 offset path = .ok texts ∧ (∀ text ∈ texts, text ≠ []) ∧
        components = placeComponents offset texts := by
  rw [splitComponents, bind_eq_ok_iff]
  refine exists_congr fun texts => and_congr_right fun _ => ?_
  rw [← find?_placeComponents_eq_none_iff offset]
  dsimp only
  split
  · next found => simp [found]
  · next found => simp [found, pure, Except.pure, eq_comm]

/-- `**` stands before the end if it stands first with something behind it, or later on. -/
theorem multiple_mem_dropLast_cons_iff {segment : Segment} {others : List Segment} :
    .multiple ∈ (segment :: others).dropLast ↔
      segment = .multiple ∧ others ≠ [] ∨ .multiple ∈ others.dropLast := by
  cases others <;> simp [eq_comm]

/-- Components are read as the segments they are the written forms of, `**` as the last one only. -/
theorem readSegments_eq_ok_iff {offset : Nat} {texts : List (List Char)} {segments : List Segment}
    (nonempty : ∀ text ∈ texts, text ≠ []) (noSlash : ∀ text ∈ texts, Closes '/' 0 text)
    (noColon : ∀ text ∈ texts, Closes ':' 0 text) :
    readSegments (placeComponents offset texts) = .ok segments ↔
      (∀ segment ∈ segments, segment.WellFormed) ∧ segments.map (·.render.toList) = texts ∧
        .multiple ∉ segments.dropLast := by
  induction texts generalizing offset segments with
  | nil =>
    cases segments <;> simp [placeComponents, readSegments]
  | cons text texts ih =>
    rw [List.forall_mem_cons] at nonempty noSlash noColon
    have first {segment : Segment} : readSegment ⟨offset, text⟩ = .ok segment ↔
        segment.WellFormed ∧ segment.render.toList = text :=
      Segment.readSegment_eq_ok_iff nonempty.1 noSlash.1 noColon.1
    have others (at' : Nat) {segments : List Segment} :
        readSegments (placeComponents at' texts) = .ok segments ↔
          (∀ segment ∈ segments, segment.WellFormed) ∧ segments.map (·.render.toList) = texts ∧
            .multiple ∉ segments.dropLast :=
      ih nonempty.2 noSlash.2 noColon.2
    have atEnd (at' : Nat) {segments : List Segment}
        (same : segments.map (·.render.toList) = texts) :
        placeComponents at' texts ≠ [] ↔ segments ≠ [] := by
      subst texts
      cases segments <;> simp [placeComponents]
    rw [placeComponents, readSegments]
    constructor
    · intro read
      obtain ⟨segment, here, read⟩ := bind_eq_ok_iff.mp read
      split at read
      · cases read
      · next placed =>
        obtain ⟨later, there, ⟨⟩⟩ := bind_eq_ok_iff.mp read
        obtain ⟨wellFormed, shown⟩ := first.mp here
        obtain ⟨allWellFormed, same, last⟩ := (others _).mp there
        rw [atEnd _ same] at placed
        refine ⟨List.forall_mem_cons.mpr ⟨wellFormed, allWellFormed⟩, ?_, ?_⟩
        · rw [List.map_cons, shown, same]
        · rw [multiple_mem_dropLast_cons_iff]
          exact not_or.mpr ⟨placed, last⟩
    · rintro ⟨wellFormed, same, last⟩
      cases segments with
      | nil => cases same
      | cons segment later =>
        obtain ⟨shown, same⟩ := List.cons.inj same
        rw [List.forall_mem_cons] at wellFormed
        rw [multiple_mem_dropLast_cons_iff, not_or, ← atEnd _ same] at last
        refine bind_eq_ok_iff.mpr ⟨segment, first.mpr ⟨wellFormed.1, shown⟩, ?_⟩
        rw [if_neg last.1]
        exact bind_eq_ok_iff.mpr ⟨later, (others _).mpr ⟨wellFormed.2, same, last.2⟩, rfl⟩

theorem toList_render (template : Template) :
    template.render.toList = '/' :: (['/'].intercalate (template.segments.map (·.render.toList)) ++
      verbText (template.verb.map String.toList)) := by
  obtain ⟨segments, verb⟩ := template
  cases verb <;> simp [render, verbText, String.toList_intercalate, Function.comp_def]

theorem verbAllowed_iff {verb : Option String} :
    (∀ text ∈ verb.map String.toList, VerbAllowed text) ↔
      ∀ text ∈ verb, text ≠ "" ∧ ∀ c ∈ text.toList, c ∉ ['/', '{', '}', ':'] := by
  cases verb <;> simp [VerbAllowed]

/-- What is read has the text as its written form: each scan gives its part of it. -/
theorem render_of_read {size : Nat} {cs : List Char} {template : Template}
    (done : read size cs = .ok template) :
    template.WellFormed ∧ template.render.toList = cs := by
  unfold read at done
  split at done
  · next rest =>
    obtain ⟨⟨path, verb⟩, split, done⟩ := bind_eq_ok_iff.mp done
    obtain ⟨components, placed, done⟩ := bind_eq_ok_iff.mp done
    obtain ⟨segments, read, ⟨⟩⟩ := bind_eq_ok_iff.mp done
    obtain ⟨pathClosed, rfl, allowed⟩ := splitVerb_eq_ok_iff.mp split
    obtain ⟨texts, cut, nonempty, rfl⟩ := splitComponents_eq_ok_iff.mp placed
    cases texts with
    | nil => exact absurd cut (cutComponents_ne_nil _ _ _ _)
    | cons first others =>
      obtain ⟨firstClosed, othersClosed, rfl⟩ := cutComponents_eq_ok_iff.mp cut
      have noSlash := List.forall_mem_cons.mpr ⟨firstClosed, othersClosed⟩
      have noColon := (closes_intercalate_iff (by decide) noSlash).mp pathClosed
      obtain ⟨wellFormed, same, last⟩ := (readSegments_eq_ok_iff nonempty noSlash noColon).mp read
      have verbBack : (verb.map String.ofList).map String.toList = verb := by
        simp [Function.comp_def]
      refine ⟨⟨?_, wellFormed, last, ?_⟩, ?_⟩
      · rintro rfl
        cases same
      · exact verbAllowed_iff.mp (verbBack.symm ▸ allowed)
      · rw [toList_render, same, verbBack]
  · cases done

/-- The written form of a well-formed template passes both scans and is read back. -/
theorem read_render {template : Template} (wellFormed : template.WellFormed) (size : Nat) :
    read size template.render.toList = .ok template := by
  obtain ⟨segments, verb⟩ := template
  obtain ⟨some, segmentsOk, last, verbOk⟩ := wellFormed
  have shown (P : List Char → Prop) (all : ∀ segment ∈ segments, P segment.render.toList) :
      ∀ text ∈ segments.map (·.render.toList), P text := by
    simpa using all
  have nonempty := shown (· ≠ []) fun segment listed => Segment.render_ne_nil (segmentsOk _ listed)
  have noSlash := shown (Closes '/' 0) fun segment listed =>
    Segment.closes_render (segmentsOk _ listed) (Or.inl rfl)
  have noColon := shown (Closes ':' 0) fun segment listed =>
    Segment.closes_render (segmentsOk _ listed) (Or.inr rfl)
  have split : splitVerb 0 1 (['/'].intercalate (segments.map (·.render.toList)) ++
      verbText (verb.map String.toList)) = .ok (_, _) :=
    splitVerb_eq_ok_iff.mpr ⟨(closes_intercalate_iff (by decide) noSlash).mpr noColon, rfl,
      verbAllowed_iff.mpr verbOk⟩
  have cut : cutComponents size 0 1 (['/'].intercalate (segments.map (·.render.toList))) =
      .ok (segments.map (·.render.toList)) := by
    cases segments with
    | nil => exact absurd rfl some
    | cons first others =>
      rw [List.map_cons, List.forall_mem_cons] at noSlash
      exact cutComponents_eq_ok_iff.mpr ⟨noSlash.1, noSlash.2, rfl⟩
  have components := splitComponents_eq_ok_iff.mpr ⟨_, cut, nonempty, rfl⟩
  have read : readSegments (placeComponents 1 (segments.map (·.render.toList))) = .ok segments :=
    (readSegments_eq_ok_iff nonempty noSlash noColon).mpr ⟨segmentsOk, rfl, last⟩
  rw [toList_render]
  refine bind_eq_ok_iff.mpr ⟨_, split, bind_eq_ok_iff.mpr ⟨_, components, ?_⟩⟩
  refine bind_eq_ok_iff.mpr ⟨_, read, ?_⟩
  simp [Function.comp_def, pure, Except.pure]

/-- A text is read as a template if and only if the template is well formed and the text is its
written form. -/
theorem parse_eq_ok_iff (text : String) (template : Template) :
    parse text = .ok template ↔ template.WellFormed ∧ template.render = text := by
  rw [parse, mapError_eq_ok_iff]
  constructor
  · intro read
    obtain ⟨wellFormed, same⟩ := render_of_read read
    exact ⟨wellFormed, String.toList_inj.mp same⟩
  · rintro ⟨wellFormed, rfl⟩
    exact read_render wellFormed _

end HttpClientGen.Template
