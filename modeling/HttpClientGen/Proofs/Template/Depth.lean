import HttpClientGen.Proofs.Template.Offsets

/-!
# Braces are counted once

Two scans count the braces of a template: one looks for the verb, the other one cuts the path into
components. What the first scan has found balanced is balanced for the second one, too, since both
count alike. Hence the second scan is never at a loss, and a template that is refused for its braces
is refused by the first one.
-/

namespace HttpClientGen

/-- A fault that is found by counting braces. -/
def SyntaxFault.IsUnbalanced : SyntaxFault → Prop
  | unbalancedClose => True
  | unbalancedOpen => True
  | _ => False

namespace Template

/-- The number of braces that are open behind a text: those that open less those that shut. -/
def openBraces (text : List Char) : Int :=
  text.count '{' - text.count '}'

section OpenBraces

variable {c : Char} {cs : List Char}

@[simp] theorem openBraces_nil : openBraces [] = 0 := rfl

theorem openBraces_cons_of_opens (opens : c = '{') : openBraces (c :: cs) = openBraces cs + 1 := by
  subst opens
  simp [openBraces]
  omega

theorem openBraces_cons_of_shuts (shuts : c = '}') : openBraces (c :: cs) = openBraces cs - 1 := by
  subst shuts
  simp [openBraces]
  omega

theorem openBraces_cons_of_plain (opens : c ≠ '{') (shuts : c ≠ '}') :
    openBraces (c :: cs) = openBraces cs := by
  simp [openBraces, opens, shuts]

end OpenBraces

/-- Where the stop character stands, more braces have been opened than shut. -/
theorem openBraces_pos_of_closes {stop : Char} {depth : Nat} {front back : List Char}
    (stopOpens : stop ≠ '{') (stopShuts : stop ≠ '}')
    (closes : Closes stop depth (front ++ stop :: back)) : 0 < depth + openBraces front := by
  induction front generalizing depth with
  | nil =>
    have inside := ((closes_cons_of_plain stopOpens stopShuts).mp closes).1
    have unclosed : depth ≠ 0 := fun closed => inside ⟨rfl, closed⟩
    rw [openBraces_nil]
    omega
  | cons c front ih =>
    rw [List.cons_append] at closes
    by_cases opens : c = '{'
    · have later := ih ((closes_cons_of_opens opens).mp closes)
      rw [openBraces_cons_of_opens opens]
      omega
    · by_cases shuts : c = '}'
      · obtain ⟨unclosed, closes⟩ := (closes_cons_of_shuts shuts).mp closes
        have later := ih closes
        rw [openBraces_cons_of_shuts shuts]
        omega
      · have later := ih ((closes_cons_of_plain opens shuts).mp closes).2
        rw [openBraces_cons_of_plain opens shuts]
        exact later

/-- A path that one scan has got through is cut into components by the other one. -/
theorem exists_cutComponents {stop : Char} {size depth offset : Nat} {path : List Char}
    (closes : Closes stop depth path) :
    ∃ texts, cutComponents size depth offset path = .ok texts := by
  induction path generalizing depth offset with
  | nil =>
    have closed : depth = 0 := closes
    exact ⟨[[]], by rw [cutComponents, if_pos closed]⟩
  | cons c path ih =>
    -- Whatever the character is, the rest is cut by itself and then put together with it.
    have goesOn {deeper next : Nat} (f : List (List Char) → List (List Char))
        (later : Closes stop deeper path) :
        ∃ texts, f <$> cutComponents size deeper next path = .ok texts := by
      obtain ⟨texts, cut⟩ := @ih deeper next later
      exact ⟨f texts, map_eq_ok_iff.mpr ⟨texts, cut, rfl⟩⟩
    rw [cutComponents]
    split
    · next opens => exact goesOn _ ((closes_cons_of_opens opens).mp closes)
    · next opens =>
      split
      · next shuts =>
        obtain ⟨unclosed, later⟩ := (closes_cons_of_shuts shuts).mp closes
        rw [if_neg unclosed]
        exact goesOn _ later
      · next shuts =>
        have later := ((closes_cons_of_plain opens shuts).mp closes).2
        split
        · exact goesOn _ later
        · exact goesOn _ later

/-- The only thing that can be wrong with a path whose braces are balanced is an empty component. -/
theorem splitComponents_error_of_closes {stop : Char} {size offset : Nat} {path : List Char}
    {issue : SyntaxIssue} (closes : Closes stop 0 path)
    (failed : splitComponents size offset path = .error issue) : issue.fault = .emptySegment := by
  obtain ⟨texts, cut⟩ : ∃ texts, cutComponents size 0 offset path = .ok texts :=
    exists_cutComponents closes
  rw [splitComponents] at failed
  rcases bind_eq_error_iff.mp failed with refused | ⟨_, _, failed⟩
  · rw [cut] at refused
    cases refused
  · dsimp only at failed
    split at failed
    · obtain rfl := Except.error.inj failed
      rfl
    · cases failed

section Segments

variable {offset : Nat} {issue : SyntaxIssue}

theorem not_isUnbalanced_of_readFieldNames {path : List Char} {names : List (List Char)}
    (failed : readFieldNames path offset names = .error issue) : ¬issue.fault.IsUnbalanced := by
  induction names generalizing offset with
  | nil => cases failed
  | cons name names ih =>
    rw [readFieldNames] at failed
    split at failed
    · rcases bind_eq_error_iff.mp failed with later | ⟨_, _, ⟨⟩⟩
      exact ih later
    · obtain rfl := Except.error.inj failed
      exact id

theorem not_isUnbalanced_of_readPath {path : List Char}
    (failed : FieldPath.read offset path = .error issue) : ¬issue.fault.IsUnbalanced := by
  rw [FieldPath.read] at failed
  split at failed
  · obtain rfl := Except.error.inj failed
    exact id
  · exact not_isUnbalanced_of_readFieldNames (map_eq_error_iff.mp failed)

theorem not_isUnbalanced_of_readVariable {inner : List Char}
    (failed : readVariable offset inner = .error issue) : ¬issue.fault.IsUnbalanced := by
  rw [readVariable] at failed
  split at failed
  · rcases bind_eq_error_iff.mp failed with refused | ⟨_, _, ⟨⟩⟩
    exact not_isUnbalanced_of_readPath refused
  · split at failed
    · obtain rfl := Except.error.inj failed
      exact id
    · rcases bind_eq_error_iff.mp failed with refused | ⟨_, _, ⟨⟩⟩
      exact not_isUnbalanced_of_readPath refused

theorem not_isUnbalanced_of_readSegment {component : Component}
    (failed : readSegment component = .error issue) : ¬issue.fault.IsUnbalanced := by
  rw [readSegment] at failed
  split at failed
  · cases failed
  · cases failed
  · split at failed
    · obtain rfl := Except.error.inj failed
      exact id
    · split at failed
      · obtain rfl := Except.error.inj failed
        exact id
      · exact not_isUnbalanced_of_readVariable failed
  · split at failed
    · obtain rfl := Except.error.inj failed
      exact id
    · cases failed

/-- Reading segments does not count braces. -/
theorem not_isUnbalanced_of_readSegments {components : List Component}
    (failed : readSegments components = .error issue) : ¬issue.fault.IsUnbalanced := by
  induction components with
  | nil => cases failed
  | cons component components ih =>
    rw [readSegments] at failed
    rcases bind_eq_error_iff.mp failed with refused | ⟨segment, -, failed⟩
    · exact not_isUnbalanced_of_readSegment refused
    · split at failed
      · obtain rfl := Except.error.inj failed
        exact id
      · rcases bind_eq_error_iff.mp failed with later | ⟨_, _, ⟨⟩⟩
        exact ih later

end Segments

section Components

variable {size offset : Nat} {path rest : List Char} {verb : Option (List Char)}
  {components : List Component}

theorem map_text_placeComponents (offset : Nat) (texts : List (List Char)) :
    (placeComponents offset texts).map (·.text) = texts := by
  induction texts generalizing offset with
  | nil => rfl
  | cons text texts ih => rw [placeComponents, List.map_cons, ih]

/-- The components are the path without the slashes between them, and have none of their own. -/
theorem intercalate_of_splitComponents
    (placed : splitComponents size offset path = .ok components) :
    ['/'].intercalate (components.map (·.text)) = path ∧
      ∀ component ∈ components, Closes '/' 0 component.text := by
  obtain ⟨texts, cut, -, rfl⟩ := splitComponents_eq_ok_iff.mp placed
  cases texts with
  | nil => exact absurd cut (cutComponents_ne_nil _ _ _ _)
  | cons first others =>
    obtain ⟨firstCloses, othersClose, joined⟩ := cutComponents_eq_ok_iff.mp cut
    constructor
    · rw [map_text_placeComponents]
      exact joined
    · intro component listed
      have oneOfThem : component.text ∈ first :: others := by
        rw [← map_text_placeComponents offset (first :: others)]
        exact List.mem_map_of_mem listed
      exact List.forall_mem_cons.mpr ⟨firstCloses, othersClose⟩ _ oneOfThem

/-- The components of the path that the first scan has cut off stand in the whole text. -/
theorem standsIn_of_splitVerb (split : splitVerb 0 1 rest = .ok (path, verb))
    (placed : splitComponents size 1 path = .ok components) :
    ∀ component ∈ components, component.StandsIn ('/' :: rest) := by
  obtain ⟨-, rfl, -⟩ := splitVerb_eq_ok_iff.mp split
  obtain ⟨texts, cut, -, rfl⟩ := splitComponents_eq_ok_iff.mp placed
  have slash : Text.byteLength ['/'] = 1 := by decide
  have ends : ∀ c ∈ (verbText verb).head?, c ∈ ['/', ':'] := by
    cases verb <;> simp [verbText]
  exact standsIn_of_cutComponents slash ends cut

theorem exists_around_of_standsIn {component : Component} {text : String}
    (stands : component.StandsIn text.toList) :
    ∃ before after : String, text = before ++ String.ofList component.text ++ after ∧
      before.utf8ByteSize = component.offset := by
  obtain ⟨before, behind, split, starts, after, same, -⟩ := stands
  refine ⟨String.ofList before, String.ofList after, ?_, ?_⟩
  · rw [← String.toList_inj, split, same]
    simp
  · rw [← Text.byteLength_toList, String.toList_ofList]
    exact starts

end Components

/-- After the first scan nothing else finds fault with the braces. -/
theorem read_unbalanced_iff {size : Nat} {rest : List Char} {issue : SyntaxIssue}
    (unbalanced : issue.fault.IsUnbalanced) :
    read size ('/' :: rest) = .error issue ↔ splitVerb 0 1 rest = .error issue := by
  constructor
  · intro failed
    rcases bind_eq_error_iff.mp failed with refused | ⟨⟨path, verb⟩, split, later⟩
    · exact refused
    · obtain ⟨closes, -, -⟩ := splitVerb_eq_ok_iff.mp split
      rcases bind_eq_error_iff.mp later with refused | ⟨components, -, later⟩
      · rw [splitComponents_error_of_closes closes refused] at unbalanced
        exact unbalanced.elim
      · rcases bind_eq_error_iff.mp later with refused | ⟨_, _, ⟨⟩⟩
        exact absurd unbalanced (not_isUnbalanced_of_readSegments refused)
  · intro refused
    exact bind_eq_error_iff.mpr (Or.inl refused)

theorem parse_eq_error_iff {text : String} {issue : SyntaxIssue} :
    parse text = .error (issue.inText text) ↔
      read (Text.byteLength text.toList) text.toList = .error issue := by
  rw [parse, mapError_eq_error_iff]
  constructor
  · rintro ⟨⟨offset, fault⟩, failed, same⟩
    obtain ⟨-, rfl, rfl⟩ := SyntaxError.mk.inj same
    exact failed
  · intro failed
    exact ⟨issue, failed, rfl⟩

/-- For a text that starts with a slash: if the first scan succeeds, the second one does not find
fault with the braces of the path, it cuts the path at slashes outside of braces and nowhere else,
and each component stands where it is said to stand. So the faults with braces are those that the
first scan finds. -/
theorem unbalanced_found_by_splitVerb (rest : String) :
    (∀ path verb, splitVerb 0 1 rest.toList = .ok (path, verb) → ∀ size,
      (∀ issue, splitComponents size 1 path = .error issue → ¬issue.fault.IsUnbalanced) ∧
      ∀ components, splitComponents size 1 path = .ok components →
        ['/'].intercalate (components.map (·.text)) = path ∧
        ∀ component ∈ components,
          (∃ before after : String,
            "/" ++ rest = before ++ String.ofList component.text ++ after ∧
              before.utf8ByteSize = component.offset) ∧
          ∀ front back, component.text = front ++ '/' :: back → 0 < openBraces front) ∧
    ∀ offset fault, fault.IsUnbalanced →
      (parse ("/" ++ rest) = .error ⟨"/" ++ rest, offset, fault⟩ ↔
        splitVerb 0 1 rest.toList = .error ⟨offset, fault⟩) := by
  have slash : ("/" ++ rest).toList = '/' :: rest.toList := String.toList_append
  constructor
  · intro path verb split size
    obtain ⟨closes, -, -⟩ := splitVerb_eq_ok_iff.mp split
    constructor
    · intro issue refused
      rw [splitComponents_error_of_closes closes refused]
      exact id
    · intro components placed
      obtain ⟨joined, noSlash⟩ := intercalate_of_splitComponents placed
      refine ⟨joined, fun component listed => ⟨?_, ?_⟩⟩
      · have stands : component.StandsIn ("/" ++ rest).toList := by
          rw [slash]
          exact standsIn_of_splitVerb split placed component listed
        exact exists_around_of_standsIn stands
      · intro front back same
        have deep : Closes '/' 0 (front ++ '/' :: back) := same ▸ noSlash component listed
        simpa using openBraces_pos_of_closes (by decide) (by decide) deep
  · intro offset fault unbalanced
    have parsed := @parse_eq_error_iff ("/" ++ rest) ⟨offset, fault⟩
    rw [slash, read_unbalanced_iff unbalanced] at parsed
    exact parsed

/-- The slash and the colon between the braces cut nothing, and `ö` and `ß` take two bytes each. -/
example : splitVerb 0 1 "größe/{name=a:b/*}:v".toList =
      .ok ("größe/{name=a:b/*}".toList, some ['v']) ∧
    splitComponents 24 1 "größe/{name=a:b/*}".toList =
      .ok [⟨1, "größe".toList⟩, ⟨9, "{name=a:b/*}".toList⟩] := by
  exact ⟨rfl, rfl⟩

end Template

end HttpClientGen
