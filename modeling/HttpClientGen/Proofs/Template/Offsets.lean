import HttpClientGen.Binding
import HttpClientGen.Proofs.Template.RoundTrip
import HttpClientGen.Proofs.Text.Pieces

/-!
# Where a fault is found

The offset of a refusal falls between two characters of the refused text, and the text at fault
begins there. Offsets are counted in bytes by four readers, each of which knows only its own part of
the text; so each of them is described with what stands in front of its part and behind it.
-/

namespace HttpClientGen

namespace Text

@[simp] theorem byteLength_nil : byteLength [] = 0 := rfl

@[simp] theorem byteLength_cons (c : Char) (cs : List Char) :
    byteLength (c :: cs) = c.utf8Size + byteLength cs := rfl

@[simp] theorem byteLength_append (front back : List Char) :
    byteLength (front ++ back) = byteLength front + byteLength back := by
  induction front with
  | nil => simp
  | cons c front ih => simp [ih, Nat.add_assoc]

theorem byteLength_toList (text : String) : byteLength text.toList = text.utf8ByteSize := by
  have ofList (cs : List Char) : byteLength cs = (String.ofList cs).utf8ByteSize := by
    induction cs with
    | nil => rfl
    | cons c cs ih => simp [String.ofList_cons, ih]
  simpa using ofList text.toList

end Text

/-- A part stands at the front of a text and ends at one of the characters `stops`, or at the end of
the text. -/
def Delimited (stops : List Char) (part text : List Char) : Prop :=
  ∃ rest, text = part ++ rest ∧ ∀ c ∈ rest.head?, c ∈ stops

/-- What stands at the place of a fault, and behind it. -/
def SyntaxFault.StandsAt : SyntaxFault → List Char → Prop
  | missingSlash, text => text.head? ≠ some '/'
  | unbalancedClose, text => text.head? = some '}'
  | unbalancedOpen, text => text = []
  | emptyVerb, text => text = [':']
  | invalidVerb verb, text => text = verb.toList
  | emptySegment, text => Delimited ['/', ':'] [] text
  | unclosedVariable component, text => Delimited ['/', ':'] component.toList text
  | nestedVariable, text => text.head? = some '{'
  | emptyPattern, text => text.head? = some '}'
  | emptyFieldPath, text => text.head? = some '}' ∨ text.head? = some '='
  | invalidFieldName name _, text => Delimited ['.', '=', '}'] name.toList text
  | invalidLiteral component, text => Delimited ['/', ':'] component.toList text
  | misplacedMultiple, text => Delimited ['/', ':'] ['*', '*'] text

/-- The offset of an issue falls between two characters of a text, and its fault stands there. -/
def SyntaxIssue.PointsInto (issue : SyntaxIssue) (text : List Char) : Prop :=
  ∃ before after, text = before ++ after ∧ Text.byteLength before = issue.offset ∧
    issue.fault.StandsAt after

section FieldPaths

variable {before tail : List Char} {offset : Nat} {issue : SyntaxIssue}

/-- A name that is refused is found behind the names before it. -/
theorem pointsInto_of_readFieldNames {path : List Char} {names : List (List Char)}
    (starts : Text.byteLength before = offset) (ends : ∀ c ∈ tail.head?, c ∈ ['.', '=', '}'])
    (failed : readFieldNames path offset names = .error issue) :
    issue.PointsInto (before ++ (['.'].intercalate names ++ tail)) := by
  induction names generalizing before offset with
  | nil => cases failed
  | cons name names ih =>
    rw [readFieldNames] at failed
    split at failed
    · rcases bind_eq_error_iff.mp failed with later | ⟨_, _, ⟨⟩⟩
      cases names with
      | nil => cases later
      | cons next others =>
        have place : Text.byteLength (before ++ (name ++ ['.'])) =
            offset + Text.byteLength name + 1 := by
          have dot : Char.utf8Size '.' = 1 := by decide
          simp only [Text.byteLength_append, Text.byteLength_cons, Text.byteLength_nil, starts, dot]
          omega
        simpa [List.intercalate_cons_cons] using ih place later
    · obtain rfl := Except.error.inj failed
      refine ⟨before, _, rfl, starts, ?_⟩
      cases names with
      | nil => exact ⟨tail, by simp, ends⟩
      | cons next others =>
        refine ⟨'.' :: (['.'].intercalate (next :: others) ++ tail), ?_, by simp⟩
        simp [List.intercalate_cons_cons]

/-- A field path that is refused stands in front of a sign that can end it. -/
theorem pointsInto_of_read {path : List Char} (starts : Text.byteLength before = offset)
    (ends : ∀ c ∈ tail.head?, c ∈ ['=', '}']) (shown : path ≠ [] ∨ tail ≠ [])
    (failed : FieldPath.read offset path = .error issue) :
    issue.PointsInto (before ++ (path ++ tail)) := by
  rw [FieldPath.read] at failed
  split at failed
  · next empty =>
    obtain rfl := Except.error.inj failed
    refine ⟨before, _, rfl, starts, ?_⟩
    cases tail with
    | nil => simp [empty] at shown
    | cons c tail =>
      have sign : c = '=' ∨ c = '}' := by simpa using ends c rfl
      subst path
      rcases sign with rfl | rfl
      · exact Or.inr rfl
      · exact Or.inl rfl
  · have joined : ['.'].intercalate (Text.pieces '.' path) = path :=
      (Text.pieces_eq_iff.mp rfl).2.2
    have names := map_eq_error_iff.mp failed
    rw [← joined]
    exact pointsInto_of_readFieldNames starts (fun c first => by simp [ends c first]) names

end FieldPaths

/-- A body selector is a field path that stands alone. -/
theorem BodySelector.pointsInto_of_parse {text : String} {error : SyntaxError}
    (failed : BodySelector.parse text = .error error) :
    error.template = text ∧ SyntaxIssue.PointsInto ⟨error.offset, error.fault⟩ text.toList := by
  rw [parse] at failed
  split at failed
  · cases failed
  · next nonempty =>
    split at failed
    · cases failed
    · obtain ⟨issue, refused, same⟩ := mapError_eq_error_iff.mp failed
      obtain rfl : issue.inText text = error := same
      have read : FieldPath.read 0 text.toList = .error issue := map_eq_error_iff.mp refused
      have points : issue.PointsInto ([] ++ (text.toList ++ [])) :=
        pointsInto_of_read rfl (by simp) (Or.inl (by simpa using nonempty)) read
      rw [List.nil_append, List.append_nil] at points
      exact ⟨rfl, points⟩

namespace Template

section Scans

variable {before tail : List Char} {depth offset size : Nat} {issue : SyntaxIssue}

/-- The verb that is refused begins behind its colon; a missing one is shown by the colon. -/
theorem pointsInto_of_readVerb {verb : List Char} (starts : Text.byteLength before = offset)
    (failed : readVerb offset verb = .error issue) :
    issue.PointsInto (before ++ ':' :: verb) := by
  rw [readVerb] at failed
  split at failed
  · next empty =>
    obtain rfl := Except.error.inj failed
    exact ⟨before, _, rfl, starts, by rw [empty]; rfl⟩
  · split at failed
    · obtain rfl := Except.error.inj failed
      have colon : Char.utf8Size ':' = 1 := by decide
      refine ⟨before ++ [':'], verb, by simp, by simp [starts, colon], ?_⟩
      exact String.toList_ofList.symm
    · cases failed

/-- A scan goes on behind a character. -/
theorem byteLength_step {c : Char} (starts : Text.byteLength before = offset) :
    Text.byteLength (before ++ [c]) = offset + c.utf8Size := by
  simp [starts]

theorem pointsInto_of_splitVerb {cs : List Char} (starts : Text.byteLength before = offset)
    (failed : splitVerb depth offset cs = .error issue) : issue.PointsInto (before ++ cs) := by
  induction cs generalizing before depth offset with
  | nil =>
    rw [splitVerb] at failed
    split at failed
    · cases failed
    · obtain rfl := Except.error.inj failed
      exact ⟨before, [], rfl, starts, rfl⟩
  | cons c cs ih =>
    have goesOn {deeper next : Nat} (size : c.utf8Size = next)
        (later : consPath c <$> splitVerb deeper (offset + next) cs = .error issue) :
        issue.PointsInto (before ++ c :: cs) := by
      subst size
      simpa using ih (byteLength_step starts) (map_eq_error_iff.mp later)
    rw [splitVerb] at failed
    split at failed
    · next opens => exact goesOn (by rw [opens]; rfl) failed
    · split at failed
      · next shuts =>
        split at failed
        · obtain rfl := Except.error.inj failed
          exact ⟨before, c :: cs, rfl, starts, by rw [shuts]; rfl⟩
        · exact goesOn (by rw [shuts]; rfl) failed
      · split at failed
        · next colon =>
          rw [colon.1]
          exact pointsInto_of_readVerb starts (map_eq_error_iff.mp failed)
        · exact goesOn rfl failed

theorem pointsInto_of_cutComponents {path : List Char} (starts : Text.byteLength before = offset)
    (whole : Text.byteLength (before ++ (path ++ tail)) = size)
    (failed : cutComponents size depth offset path = .error issue) :
    issue.PointsInto (before ++ (path ++ tail)) := by
  induction path generalizing before depth offset with
  | nil =>
    rw [cutComponents] at failed
    split at failed
    · cases failed
    · obtain rfl := Except.error.inj failed
      exact ⟨_, [], (List.append_nil _).symm, whole, rfl⟩
  | cons c path ih =>
    have goesOn {deeper next : Nat} (size' : c.utf8Size = next)
        (later : cutComponents size deeper (offset + next) path = .error issue) :
        issue.PointsInto (before ++ (c :: path ++ tail)) := by
      subst size'
      have same : Text.byteLength (before ++ [c] ++ (path ++ tail)) = size := by
        simpa using whole
      simpa using ih (byteLength_step starts) same later
    rw [cutComponents] at failed
    split at failed
    · next opens => exact goesOn (by rw [opens]; rfl) (map_eq_error_iff.mp failed)
    · split at failed
      · next shuts =>
        split at failed
        · obtain rfl := Except.error.inj failed
          exact ⟨before, _, rfl, starts, by rw [shuts]; rfl⟩
        · exact goesOn (by rw [shuts]; rfl) (map_eq_error_iff.mp failed)
      · split at failed
        · next slash => exact goesOn (by rw [slash.1]; rfl) (map_eq_error_iff.mp failed)
        · exact goesOn rfl (map_eq_error_iff.mp failed)

end Scans

/-- A component stands at its offset, and it ends at a slash, at a verb or at the end of the
text. -/
def Component.StandsIn (component : Component) (text : List Char) : Prop :=
  ∃ before after, text = before ++ after ∧ Text.byteLength before = component.offset ∧
    Delimited ['/', ':'] component.text after

section Components

variable {before tail text : List Char} {offset size : Nat} {issue : SyntaxIssue}
  {component : Component}

/-- Components are placed where they stand. -/
theorem standsIn_of_mem_placeComponents {texts : List (List Char)}
    (starts : Text.byteLength before = offset) (ends : ∀ c ∈ tail.head?, c ∈ ['/', ':'])
    (listed : component ∈ placeComponents offset texts) :
    component.StandsIn (before ++ (['/'].intercalate texts ++ tail)) := by
  induction texts generalizing before offset with
  | nil => cases listed
  | cons text texts ih =>
    rw [placeComponents] at listed
    rcases List.mem_cons.mp listed with rfl | later
    · refine ⟨before, _, rfl, starts, ?_⟩
      cases texts with
      | nil => exact ⟨tail, by simp, ends⟩
      | cons next others =>
        refine ⟨'/' :: (['/'].intercalate (next :: others) ++ tail), ?_, by simp⟩
        simp [List.intercalate_cons_cons]
    · cases texts with
      | nil => cases later
      | cons next others =>
        have place : Text.byteLength (before ++ (text ++ ['/'])) =
            offset + Text.byteLength text + 1 := by
          have slash : Char.utf8Size '/' = 1 := by decide
          simp only [Text.byteLength_append, Text.byteLength_cons, Text.byteLength_nil, starts,
            slash]
          omega
        simpa [List.intercalate_cons_cons] using ih place later

theorem pointsInto_of_readVariable {inner : List Char} (starts : Text.byteLength before = offset)
    (failed : readVariable offset inner = .error issue) :
    issue.PointsInto (before ++ '{' :: (inner ++ '}' :: tail)) := by
  have brace : Char.utf8Size '{' = 1 := by decide
  have inside : Text.byteLength (before ++ ['{']) = offset + 1 := by simp [starts, brace]
  rw [readVariable] at failed
  split at failed
  · rcases bind_eq_error_iff.mp failed with refused | ⟨_, _, ⟨⟩⟩
    simpa using @pointsInto_of_read _ ('}' :: tail) _ _ _ inside (by simp) (by simp) refused
  · next path pattern cut =>
    obtain ⟨-, rfl⟩ := Text.cutFirst_eq_some_iff.mp cut
    split at failed
    · next empty =>
      obtain rfl := Except.error.inj failed
      have equals : Char.utf8Size '=' = 1 := by decide
      refine ⟨before ++ '{' :: (path ++ ['=']), '}' :: tail, by simp [empty], ?_, rfl⟩
      simp only [Text.byteLength_append, Text.byteLength_cons, Text.byteLength_nil, starts, brace,
        equals]
      omega
    · rcases bind_eq_error_iff.mp failed with refused | ⟨_, _, ⟨⟩⟩
      simpa using @pointsInto_of_read _ ('=' :: (pattern ++ '}' :: tail)) _ _ _ inside (by simp)
        (by simp) refused

theorem pointsInto_of_readSegment (stands : component.StandsIn text)
    (failed : readSegment component = .error issue) : issue.PointsInto text := by
  obtain ⟨before, after, rfl, starts, delimited⟩ := stands
  have itself : Delimited ['/', ':'] (String.ofList component.text).toList after := by
    rwa [String.toList_ofList]
  obtain ⟨tail, rfl, -⟩ := delimited
  rw [readSegment] at failed
  split at failed
  · cases failed
  · cases failed
  · next inner same =>
    split at failed
    · obtain rfl := Except.error.inj failed
      exact ⟨before, _, rfl, starts, itself⟩
    · next closed =>
      split at failed
      · obtain rfl := Except.error.inj failed
        exact ⟨before, _, rfl, starts, by rw [same]; rfl⟩
      · obtain ⟨body, rfl⟩ := List.getLast?_eq_some_iff.mp (Decidable.not_not.mp closed)
        rw [List.dropLast_concat] at failed
        have points := @pointsInto_of_readVariable _ tail _ _ _ starts failed
        simpa [same] using points
  · split at failed
    · obtain rfl := Except.error.inj failed
      exact ⟨before, _, rfl, starts, itself⟩
    · cases failed

/-- Only `**` is read as any number of segments. -/
theorem text_of_readSegment_eq_multiple (read : readSegment component = .ok .multiple) :
    component.text = ['*', '*'] := by
  rw [readSegment] at read
  split at read
  · cases read
  · next same => exact same
  · split at read
    · cases read
    · split at read
      · cases read
      · rw [readVariable] at read
        split at read
        · obtain ⟨_, _, ⟨⟩⟩ := bind_eq_ok_iff.mp read
        · split at read
          · cases read
          · obtain ⟨_, _, ⟨⟩⟩ := bind_eq_ok_iff.mp read
  · split at read
    · cases read
    · cases read

theorem pointsInto_of_readSegments {components : List Component}
    (stand : ∀ component ∈ components, component.StandsIn text)
    (failed : readSegments components = .error issue) : issue.PointsInto text := by
  induction components with
  | nil => cases failed
  | cons component components ih =>
    obtain ⟨here, there⟩ := List.forall_mem_cons.mp stand
    rw [readSegments] at failed
    rcases bind_eq_error_iff.mp failed with refused | ⟨segment, read, failed⟩
    · exact pointsInto_of_readSegment here refused
    · split at failed
      · next misplaced =>
        obtain rfl := Except.error.inj failed
        obtain ⟨before, after, rfl, starts, delimited⟩ := here
        rw [misplaced.1] at read
        rw [text_of_readSegment_eq_multiple read] at delimited
        exact ⟨before, after, rfl, starts, delimited⟩
      · rcases bind_eq_error_iff.mp failed with later | ⟨_, _, ⟨⟩⟩
        exact ih there later

/-- The components stand in the text in front of which their path was cut off. -/
theorem standsIn_of_cutComponents {path : List Char} {texts : List (List Char)}
    (starts : Text.byteLength before = offset) (ends : ∀ c ∈ tail.head?, c ∈ ['/', ':'])
    (cut : cutComponents size 0 offset path = .ok texts) :
    ∀ component ∈ placeComponents offset texts,
      component.StandsIn (before ++ (path ++ tail)) := by
  intro component listed
  cases texts with
  | nil => exact absurd cut (cutComponents_ne_nil _ _ _ _)
  | cons first others =>
    obtain ⟨-, -, rfl⟩ := cutComponents_eq_ok_iff.mp cut
    exact standsIn_of_mem_placeComponents starts ends listed

theorem pointsInto_of_splitComponents {path : List Char}
    (starts : Text.byteLength before = offset) (ends : ∀ c ∈ tail.head?, c ∈ ['/', ':'])
    (whole : Text.byteLength (before ++ (path ++ tail)) = size)
    (failed : splitComponents size offset path = .error issue) :
    issue.PointsInto (before ++ (path ++ tail)) := by
  rw [splitComponents] at failed
  rcases bind_eq_error_iff.mp failed with refused | ⟨texts, cut, failed⟩
  · exact pointsInto_of_cutComponents starts whole refused
  · dsimp only at failed
    split at failed
    · next component found =>
      obtain rfl := Except.error.inj failed
      have empty : component.text = [] := by simpa using List.find?_some found
      have stands := standsIn_of_cutComponents starts ends cut component
        (List.mem_of_find?_eq_some found)
      obtain ⟨front, after, same, place, delimited⟩ := stands
      rw [empty] at delimited
      exact ⟨front, after, same, place, delimited⟩
    · cases failed

end Components

theorem pointsInto_of_read {size : Nat} {text : List Char} {issue : SyntaxIssue}
    (whole : Text.byteLength text = size) (failed : read size text = .error issue) :
    issue.PointsInto text := by
  unfold read at failed
  split at failed
  · next rest =>
    have slash : Text.byteLength ['/'] = 1 := by decide
    rcases bind_eq_error_iff.mp failed with refused | ⟨⟨path, verb⟩, split, later⟩
    · exact pointsInto_of_splitVerb slash refused
    · obtain ⟨-, rfl, -⟩ := splitVerb_eq_ok_iff.mp split
      have ends : ∀ c ∈ (verbText verb).head?, c ∈ ['/', ':'] := by
        cases verb <;> simp [verbText]
      rcases bind_eq_error_iff.mp later with refused | ⟨components, placed, later⟩
      · exact pointsInto_of_splitComponents slash ends whole refused
      · rcases bind_eq_error_iff.mp later with refused | ⟨_, _, ⟨⟩⟩
        obtain ⟨texts, cut, -, rfl⟩ := splitComponents_eq_ok_iff.mp placed
        exact pointsInto_of_readSegments (standsIn_of_cutComponents slash ends cut) refused
  · next noSlash =>
    obtain rfl := Except.error.inj failed
    refine ⟨[], text, rfl, rfl, fun first => ?_⟩
    obtain ⟨rest, rfl⟩ := List.head?_eq_some_iff.mp first
    exact noSlash rest rfl

theorem pointsInto_of_parse {text : String} {error : SyntaxError}
    (failed : parse text = .error error) :
    error.template = text ∧ SyntaxIssue.PointsInto ⟨error.offset, error.fault⟩ text.toList := by
  obtain ⟨issue, refused, same⟩ := mapError_eq_error_iff.mp failed
  obtain rfl : issue.inText text = error := same
  exact ⟨rfl, pointsInto_of_read rfl refused⟩

/-- A template or a body selector is refused with its own text and with an offset that lies in it,
between two characters; and the text at fault begins there. -/
theorem refusal_points_at_fault (text : String) (error : SyntaxError)
    (refused : parse text = .error error ∨ BodySelector.parse text = .error error) :
    error.template = text ∧ error.offset ≤ text.utf8ByteSize ∧
      ∃ before after : String, text = before ++ after ∧ before.utf8ByteSize = error.offset ∧
        error.fault.StandsAt after.toList := by
  have points : error.template = text ∧
      SyntaxIssue.PointsInto ⟨error.offset, error.fault⟩ text.toList := by
    rcases refused with ofTemplate | ofSelector
    · exact pointsInto_of_parse ofTemplate
    · exact BodySelector.pointsInto_of_parse ofSelector
  obtain ⟨itself, before, after, same, place, stands⟩ := points
  have split : text = String.ofList before ++ String.ofList after := by
    rw [← String.ofList_append, ← same, String.ofList_toList]
  have size : (String.ofList before).utf8ByteSize = error.offset := by
    rw [← Text.byteLength_toList, String.toList_ofList]
    exact place
  refine ⟨itself, ?_, String.ofList before, String.ofList after, split, size, ?_⟩
  · rw [split, String.utf8ByteSize_append]
    omega
  · rwa [String.toList_ofList]

/-- A name that is no identifier, behind letters that take two bytes each. -/
theorem refusal_points_at_fault_dotted :
    parse "/v1/größe/\x7ba.1\x7d" =
        .error ⟨"/v1/größe/\x7ba.1\x7d", 15, .invalidFieldName "1" "a.1"⟩ ∧
      ∃ before after : String, "/v1/größe/\x7ba.1\x7d" = before ++ after ∧
        before.utf8ByteSize = 15 ∧ Delimited ['.', '=', '}'] ['1'] after.toList := by
  have refused : parse "/v1/größe/\x7ba.1\x7d" =
      .error ⟨"/v1/größe/\x7ba.1\x7d", 15, .invalidFieldName "1" "a.1"⟩ := by
    rfl
  exact ⟨refused, (refusal_points_at_fault _ _ (Or.inl refused)).2.2⟩

end Template

end HttpClientGen
