import HttpClientGen.Descriptor.TypedField
import Mathlib.Data.List.Flatten
import Mathlib.Data.List.Forall2

/-!
# The tree of messages in a file

Messages are nested in each other. A message has its place below the messages around it, and the
places of a file come in the order in which a walk meets them that looks at a message before it looks
inside. The place settles the full name: the package and the names on the way down, with dots between
them.
-/

namespace HttpClientGen.Descriptor

/-- What holds of a message if it holds of all messages directly inside holds of all messages. -/
theorem Message.nestedInduction {P : Message → Prop}
    (step : ∀ message, (∀ inner ∈ message.nested, P inner) → P message) (message : Message) :
    P message := by
  refine @Message.rec P (fun messages => ∀ inner ∈ messages, P inner) ?_ ?_ ?_ message
  · exact fun _ _ _ _ _ _ _ _ _ inside => step _ inside
  · exact List.forall_mem_nil _
  · exact fun _ _ here later => List.forall_mem_cons.mpr ⟨here, later⟩

theorem withNestedAll_eq_flatMap (scope : String) (messages : List Message) :
    withNestedAll scope messages = messages.flatMap (Message.withNested scope) := by
  induction messages with
  | nil => rw [withNestedAll, List.flatMap_nil]
  | cons message messages ih => rw [withNestedAll, List.flatMap_cons, ih]

theorem Message.withNested_eq (scope : String) (message : Message) :
    message.withNested scope = ⟨scope, message⟩ ::
      message.nested.flatMap (Message.withNested (scopedName scope message.name)) := by
  cases message
  rw [withNested, withNestedAll_eq_flatMap]

/-- A message, and the messages around it, the outermost first. -/
structure Placed where
  around : List Message
  message : Message

mutual

/-- The places of a message, which stands inside of others, and of all messages nested in it. -/
def Message.places (around : List Message) : Message → List Placed
  | message@⟨_, nested, _, _, _, _, _, _, _⟩ =>
    ⟨around, message⟩ :: placesAll (around ++ [message]) nested

def placesAll (around : List Message) : List Message → List Placed
  | [] => []
  | message :: messages => message.places around ++ placesAll around messages

end

theorem placesAll_eq_flatMap (around messages : List Message) :
    placesAll around messages = messages.flatMap (Message.places around) := by
  induction messages with
  | nil => rw [placesAll, List.flatMap_nil]
  | cons message messages ih => rw [placesAll, List.flatMap_cons, ih]

theorem Message.places_eq (around : List Message) (message : Message) :
    message.places around =
      ⟨around, message⟩ :: message.nested.flatMap (Message.places (around ++ [message])) := by
  cases message
  rw [places, placesAll_eq_flatMap]

namespace Placed

/-- The names on the way down to a message. -/
def path (placed : Placed) : List String :=
  (placed.around ++ [placed.message]).map (·.name)

/-- Whether neither the message nor one around it only describes the entries of a map. -/
def isKept (placed : Placed) : Bool :=
  (placed.around ++ [placed.message]).all (!·.isMapEntry)

def inScope (package : String) (placed : Placed) : Scoped Message :=
  ⟨(placed.around.map (·.name)).foldl scopedName package, placed.message⟩

end Placed

def File.places (file : File) : List Placed :=
  placesAll [] file.messages

/-- The places of the messages in a file, without those that only describe the entries of a map and
without all that is nested in these. -/
def File.kept (file : File) : List Placed :=
  file.places.filter (·.isKept)

theorem Message.map_inScope_places (package : String) (message : Message) (around : List Message) :
    (message.places around).map (Placed.inScope package) =
      message.withNested ((around.map (·.name)).foldl scopedName package) := by
  induction message using Message.nestedInduction generalizing around with
  | step message ih =>
    rw [places_eq, withNested_eq, List.map_cons, List.map_flatMap]
    refine congrArg₂ List.cons rfl (List.flatMap_congr fun inner listed => ?_)
    rw [ih inner listed, List.map_append, List.foldl_append]
    rfl

/-- The places of a file lead to its messages. -/
theorem File.map_inScope_places (file : File) :
    file.places.map (Placed.inScope file.package) = file.allMessages := by
  rw [places, placesAll_eq_flatMap, List.map_flatMap, allMessages, withNestedAll_eq_flatMap]
  exact List.flatMap_congr fun message _ => message.map_inScope_places file.package []

/-- A place inside of a message lies below this message. -/
theorem Message.prefix_of_mem_places {message : Message} {around : List Message} {placed : Placed}
    (listed : placed ∈ message.places around) :
    around ++ [message] <+: placed.around ++ [placed.message] := by
  induction message using Message.nestedInduction generalizing around with
  | step message ih =>
    rw [places_eq] at listed
    rcases List.mem_cons.mp listed with rfl | inside
    · exact List.prefix_rfl
    · obtain ⟨inner, isNested, below⟩ := List.mem_flatMap.mp inside
      exact (List.prefix_append _ _).trans (ih inner isNested below)

/-- Nothing is kept of a message that only describes the entries of a map. -/
theorem Message.filter_places_of_isMapEntry {message : Message} (isEntry : message.isMapEntry)
    (around : List Message) : (message.places around).filter (·.isKept) = [] := by
  refine List.filter_eq_nil_iff.mpr fun placed listed kept => ?_
  have above : message ∈ placed.around ++ [placed.message] :=
    (prefix_of_mem_places listed).subset (by simp)
  have other := List.all_eq_true.mp kept message above
  simp [isEntry] at other

theorem Placed.path_ne_nil (placed : Placed) : placed.path ≠ [] := by
  simp [path]

/-- Every message on the way down to a place has a place, apart from those around all places. -/
theorem Message.exists_place_of_mem {message : Message} {outer : List Message} {placed : Placed}
    (listed : placed ∈ message.places outer) {above : Message}
    (onWay : above ∈ placed.around ++ [placed.message]) :
    above ∈ outer ∨ ∃ place ∈ message.places outer, place.message = above := by
  induction message using Message.nestedInduction generalizing outer with
  | step message ih =>
    rw [places_eq] at listed ⊢
    have here : above ∈ outer ++ [message] →
        above ∈ outer ∨ ∃ place ∈ (⟨outer, message⟩ : Placed) ::
          message.nested.flatMap (Message.places (outer ++ [message])), place.message = above := by
      intro onWay
      rcases List.mem_append.mp onWay with outside | own
      · exact .inl outside
      · exact .inr ⟨_, List.mem_cons_self, (List.mem_singleton.mp own).symm⟩
    rcases List.mem_cons.mp listed with rfl | inside
    · exact here onWay
    · obtain ⟨inner, isNested, listed⟩ := List.mem_flatMap.mp inside
      rcases ih inner isNested listed with outside | ⟨place, isPlace, same⟩
      · exact here outside
      · exact .inr ⟨place, List.mem_cons_of_mem _ (List.mem_flatMap.mpr ⟨inner, isNested, isPlace⟩),
          same⟩

theorem File.exists_place_of_mem {file : File} {placed : Placed} (listed : placed ∈ file.places)
    {above : Message} (onWay : above ∈ placed.around ++ [placed.message]) :
    ∃ place ∈ file.places, place.message = above := by
  rw [places, placesAll_eq_flatMap] at listed ⊢
  obtain ⟨message, isMessage, listed⟩ := List.mem_flatMap.mp listed
  obtain ⟨place, isPlace, same⟩ :=
    (Message.exists_place_of_mem listed onWay).resolve_left List.not_mem_nil
  exact ⟨place, List.mem_flatMap.mpr ⟨message, isMessage, isPlace⟩, same⟩

theorem File.inScope_mem_allMessages {file : File} {placed : Placed}
    (listed : placed ∈ file.places) : placed.inScope file.package ∈ file.allMessages := by
  rw [← map_inScope_places]
  exact List.mem_map_of_mem listed

/-- A message that stands around another one has something nested in it. -/
theorem Message.nested_ne_nil_of_mem_around {message : Message} {outer : List Message}
    {placed : Placed} (listed : placed ∈ message.places outer) {above : Message}
    (around : above ∈ placed.around) : above ∈ outer ∨ above.nested ≠ [] := by
  induction message using Message.nestedInduction generalizing outer with
  | step message ih =>
    rw [places_eq] at listed
    rcases List.mem_cons.mp listed with rfl | inside
    · exact .inl around
    · obtain ⟨inner, isNested, listed⟩ := List.mem_flatMap.mp inside
      rcases ih inner isNested listed with outside | some
      · rcases List.mem_append.mp outside with outside | own
        · exact .inl outside
        · obtain rfl := List.mem_singleton.mp own
          exact .inr (List.ne_nil_of_mem isNested)
      · exact .inr some

section Names

/-- The name of a declaration can be put between dots: it is not empty and has no dot in it. -/
def IsProper (name : String) : Prop :=
  name ≠ "" ∧ '.' ∉ name.toList

instance (name : String) : Decidable (IsProper name) :=
  inferInstanceAs (Decidable (_ ∧ _))

/-- The full name of what lies on a path in a package: all names with dots between them. -/
def qualified (package : String) (path : List String) : String :=
  ".".intercalate (if package = "" then path else package :: path)

theorem scopedName_ne_empty {name : String} (nonempty : name ≠ "") (scope : String) :
    scopedName scope name ≠ "" := by
  rw [scopedName]
  split
  · exact nonempty
  · simp

theorem scopedName_scopedName {outer name : String} (nonempty : name ≠ "") (inner : String) :
    scopedName (scopedName outer name) inner = scopedName outer (name ++ "." ++ inner) := by
  rw [scopedName, if_neg (scopedName_ne_empty nonempty outer), scopedName, scopedName]
  split
  · rfl
  · simp only [String.append_assoc]

/-- Scopes that are opened one in the other have the same name as one scope with the whole path. -/
theorem foldl_scopedName (scope : String) {path : List String} (some : path ≠ [])
    (nonempty : ∀ name ∈ path, name ≠ "") :
    path.foldl scopedName scope = scopedName scope (".".intercalate path) := by
  induction path generalizing scope with
  | nil => exact absurd rfl some
  | cons name path ih =>
    obtain ⟨here, later⟩ := List.forall_mem_cons.mp nonempty
    cases path with
    | nil => rw [List.foldl_cons, List.foldl_nil, String.intercalate_singleton]
    | cons next path =>
      rw [List.foldl_cons, ih _ (List.cons_ne_nil _ _) later, scopedName_scopedName here,
        String.intercalate_cons_cons]

theorem scopedName_eq_qualified (package : String) {path : List String} (some : path ≠ []) :
    scopedName package (".".intercalate path) = qualified package path := by
  obtain ⟨name, path, rfl⟩ := List.exists_cons_of_ne_nil some
  rw [scopedName, qualified]
  split
  · rfl
  · rw [String.intercalate_cons_cons]

theorem replaceChar_append (front back : String) (old : Char) (new : String) :
    replaceChar (front ++ back) old new = replaceChar front old new ++ replaceChar back old new := by
  simp [replaceChar]

theorem replaceChar_of_not_mem {text : String} {old : Char} (absent : old ∉ text.toList)
    (new : String) : replaceChar text old new = text := by
  have same : (text.toList.flatMap fun c => if c = old then new.toList else [c]) =
      text.toList.flatMap fun c => [c] := by
    refine List.flatMap_congr fun c listed => if_neg ?_
    rintro rfl
    exact absent listed
  rw [replaceChar, same, List.flatMap_singleton', String.ofList_toList]

/-- The type name has `_` where the path has dots. -/
theorem replaceChar_intercalate {path : List String} (clean : ∀ name ∈ path, '.' ∉ name.toList) :
    replaceChar (".".intercalate path) '.' "_" = "_".intercalate path := by
  induction path with
  | nil => rfl
  | cons name path ih =>
    obtain ⟨here, later⟩ := List.forall_mem_cons.mp clean
    cases path with
    | nil =>
      rw [String.intercalate_singleton, String.intercalate_singleton, replaceChar_of_not_mem here]
    | cons next path =>
      have dot : replaceChar "." '.' "_" = "_" := by decide
      rw [String.intercalate_cons_cons, String.intercalate_cons_cons, replaceChar_append,
        replaceChar_append, replaceChar_of_not_mem here, dot, ih later]

theorem foldl_scopedName_eq_qualified (package : String) {path : List String} (some : path ≠ [])
    (proper : ∀ name ∈ path, IsProper name) :
    path.foldl scopedName package = qualified package path := by
  rw [foldl_scopedName package some fun name listed => (proper name listed).1,
    scopedName_eq_qualified package some]

/-- The names of what is declared on a path in a package. -/
theorem names_of_path (package : String) {path : List String} (some : path ≠ [])
    (proper : ∀ name ∈ path, IsProper name) :
    (QualifiedName.mk package (path.foldl scopedName "")).fullName = qualified package path ∧
      (QualifiedName.mk package (path.foldl scopedName "")).typeName = "_".intercalate path := by
  have joined : path.foldl scopedName "" = ".".intercalate path := by
    rw [foldl_scopedName "" some fun name listed => (proper name listed).1, scopedName, if_pos rfl]
  rw [joined]
  exact ⟨scopedName_eq_qualified package some,
    replaceChar_intercalate fun name listed => (proper name listed).2⟩

theorem Placed.fullName_inScope (placed : Placed) (package : String) :
    (placed.inScope package).fullName = placed.path.foldl scopedName package := by
  rw [path, List.map_append, List.foldl_append]
  rfl

end Names

end HttpClientGen.Descriptor
