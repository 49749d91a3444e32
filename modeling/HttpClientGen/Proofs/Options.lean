import HttpClientGen.Options
import HttpClientGen.Proofs.Except
import HttpClientGen.Proofs.Text.Blank
import HttpClientGen.Proofs.Text.Pieces

/-!
# What a parameter sets

A parameter is accepted if each of its parts is acceptable by itself, and it is refused on account
of the first part that is not. In an accepted parameter the last part with a key counts. The options
that can be written down as a parameter are those whose suffixes are plain: all options that come
out of a parameter are of this kind, and they are read back from what is written.
-/

namespace HttpClientGen.Options

/-- The parts of a comma-separated list that are not blank, as they stand there. -/
def givenParts (parameter : String) : List (List Char) :=
  (parameter.toList.splitOn ',').filter fun part => part.any fun c => !Text.isBlank c

/-- The text of a part in front of its first `=`, and all of it if there is none. -/
def keyText (part : List Char) : List Char :=
  part.takeWhile (· ≠ '=')

def keyOf (part : List Char) : String :=
  String.ofList (Text.trim (keyText part))

/-- The value of a part, which stands behind its first `=`. Without `=` it is `true`. -/
def valueOf (part : List Char) : String :=
  if '=' ∈ part then String.ofList (Text.trim (part.dropWhile (· ≠ '=')).tail) else "true"

def suffixKeys : List String :=
  ["requestTypeSuffix", "responseTypeSuffix"]

def knownKeys : List String :=
  "verbose" :: suffixKeys

/-- The part has a known key, and a suffix has a value. -/
structure Acceptable (part : List Char) : Prop where
  known : keyOf part ∈ knownKeys
  valued : keyOf part ∈ suffixKeys → valueOf part ≠ ""

/-- What is said about a part that is not acceptable. Of a suffix without a value the key is shown
with the white space behind it. -/
def refusal (part : List Char) : OptionError :=
  if keyOf part ∈ suffixKeys then .emptySuffix (String.ofList (Text.trimStart (keyText part)))
  else .unknownKey (keyOf part)

/-- The value that the last part with a key gives to it. -/
def lastValue? (key : String) (parts : List (List Char)) : Option String :=
  (parts.reverse.find? (keyOf · = key)).map valueOf

/-- The options after some parts: each option has the value of the last part with its key, or else
the value that it had before. -/
def override (options : Options) (parts : List (List Char)) : Options where
  verbose := ((lastValue? "verbose" parts).map (· == "true")).getD options.verbose
  requestSuffix := (lastValue? "requestTypeSuffix" parts).getD options.requestSuffix
  responseSuffix := (lastValue? "responseTypeSuffix" parts).getD options.responseSuffix

/-- A text that stands in a parameter as it is: there is something, nothing of it is trimmed, and it
is not cut at a comma. -/
structure IsPlainSuffix (suffix : String) : Prop where
  ne_empty : suffix ≠ ""
  no_comma : ',' ∉ suffix.toList
  trimmed : Text.IsTrimmed suffix.toList

/-- The options whose suffixes are plain. -/
structure IsPlain (options : Options) : Prop where
  request : IsPlainSuffix options.requestSuffix
  response : IsPlainSuffix options.responseSuffix

section Parts

variable {part key value : List Char}

/-- A part is either a key alone or a key and a value around its first `=`. -/
theorem lone_or_pair (part : List Char) :
    '=' ∉ part ∨ ∃ key value, '=' ∉ key ∧ part = key ++ '=' :: value := by
  cases cut : Text.cutFirst '=' part with
  | none => exact Or.inl (Text.cutFirst_eq_none_iff.mp cut)
  | some sides => exact Or.inr ⟨sides.1, sides.2, Text.cutFirst_eq_some_iff.mp cut⟩

theorem forall_ne_equals (clean : '=' ∉ key) : ∀ c ∈ key, (c ≠ '=' : Bool) = true := by
  intro c listed
  apply decide_eq_true
  rintro rfl
  exact clean listed

theorem keyText_lone (lone : '=' ∉ part) : keyText part = part := by
  rw [keyText, List.takeWhile_eq_self_iff]
  exact forall_ne_equals lone

theorem valueOf_lone (lone : '=' ∉ part) : valueOf part = "true" :=
  if_neg lone

theorem keyText_pair (clean : '=' ∉ key) : keyText (key ++ '=' :: value) = key := by
  rw [keyText, List.takeWhile_append_of_pos (forall_ne_equals clean)]
  simp

theorem valueOf_pair (clean : '=' ∉ key) :
    valueOf (key ++ '=' :: value) = String.ofList (Text.trim value) := by
  rw [valueOf, if_pos (by simp), List.dropWhile_append_of_pos (forall_ne_equals clean)]
  simp

end Parts

section Set

variable {part : List Char}

theorem not_isBlank_equals : Text.isBlank '=' = false := by
  decide

/-- Trimming a part takes nothing off its key and its value but white space. The key is trimmed at
its end, too, if there is nothing behind it. -/
theorem exists_cut_trim (part : List Char) :
    ∃ key value, (Text.cutFirst '=' (Text.trim part)).getD (Text.trim part, "true".toList) =
        (key, value) ∧
      String.ofList (Text.trim key) = keyOf part ∧ String.ofList (Text.trim value) = valueOf part ∧
        (valueOf part = "" → key = Text.trimStart (keyText part)) := by
  rcases lone_or_pair part with lone | ⟨key, value, clean, rfl⟩
  · have inside : '=' ∉ Text.trim part := fun listed => lone (Text.mem_of_mem_trim listed)
    refine ⟨Text.trim part, "true".toList, ?_, ?_, ?_, ?_⟩
    · rw [Text.cutFirst_eq_none_iff.mpr inside, Option.getD_none]
    · rw [keyOf, keyText_lone lone, Text.trim_of_isTrimmed (Text.isTrimmed_trim part)]
    · rw [valueOf_lone lone]
      decide
    · intro empty
      rw [valueOf_lone lone] at empty
      exact absurd empty (by decide)
  · have cut : Text.cutFirst '=' (Text.trim (key ++ '=' :: value)) =
        some (Text.trimStart key, Text.trimEnd value) := by
      rw [Text.cutFirst_eq_some_iff]
      constructor
      · intro listed
        exact clean ((List.dropWhile_sublist _).mem listed)
      · exact Text.trim_append_cons not_isBlank_equals
    refine ⟨Text.trimStart key, Text.trimEnd value, ?_, ?_, ?_, ?_⟩
    · rw [cut, Option.getD_some]
    · rw [keyOf, keyText_pair clean, Text.trim_trimStart]
    · rw [valueOf_pair clean, Text.trim_trimEnd]
    · intro _
      rw [keyText_pair clean]

theorem suffix_eq (key value : List Char) :
    suffix key value =
      if String.ofList (Text.trim value) = "" then .error (.emptySuffix (String.ofList key))
      else .ok (String.ofList (Text.trim value)) := by
  rw [suffix]
  cases Text.trim value with
  | nil => rfl
  | cons c cs => simp

theorem lastValue?_singleton (key : String) (part : List Char) :
    lastValue? key [part] = if keyOf part = key then some (valueOf part) else none := by
  by_cases same : keyOf part = key <;> simp [lastValue?, same]

/-- An acceptable part gives its value to the option that it names. -/
theorem set_of_acceptable (options : Options) (acceptable : Acceptable part) :
    set options (Text.trim part) = .ok (options.override [part]) := by
  obtain ⟨key, value, cut, keyed, valued, -⟩ := exists_cut_trim part
  obtain ⟨known, nonempty⟩ := acceptable
  have isOn : (Text.trim value == "true".toList) = (valueOf part == "true") := by
    rw [← valued, Bool.eq_iff_iff, beq_iff_eq, beq_iff_eq, ← String.toList_inj]
    simp
  simp only [set, cut, keyed, suffix_eq, valued, isOn, override, lastValue?_singleton]
  rcases List.mem_cons.mp known with verbose | isSuffix
  · simp [verbose, pure, Except.pure]
  · have given : valueOf part ≠ "" := nonempty isSuffix
    rcases List.mem_pair.mp isSuffix with request | response
    · simp [request, given, bind, Except.bind, pure, Except.pure]
    · simp [response, given, bind, Except.bind, pure, Except.pure]

/-- A part that is not acceptable is refused. -/
theorem set_of_not_acceptable (options : Options) (refused : ¬Acceptable part) :
    set options (Text.trim part) = .error (refusal part) := by
  obtain ⟨key, value, cut, keyed, valued, shown⟩ := exists_cut_trim part
  simp only [set, cut, keyed, suffix_eq, valued]
  by_cases isSuffix : keyOf part ∈ suffixKeys
  · have empty : valueOf part = "" := by
      by_contra given
      exact refused ⟨List.mem_cons_of_mem _ isSuffix, fun _ => given⟩
    rw [refusal, if_pos isSuffix, ← shown empty]
    rcases List.mem_pair.mp isSuffix with request | response
    · simp [request, empty, bind, Except.bind]
    · simp [response, empty, bind, Except.bind]
  · have unknown : keyOf part ≠ "verbose" := by
      intro verbose
      exact refused ⟨List.mem_cons.mpr (Or.inl verbose), fun suffix => absurd suffix isSuffix⟩
    have others : keyOf part ≠ "requestTypeSuffix" ∧ keyOf part ≠ "responseTypeSuffix" := by
      simpa [suffixKeys] using isSuffix
    simp [refusal, unknown, others.1, others.2, isSuffix]

end Set

section Run

variable {parts : List (List Char)}

theorem lastValue?_append (key : String) (front back : List (List Char)) :
    lastValue? key (front ++ back) = (lastValue? key back).or (lastValue? key front) := by
  rw [lastValue?, List.reverse_append, List.find?_append, Option.map_or]
  rfl

/-- The parts are taken one after the other. -/
theorem override_append (options : Options) (front back : List (List Char)) :
    options.override (front ++ back) = (options.override front).override back := by
  simp only [override, lastValue?_append]
  cases lastValue? "verbose" back <;> cases lastValue? "requestTypeSuffix" back <;>
    cases lastValue? "responseTypeSuffix" back <;> simp

theorem foldlM_set_of_acceptable (options : Options) (all : ∀ part ∈ parts, Acceptable part) :
    (parts.map Text.trim).foldlM set options = .ok (options.override parts) := by
  induction parts generalizing options with
  | nil => rfl
  | cons part parts ih =>
    obtain ⟨here, later⟩ := List.forall_mem_cons.mp all
    rw [List.map_cons, List.foldlM_cons, bind_eq_ok_iff]
    refine ⟨options.override [part], set_of_acceptable options here, ?_⟩
    rw [ih (options.override [part]) later, ← override_append, List.singleton_append]

theorem foldlM_set_of_refused (options : Options) {front back : List (List Char)}
    {part : List Char} (accepted : ∀ earlier ∈ front, Acceptable earlier)
    (refused : ¬Acceptable part) :
    ((front ++ part :: back).map Text.trim).foldlM set options = .error (refusal part) := by
  rw [List.map_append, List.foldlM_append, foldlM_set_of_acceptable options accepted]
  refine bind_eq_error_iff.mpr (Or.inr ⟨options.override front, rfl, ?_⟩)
  rw [List.map_cons, List.foldlM_cons]
  exact bind_eq_error_iff.mpr (Or.inl (set_of_not_acceptable _ refused))

theorem parts_toList (parameter : String) :
    Options.parts parameter.toList = (givenParts parameter).map Text.trim := by
  rw [Options.parts, givenParts, Text.pieces_eq_splitOn, List.filter_map]
  congr 2
  funext part
  rw [Bool.eq_iff_iff]
  simp [Text.trim_eq_nil_iff]

theorem parse_of_acceptable {parameter : String}
    (all : ∀ part ∈ givenParts parameter, Acceptable part) :
    parse (some parameter) = .ok (override {} (givenParts parameter)) := by
  rw [parse, parts_toList]
  exact foldlM_set_of_acceptable {} all

/-- The first part that is not acceptable. -/
theorem exists_first_refused (refused : ¬∀ part ∈ parts, Acceptable part) :
    ∃ front part back, parts = front ++ part :: back ∧ (∀ earlier ∈ front, Acceptable earlier) ∧
      ¬Acceptable part := by
  induction parts with
  | nil => exact absurd (fun part listed => nomatch listed) refused
  | cons part parts ih =>
    by_cases here : Acceptable part
    · have later : ¬∀ other ∈ parts, Acceptable other := by
        intro all
        exact refused (List.forall_mem_cons.mpr ⟨here, all⟩)
      obtain ⟨front, first, back, rfl, accepted, found⟩ := ih later
      exact ⟨part :: front, first, back, rfl, List.forall_mem_cons.mpr ⟨here, accepted⟩, found⟩
    · exact ⟨[], part, parts, rfl, by simp, here⟩

theorem parse_of_refused {parameter : String} {front back : List (List Char)} {part : List Char}
    (split : givenParts parameter = front ++ part :: back)
    (accepted : ∀ earlier ∈ front, Acceptable earlier) (refused : ¬Acceptable part) :
    parse (some parameter) = .error (refusal part) := by
  rw [parse, parts_toList, split]
  exact foldlM_set_of_refused {} accepted refused

theorem parse_accepts_iff {parameter : String} {options : Options} :
    parse (some parameter) = .ok options ↔
      (∀ part ∈ givenParts parameter, Acceptable part) ∧
        options = override {} (givenParts parameter) := by
  constructor
  · intro read
    by_cases all : ∀ part ∈ givenParts parameter, Acceptable part
    · rw [parse_of_acceptable all] at read
      exact ⟨all, (Except.ok.inj read).symm⟩
    · obtain ⟨front, part, back, split, accepted, refused⟩ := exists_first_refused all
      rw [parse_of_refused split accepted refused] at read
      cases read
  · rintro ⟨all, rfl⟩
    exact parse_of_acceptable all

theorem parse_refuses_iff {parameter : String} {error : OptionError} :
    parse (some parameter) = .error error ↔
      ∃ front part back, givenParts parameter = front ++ part :: back ∧
        (∀ earlier ∈ front, Acceptable earlier) ∧ ¬Acceptable part ∧ error = refusal part := by
  constructor
  · intro read
    by_cases all : ∀ part ∈ givenParts parameter, Acceptable part
    · rw [parse_of_acceptable all] at read
      cases read
    · obtain ⟨front, part, back, split, accepted, refused⟩ := exists_first_refused all
      rw [parse_of_refused split accepted refused] at read
      exact ⟨front, part, back, split, accepted, refused, (Except.error.inj read).symm⟩
  · rintro ⟨front, part, back, split, accepted, refused, rfl⟩
    exact parse_of_refused split accepted refused

end Run

section Written

variable {options : Options} {parameter : String} {part : List Char}

theorem mem_givenParts_iff :
    part ∈ givenParts parameter ↔
      part ∈ parameter.toList.splitOn ',' ∧ ∃ c ∈ part, Text.isBlank c = false := by
  simp [givenParts]

/-- A value holds nothing that is not in its part, a missing one apart. -/
theorem mem_of_mem_valueOf {c : Char} (listed : c ∈ (valueOf part).toList) :
    c ∈ part ∨ valueOf part = "true" := by
  by_cases pair : '=' ∈ part
  · rw [valueOf, if_pos pair, String.toList_ofList] at listed
    have behind := Text.mem_of_mem_trim listed
    exact Or.inl ((List.dropWhile_sublist _).mem (List.mem_of_mem_tail behind))
  · exact Or.inr (valueOf_lone pair)

theorem isTrimmed_valueOf (part : List Char) : Text.IsTrimmed (valueOf part).toList := by
  rw [valueOf]
  split
  · rw [String.toList_ofList]
    exact Text.isTrimmed_trim _
  · decide

/-- The suffix that an accepted part sets is plain. -/
theorem isPlainSuffix_valueOf (given : part ∈ givenParts parameter) (acceptable : Acceptable part)
    (isSuffix : keyOf part ∈ suffixKeys) : IsPlainSuffix (valueOf part) where
  ne_empty := acceptable.valued isSuffix
  no_comma := by
    intro listed
    rcases mem_of_mem_valueOf listed with inside | missing
    · obtain ⟨cut, -⟩ := mem_givenParts_iff.mp given
      rw [← Text.pieces_eq_splitOn] at cut
      exact Text.not_mem_of_mem_pieces cut inside
    · rw [missing] at listed
      exact absurd listed (by decide)
  trimmed := isTrimmed_valueOf part

theorem exists_part_of_lastValue? {key value : String} {parts : List (List Char)}
    (last : lastValue? key parts = some value) :
    ∃ part ∈ parts, keyOf part = key ∧ valueOf part = value := by
  obtain ⟨part, found, same⟩ := Option.map_eq_some_iff.mp last
  refine ⟨part, List.mem_reverse.mp (List.mem_of_find?_eq_some found), ?_, same⟩
  simpa using List.find?_some found

/-- What an accepted parameter sets a suffix to is plain, if it was before. -/
theorem isPlainSuffix_getD {key default : String} (isSuffix : key ∈ suffixKeys)
    (all : ∀ part ∈ givenParts parameter, Acceptable part) (plain : IsPlainSuffix default) :
    IsPlainSuffix ((lastValue? key (givenParts parameter)).getD default) := by
  cases last : lastValue? key (givenParts parameter) with
  | none => exact plain
  | some value =>
    obtain ⟨part, given, rfl, rfl⟩ := exists_part_of_lastValue? last
    exact isPlainSuffix_valueOf given (all part given) isSuffix

theorem isPlain_default : IsPlain {} := by
  constructor
  · exact ⟨by decide, by decide, by decide⟩
  · exact ⟨by decide, by decide, by decide⟩

theorem isPlain_override (all : ∀ part ∈ givenParts parameter, Acceptable part) :
    IsPlain (override {} (givenParts parameter)) where
  request := isPlainSuffix_getD (by decide) all isPlain_default.request
  response := isPlainSuffix_getD (by decide) all isPlain_default.response

def pair (key value : String) : List Char :=
  key.toList ++ '=' :: value.toList

/-- The known keys are read back from a part, and none of them is cut at a comma. -/
theorem written_of_known {key : String} (known : key ∈ knownKeys) :
    '=' ∉ key.toList ∧ ',' ∉ key.toList ∧ Text.IsTrimmed key.toList := by
  have each : ∀ known ∈ knownKeys,
      '=' ∉ known.toList ∧ ',' ∉ known.toList ∧ Text.IsTrimmed known.toList := by
    decide
  exact each key known

section Pair

variable {key value : String}

theorem keyOf_pair (known : key ∈ knownKeys) (value : String) : keyOf (pair key value) = key := by
  obtain ⟨clean, -, trimmed⟩ := written_of_known known
  rw [pair, keyOf, keyText_pair clean, Text.trim_of_isTrimmed trimmed, String.ofList_toList]

theorem valueOf_pair_of_isTrimmed (known : key ∈ knownKeys)
    (trimmed : Text.IsTrimmed value.toList) : valueOf (pair key value) = value := by
  rw [pair, valueOf_pair (written_of_known known).1, Text.trim_of_isTrimmed trimmed,
    String.ofList_toList]

theorem comma_not_mem_pair (known : key ∈ knownKeys) (clean : ',' ∉ value.toList) :
    ',' ∉ pair key value := by
  obtain ⟨-, keyClean, -⟩ := written_of_known known
  simp [pair, keyClean, clean]

/-- A plain suffix makes an acceptable part. -/
theorem acceptable_pair (isSuffix : key ∈ suffixKeys) (plain : IsPlainSuffix value) :
    Acceptable (pair key value) := by
  have known : key ∈ knownKeys := List.mem_cons_of_mem _ isSuffix
  constructor
  · rw [keyOf_pair known]
    exact known
  · intro _
    rw [valueOf_pair_of_isTrimmed known plain.trimmed]
    exact plain.ne_empty

end Pair

/-- The parts that are written for options. -/
def writtenParts (options : Options) : List (List Char) :=
  [pair "verbose" (if options.verbose then "true" else "false"),
    pair "requestTypeSuffix" options.requestSuffix,
    pair "responseTypeSuffix" options.responseSuffix]

theorem toList_render (options : Options) :
    options.render.toList = [','].intercalate options.writtenParts := by
  simp [render, writtenParts, pair, List.intercalate_cons_cons]

/-- What holds of the three written parts holds of each of them. -/
theorem forall_mem_writtenParts {p : List Char → Prop}
    (state : p (pair "verbose" (if options.verbose then "true" else "false")))
    (request : p (pair "requestTypeSuffix" options.requestSuffix))
    (response : p (pair "responseTypeSuffix" options.responseSuffix)) :
    ∀ part ∈ options.writtenParts, p part :=
  List.forall_mem_cons.mpr ⟨state, List.forall_mem_cons.mpr ⟨request,
    List.forall_mem_singleton.mpr response⟩⟩

theorem comma_not_mem_writtenParts (plain : options.IsPlain) :
    ∀ part ∈ options.writtenParts, ',' ∉ part := by
  apply forall_mem_writtenParts
  · cases options.verbose <;> decide
  · exact comma_not_mem_pair (by decide) plain.request.no_comma
  · exact comma_not_mem_pair (by decide) plain.response.no_comma

theorem givenParts_render (plain : options.IsPlain) :
    givenParts options.render = options.writtenParts := by
  have cut : options.render.toList.splitOn ',' = options.writtenParts := by
    rw [toList_render]
    exact List.splitOn_intercalate ',' (comma_not_mem_writtenParts plain) (by simp [writtenParts])
  have visible (key value : String) : (pair key value).any (fun c => !Text.isBlank c) = true :=
    List.any_eq_true.mpr ⟨'=', by simp [pair], by decide⟩
  rw [givenParts, cut, List.filter_eq_self]
  exact forall_mem_writtenParts (visible _ _) (visible _ _) (visible _ _)

theorem acceptable_writtenParts (plain : options.IsPlain) :
    ∀ part ∈ options.writtenParts, Acceptable part := by
  apply forall_mem_writtenParts
  · have keyed := keyOf_pair (by decide : "verbose" ∈ knownKeys)
      (if options.verbose then "true" else "false")
    constructor
    · rw [keyed]
      decide
    · intro isSuffix
      rw [keyed] at isSuffix
      exact absurd isSuffix (by decide)
  · exact acceptable_pair (by decide) plain.request
  · exact acceptable_pair (by decide) plain.response

/-- Whatever the options were before, the written parts set all of them. -/
theorem override_writtenParts (before : Options) (plain : options.IsPlain) :
    before.override options.writtenParts = options := by
  have verbose (value : String) := keyOf_pair (by decide : "verbose" ∈ knownKeys) value
  have request (value : String) := keyOf_pair (by decide : "requestTypeSuffix" ∈ knownKeys) value
  have response (value : String) := keyOf_pair (by decide : "responseTypeSuffix" ∈ knownKeys) value
  have isOn : (valueOf (pair "verbose" (if options.verbose then "true" else "false")) == "true") =
      options.verbose := by
    cases options.verbose <;> decide
  obtain ⟨isVerbose, requestSuffix, responseSuffix⟩ := options
  simpa [override, lastValue?, writtenParts, verbose, request, response] using
    ⟨isOn, valueOf_pair_of_isTrimmed (by decide) plain.request.trimmed,
      valueOf_pair_of_isTrimmed (by decide) plain.response.trimmed⟩

/-- Options are read back from their written form if and only if their suffixes are plain. -/
theorem parse_render_iff : parse (some options.render) = .ok options ↔ options.IsPlain := by
  constructor
  · intro read
    obtain ⟨all, same⟩ := parse_accepts_iff.mp read
    rw [same]
    exact isPlain_override all
  · intro plain
    have all := acceptable_writtenParts plain
    rw [← givenParts_render plain] at all
    rw [parse_of_acceptable all, givenParts_render plain, override_writtenParts _ plain]

end Written

/-- A parameter is accepted exactly if all of its parts are, and otherwise refused on account of the
first one that is not. The options of an accepted parameter have the values of the last parts with
their keys. Their suffixes are plain, and they are read back from their written form. -/
theorem parse_takes_last_parts (parameter : String) :
    ((∃ options, parse (some parameter) = .ok options) ↔
      ∀ part ∈ givenParts parameter, Acceptable part) ∧
    (∀ error, parse (some parameter) = .error error ↔
      ∃ front part back, givenParts parameter = front ++ part :: back ∧
        (∀ earlier ∈ front, Acceptable earlier) ∧ ¬Acceptable part ∧ error = refusal part) ∧
    ∀ options, parse (some parameter) = .ok options →
      options = override {} (givenParts parameter) ∧ options.IsPlain ∧
        parse (some options.render) = .ok options := by
  refine ⟨?_, fun error => parse_refuses_iff, ?_⟩
  · constructor
    · rintro ⟨options, read⟩
      exact (parse_accepts_iff.mp read).1
    · intro all
      exact ⟨_, parse_of_acceptable all⟩
  · intro options read
    obtain ⟨all, rfl⟩ := parse_accepts_iff.mp read
    have plain := isPlain_override all
    exact ⟨rfl, plain, parse_render_iff.mpr plain⟩

/-- A value goes on behind further `=`, and a later part counts against an earlier one. -/
example : parse (some "verbose, requestTypeSuffix = In,requestTypeSuffix=a=b ,,verbose=1") =
    .ok { verbose := false, requestSuffix := "a=b" } := by
  rfl

end HttpClientGen.Options
