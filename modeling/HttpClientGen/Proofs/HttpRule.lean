import HttpClientGen.HttpRule
import HttpClientGen.Proofs.Wire.Record
import Mathlib.Data.List.DropRight
import Mathlib.Data.List.Induction

/-!
# HTTP annotations survive the wire

What an annotation says is settled by its records. The last selector and the last body count, and so
does the last of all patterns, but custom patterns that follow each other without another pattern
between them are read as one. Records of other fields make no difference. Hence an annotation is read
back as it was written, and annotations that stand one behind the other are read as one.
-/

namespace HttpClientGen

open Wire

def lastText? (field : Nat) (records : List Record) : Option String :=
  ((records.filter (·.field = field)).filterMap (·.value.text?)).getLast?

theorem lastText?_append (field : Nat) (front back : List Record) :
    lastText? field (front ++ back) = (lastText? field back).or (lastText? field front) := by
  rw [lastText?, List.filter_append, List.filterMap_append, List.getLast?_append]
  rfl

theorem lastText?_of_field {field : Nat} {value : Value} {text : String}
    (read : value.text? = some text) : lastText? field [⟨field, value⟩] = some text := by
  simp [lastText?, read]

theorem lastText?_of_other {field number : Nat} (other : number ≠ field) (value : Value) :
    lastText? field [⟨number, value⟩] = none := by
  simp [lastText?, other]

/-- Where the records of a field all hold texts, there is a last text if there is a record. -/
theorem lastText?_isSome_iff {field : Nat} {records : List Record}
    (texts : ∀ record ∈ records, record.field = field → record.value.text?.isSome) :
    (lastText? field records).isSome ↔ ∃ record ∈ records, record.field = field := by
  rw [lastText?, List.getLast?_isSome, ne_eq, List.filterMap_eq_nil_iff]
  constructor
  · intro some
    by_contra none
    refine some fun record listed => ?_
    obtain ⟨isRecord, ofField⟩ := List.mem_filter.mp listed
    exact absurd ⟨record, isRecord, by simpa using ofField⟩ none
  · rintro ⟨record, listed, ofField⟩ none
    have absent := none record (List.mem_filter.mpr ⟨listed, by simpa using ofField⟩)
    have present := texts record listed ofField
    rw [absent] at present
    cases present

namespace CustomPattern

/-- A custom pattern with what some records of it say. -/
def overwrite (pattern : CustomPattern) (records : List Record) : CustomPattern where
  kind := (lastText? 1 records).getD pattern.kind
  path := (lastText? 2 records).getD pattern.path

/-- A record that may stand in a custom pattern: a text, or one that can be skipped. -/
def Readable (depth : Nat) (record : Record) : Prop :=
  if record.field = 1 ∨ record.field = 2 then record.value.text?.isSome
  else record.value.isSkippable depth

theorem overwrite_append (pattern : CustomPattern) (front back : List Record) :
    pattern.overwrite (front ++ back) = (pattern.overwrite front).overwrite back := by
  simp only [overwrite, lastText?_append]
  cases lastText? 1 back <;> cases lastText? 2 back <;> rfl

variable {depth : Nat} {pattern result : CustomPattern}

theorem mergeRecord_eq_some_iff {record : Record} :
    mergeRecord depth pattern record = some result ↔
      Readable depth record ∧ result = pattern.overwrite [record] := by
  obtain ⟨field, value⟩ := record
  unfold mergeRecord
  dsimp only
  split
  · cases read : value.text? <;> simp [Readable, read, overwrite, lastText?, eq_comm]
  · cases read : value.text? <;> simp [Readable, read, overwrite, lastText?, eq_comm]
  · next notKind notPath =>
    have neither : ¬(field = 1 ∨ field = 2) := by
      rintro (isKind | isPath)
      · exact notKind isKind
      · exact notPath isPath
    have kept : pattern.overwrite [⟨field, value⟩] = pattern := by
      rw [overwrite, lastText?_of_other (fun isKind => notKind isKind),
        lastText?_of_other (fun isPath => notPath isPath)]
      rfl
    rw [kept, skip, Readable, if_neg neither, Option.ite_none_right_eq_some, Option.some.injEq,
      eq_comm (a := pattern)]

theorem foldlM_mergeRecord_eq_some_iff {records : List Record} :
    records.foldlM (mergeRecord depth) pattern = some result ↔
      (∀ record ∈ records, Readable depth record) ∧ result = pattern.overwrite records := by
  induction records generalizing pattern with
  | nil => simp [overwrite, lastText?, eq_comm]
  | cons record records ih =>
    have first : pattern.overwrite (record :: records) =
        (pattern.overwrite [record]).overwrite records := pattern.overwrite_append [record] records
    simp only [List.foldlM_cons, Option.bind_eq_bind, Option.bind_eq_some_iff,
      mergeRecord_eq_some_iff, ih, List.forall_mem_cons, first]
    constructor
    · rintro ⟨_, ⟨here, rfl⟩, later, rfl⟩
      exact ⟨⟨here, later⟩, rfl⟩
    · rintro ⟨⟨here, later⟩, rfl⟩
      exact ⟨_, ⟨here, rfl⟩, later, rfl⟩

theorem merge_eq_some_iff {content : Bytes} :
    pattern.merge depth content = some result ↔
      ∃ records, records? content = some records ∧
        (∀ record ∈ records, Readable depth record) ∧ result = pattern.overwrite records := by
  simp only [merge, Option.bind_eq_bind, Option.bind_eq_some_iff, foldlM_mergeRecord_eq_some_iff]

def records (pattern : CustomPattern) : List Record :=
  (if pattern.kind = "" then [] else [⟨1, .bytes (textBytes pattern.kind)⟩]) ++
    if pattern.path = "" then [] else [⟨2, .bytes (textBytes pattern.path)⟩]

theorem encode_eq (pattern : CustomPattern) :
    pattern.encode = pattern.records.flatMap Record.encode := by
  rw [encode, records, List.flatMap_append]
  split <;> split <;> simp [putText_eq]

theorem eq_of_mem_records {record : Record} (listed : record ∈ pattern.records) :
    ∃ field text, record = ⟨field, .bytes (textBytes text)⟩ ∧ (field = 1 ∨ field = 2) := by
  rw [records] at listed
  rcases List.mem_append.mp listed with isKind | isPath
  · split at isKind
    · cases isKind
    · exact ⟨1, _, List.mem_singleton.mp isKind, .inl rfl⟩
  · split at isPath
    · cases isPath
    · exact ⟨2, _, List.mem_singleton.mp isPath, .inr rfl⟩

theorem records?_encode (fits : pattern.encode.length < 2 ^ 64) :
    records? pattern.encode = some pattern.records := by
  rw [encode_eq] at fits ⊢
  refine records?_of_bytes (fun record listed => ?_) fits
  obtain ⟨field, text, rfl, named⟩ := eq_of_mem_records listed
  exact ⟨field, _, rfl, by omega, by omega⟩

theorem readable_of_mem_records {record : Record} (listed : record ∈ pattern.records) :
    Readable depth record := by
  obtain ⟨field, text, rfl, named⟩ := eq_of_mem_records listed
  rw [Readable, if_pos named, Value.text?_bytes]
  rfl

theorem overwrite_records (pattern : CustomPattern) :
    ({} : CustomPattern).overwrite pattern.records = pattern := by
  obtain ⟨kind, path⟩ := pattern
  by_cases noKind : kind = "" <;> by_cases noPath : path = "" <;>
    simp [overwrite, records, noKind, noPath, lastText?, Value.text?_bytes]

end CustomPattern

namespace HttpRule

/-- The fields that an annotation keeps. -/
def keptFields : List Nat :=
  [1, 2, 3, 4, 5, 6, 7, 8]

def patternFields : List Nat :=
  [2, 3, 4, 5, 6, 8]

def patternRecords (records : List Record) : List Record :=
  records.filter (·.field ∈ patternFields)

def innerRecords (record : Record) : List Record :=
  (record.value.bytes?.bind records?).getD []

/-- What some records of the pattern say that are all custom patterns: the last kind and the last
path in any of them. -/
def customOf (run : List Record) : CustomPattern :=
  ({} : CustomPattern).overwrite (run.flatMap innerRecords)

/-- The pattern that the last record of the pattern says. If it is a custom one, so are perhaps
those directly before it, and all of them together make up the pattern. -/
def lastPattern? (records : List Record) : Option HttpPattern :=
  match (patternRecords records).getLast? with
  | none => none
  | some last =>
    match methodOf? last.field with
    | some method => last.value.text?.map (.standard method ·)
    | none => some (.custom (customOf ((patternRecords records).rtakeWhile (·.field = 8))))

/-- The annotation that some records mean. -/
def of (records : List Record) : HttpRule where
  selector := (lastText? 1 records).getD ""
  body := (lastText? 7 records).getD ""
  pattern := lastPattern? records

/-- A record that may stand in an annotation: a text, a custom pattern, or one that can be
skipped. -/
def Readable (record : Record) : Prop :=
  if record.field ∈ keptFields then
    if record.field = 8 then
      ∃ content inner, record.value.bytes? = some content ∧ records? content = some inner ∧
        ∀ part ∈ inner, CustomPattern.Readable (nestingLimit - 1) part
    else record.value.text?.isSome
  else record.value.isSkippable nestingLimit

section Reading

variable {records : List Record} {record : Record} {rule : HttpRule}

theorem methodOf?_eq_some_iff {field : Nat} {method : HttpMethod} :
    methodOf? field = some method ↔ fieldOf method = field := by
  constructor
  · intro found
    simpa using List.find?_some found
  · rintro rfl
    cases method <;> rfl

theorem fieldOf_mem (method : HttpMethod) : fieldOf method ∈ patternFields := by
  cases method <;> decide

/-- A field of an annotation is the selector, the body, the custom pattern, or that of a method. -/
theorem cases_of_kept {field : Nat} (kept : field ∈ keptFields) :
    field = 1 ∨ field = 7 ∨ field = 8 ∨ ∃ method, field = fieldOf method := by
  simp only [keptFields, List.mem_cons, List.not_mem_nil, or_false] at kept
  rcases kept with rfl | rfl | rfl | rfl | rfl | rfl | rfl | rfl
  · exact .inl rfl
  · exact .inr (.inr (.inr ⟨.get, rfl⟩))
  · exact .inr (.inr (.inr ⟨.put, rfl⟩))
  · exact .inr (.inr (.inr ⟨.post, rfl⟩))
  · exact .inr (.inr (.inr ⟨.delete, rfl⟩))
  · exact .inr (.inr (.inr ⟨.patch, rfl⟩))
  · exact .inr (.inl rfl)
  · exact .inr (.inr (.inl rfl))

theorem patternFields_subset : patternFields ⊆ keptFields := by
  decide

theorem exists_method_of_mem {field : Nat} (listed : field ∈ patternFields)
    (notCustom : field ≠ 8) : ∃ method, field = fieldOf method := by
  rcases cases_of_kept (patternFields_subset listed) with rfl | rfl | rfl | standard
  · exact absurd listed (by decide)
  · exact absurd listed (by decide)
  · exact absurd rfl notCustom
  · exact standard

theorem patternRecords_append (front back : List Record) :
    patternRecords (front ++ back) = patternRecords front ++ patternRecords back :=
  List.filter_append ..

/-- A record of another field leaves the pattern as it is. -/
theorem lastPattern?_of_other {field : Nat} (other : field ∉ patternFields) (value : Value) :
    lastPattern? (records ++ [⟨field, value⟩]) = lastPattern? records := by
  have none : patternRecords [⟨field, value⟩] = [] := by simp [patternRecords, other]
  rw [lastPattern?, patternRecords_append, none, List.append_nil]
  rfl

theorem lastPattern?_standard (method : HttpMethod) {value : Value} {path : String}
    (read : value.text? = some path) :
    lastPattern? (records ++ [⟨fieldOf method, value⟩]) = some (.standard method path) := by
  have some : patternRecords [⟨fieldOf method, value⟩] = [⟨fieldOf method, value⟩] := by
    simp [patternRecords, fieldOf_mem]
  have isMethod : methodOf? (fieldOf method) = Option.some method := methodOf?_eq_some_iff.mpr rfl
  rw [lastPattern?, patternRecords_append, some, List.getLast?_append_of_ne_nil _ (by simp)]
  simp [isMethod, read]

/-- The custom pattern at the end of some records, or an empty one. -/
theorem customSoFar_of (records : List Record) :
    (of records).customSoFar = customOf ((patternRecords records).rtakeWhile (·.field = 8)) := by
  rw [customSoFar, of, lastPattern?]
  dsimp only
  rcases List.eq_nil_or_concat' (patternRecords records) with none | ⟨front, last, split⟩
  · rw [none]
    rfl
  · rw [split, List.getLast?_append_of_ne_nil _ (by simp), List.getLast?_singleton]
    by_cases isCustom : last.field = 8
    · have noMethod : methodOf? last.field = none := by rw [isCustom]; rfl
      simp only [noMethod]
    · have listed : last ∈ patternRecords records := by simp [split]
      obtain ⟨method, named⟩ :=
        exists_method_of_mem (by simpa using (List.mem_filter.mp listed).2) isCustom
      rw [List.rtakeWhile_concat_neg _ _ _ (by simpa using isCustom)]
      have isMethod : methodOf? last.field = some method := methodOf?_eq_some_iff.mpr named.symm
      simp only [isMethod]
      cases last.value.text? <;> rfl

theorem lastPattern?_custom {value : Value} {content : Bytes} {inner : List Record}
    (isBytes : value.bytes? = some content) (read : records? content = some inner) :
    lastPattern? (records ++ [⟨8, value⟩]) =
      some (.custom ((of records).customSoFar.overwrite inner)) := by
  have some : patternRecords [⟨8, value⟩] = [⟨8, value⟩] := rfl
  have noMethod : methodOf? 8 = none := rfl
  have innerRead : innerRecords ⟨8, value⟩ = inner := by
    rw [innerRecords, isBytes, Option.bind_some, read, Option.getD_some]
  rw [lastPattern?, patternRecords_append, some, List.getLast?_append_of_ne_nil _ (by simp),
    List.rtakeWhile_concat_pos _ _ _ (by simp), customSoFar_of]
  simp only [List.getLast?_singleton, noMethod]
  rw [customOf, List.flatMap_append, List.flatMap_singleton, innerRead,
    CustomPattern.overwrite_append]
  rfl

theorem mergeRecord_standard (rule : HttpRule) (method : HttpMethod) (value : Value) :
    rule.mergeRecord ⟨fieldOf method, value⟩ =
      value.text?.map fun path => { rule with pattern := some (.standard method path) } := by
  cases method <;> rfl

theorem mergeRecord_of_other (rule : HttpRule) (other : record.field ∉ keptFields) :
    rule.mergeRecord record = skip nestingLimit record.value rule := by
  have noMethod : methodOf? record.field = none := by
    refine Option.eq_none_iff_forall_ne_some.mpr fun method found => other ?_
    rw [← methodOf?_eq_some_iff.mp found]
    cases method <;> decide
  rw [mergeRecord]
  split
  · next same => exact absurd (same ▸ by decide) other
  · next same => exact absurd (same ▸ by decide) other
  · next same => exact absurd (same ▸ by decide) other
  · rw [noMethod]

theorem map_eq_some_iff_of_forall {α β : Type} {value : Option α} {f : α → β} {result merged : β}
    (each : ∀ x, value = some x → f x = merged) :
    value.map f = some result ↔ value.isSome ∧ result = merged := by
  cases value with
  | none => simp
  | some x => simp [each x rfl, eq_comm]

/-- One more record is merged if it may stand there, and then counts behind the others. -/
theorem mergeRecord_of_eq_some_iff :
    (of records).mergeRecord record = some rule ↔
      Readable record ∧ rule = of (records ++ [record]) := by
  obtain ⟨field, value⟩ := record
  by_cases kept : field ∈ keptFields
  · rw [Readable, if_pos kept]
    rcases cases_of_kept kept with rfl | rfl | rfl | ⟨method, rfl⟩
    · refine map_eq_some_iff_of_forall fun selector read => ?_
      rw [of, of, lastText?_append, lastText?_append, lastText?_of_field read,
        lastText?_of_other (by decide), lastPattern?_of_other (by decide)]
      rfl
    · refine map_eq_some_iff_of_forall fun body read => ?_
      rw [of, of, lastText?_append, lastText?_append, lastText?_of_field read,
        lastText?_of_other (by decide), lastPattern?_of_other (by decide)]
      rfl
    · have whole {content : Bytes} {inner : List Record} (isBytes : value.bytes? = some content)
          (read : records? content = some inner) : of (records ++ [⟨8, value⟩]) =
            { of records with
              pattern := some (.custom ((of records).customSoFar.overwrite inner)) } := by
        rw [of, lastPattern?_custom isBytes read, lastText?_append, lastText?_append,
          lastText?_of_other (by decide), lastText?_of_other (by decide)]
        rfl
      simp only [mergeRecord, if_true, Option.bind_eq_bind, Option.bind_eq_some_iff,
        CustomPattern.merge_eq_some_iff, Option.pure_def, Option.some.injEq]
      constructor
      · rintro ⟨content, isBytes, _, ⟨inner, read, readable, rfl⟩, rfl⟩
        exact ⟨⟨content, inner, isBytes, read, readable⟩, (whole isBytes read).symm⟩
      · rintro ⟨⟨content, inner, isBytes, read, readable⟩, rfl⟩
        exact ⟨content, isBytes, _, ⟨inner, read, readable, rfl⟩, (whole isBytes read).symm⟩
    · have apart : fieldOf method ≠ 1 ∧ fieldOf method ≠ 7 ∧ fieldOf method ≠ 8 := by
        cases method <;> decide
      rw [mergeRecord_standard, if_neg apart.2.2]
      refine map_eq_some_iff_of_forall fun path read => ?_
      rw [of, of, lastText?_append, lastText?_append, lastText?_of_other apart.1,
        lastText?_of_other apart.2.1, lastPattern?_standard method read]
      rfl
  · have notPattern : field ∉ patternFields := fun listed => kept (patternFields_subset listed)
    have notSelector : field ≠ 1 := fun same => kept (same ▸ by decide)
    have notBody : field ≠ 7 := fun same => kept (same ▸ by decide)
    have whole : of (records ++ [⟨field, value⟩]) = of records := by
      rw [of, of, lastText?_append, lastText?_append, lastText?_of_other notSelector,
        lastText?_of_other notBody, lastPattern?_of_other notPattern]
      rfl
    rw [mergeRecord_of_other _ kept, skip, Readable, if_neg kept, Option.ite_none_right_eq_some,
      Option.some.injEq, whole, eq_comm (a := rule)]

theorem ofRecords?_eq_some_iff :
    ofRecords? records = some rule ↔
      (∀ record ∈ records, Readable record) ∧ rule = of records := by
  rw [ofRecords?]
  induction records using List.reverseRecOn generalizing rule with
  | nil => simp [of, lastText?, lastPattern?, patternRecords, eq_comm]
  | append_singleton records record ih =>
    simp only [List.foldlM_append, List.foldlM_cons, List.foldlM_nil, Option.bind_eq_bind,
      Option.bind_eq_some_iff, ih, List.forall_mem_append, List.forall_mem_singleton]
    constructor
    · rintro ⟨_, ⟨before, rfl⟩, _, merged, same⟩
      obtain ⟨here, rfl⟩ := mergeRecord_of_eq_some_iff.mp merged
      exact ⟨⟨before, here⟩, (Option.some.inj same).symm⟩
    · rintro ⟨⟨before, here⟩, rfl⟩
      exact ⟨_, ⟨before, rfl⟩, _, mergeRecord_of_eq_some_iff.mpr ⟨here, rfl⟩, rfl⟩

/-- An annotation is read from bytes that consist of records which may stand in it, and it is what
these records mean. -/
theorem decode_eq_some_iff {bytes : Bytes} :
    decode bytes = some rule ↔ ∃ records, records? bytes = some records ∧
      (∀ record ∈ records, Readable record) ∧ rule = of records := by
  simp only [decode, Option.bind_eq_bind, Option.bind_eq_some_iff, ofRecords?_eq_some_iff]

end Reading

section Joining

theorem text?_isSome_of_readable {record : Record} (readable : Readable record)
    (kept : record.field ∈ keptFields) (notCustom : record.field ≠ 8) :
    record.value.text?.isSome := by
  rwa [Readable, if_pos kept, if_neg notCustom] at readable

/-- In what two messages say together, a text of the second one counts if it has a record for it. -/
theorem lastText?_getD_append (field : Nat) (earlier : List Record) {later : List Record}
    (readable : ∀ record ∈ later, Readable record) (kept : field ∈ keptFields)
    (notCustom : field ≠ 8) :
    (lastText? field (earlier ++ later)).getD "" =
      if ∃ record ∈ later, record.field = field then (lastText? field later).getD ""
      else (lastText? field earlier).getD "" := by
  have texts : ∀ record ∈ later, record.field = field → record.value.text?.isSome := by
    rintro record listed rfl
    exact text?_isSome_of_readable (readable record listed) kept notCustom
  have some := lastText?_isSome_iff texts
  rw [lastText?_append]
  split
  · next present =>
    obtain ⟨text, last⟩ := Option.isSome_iff_exists.mp (some.mpr present)
    rw [last]
    rfl
  · next absent =>
    have none : lastText? field later = Option.none := by
      simpa using mt some.mp absent
    rw [none]
    rfl

/-- Of two annotations that are joined as bytes, the texts of the second one count where it has
records for them, and the patterns of both are read one after the other. -/
theorem decode_append {front back : Bytes} {first second : HttpRule}
    (inFront : decode front = some first) (inBack : decode back = some second) :
    ∃ earlier later, records? front = some earlier ∧ records? back = some later ∧
      decode (front ++ back) = some
        { selector := if ∃ record ∈ later, record.field = 1 then second.selector
            else first.selector
          body := if ∃ record ∈ later, record.field = 7 then second.body else first.body
          pattern := lastPattern? (earlier ++ later) } := by
  obtain ⟨earlier, readFront, readableFront, rfl⟩ := decode_eq_some_iff.mp inFront
  obtain ⟨later, readBack, readableBack, rfl⟩ := decode_eq_some_iff.mp inBack
  refine ⟨earlier, later, readFront, readBack, decode_eq_some_iff.mpr
    ⟨_, records?_append readFront readBack, ?_, ?_⟩⟩
  · exact List.forall_mem_append.mpr ⟨readableFront, readableBack⟩
  · have selector := lastText?_getD_append 1 earlier readableBack (by decide) (by decide)
    have body := lastText?_getD_append 7 earlier readableBack (by decide) (by decide)
    simp only [of, selector, body]

end Joining

section RoundTrip

def patternRecord : HttpPattern → Record
  | .standard method path => ⟨fieldOf method, .bytes (textBytes path)⟩
  | .custom pattern => ⟨8, .bytes pattern.encode⟩

def records (rule : HttpRule) : List Record :=
  (if rule.selector = "" then [] else [⟨1, .bytes (textBytes rule.selector)⟩]) ++
    rule.pattern.toList.map patternRecord ++
    if rule.body = "" then [] else [⟨7, .bytes (textBytes rule.body)⟩]

theorem encode_eq (rule : HttpRule) : rule.encode = rule.records.flatMap Record.encode := by
  have pattern : (rule.pattern.map encodePattern).getD [] =
      (rule.pattern.toList.map patternRecord).flatMap Record.encode := by
    rcases rule.pattern with _ | (_ | _)
    · rfl
    · simp [encodePattern, patternRecord, putText_eq]
    · simp [encodePattern, patternRecord, Record.encode]
  rw [encode, records, List.flatMap_append, List.flatMap_append, pattern]
  split <;> split <;> simp [putText_eq]

variable {rule : HttpRule}

theorem cases_of_mem_records {record : Record} (listed : record ∈ rule.records) :
    (∃ field text, record = ⟨field, .bytes (textBytes text)⟩ ∧ field ∈ keptFields ∧ field ≠ 8) ∨
      ∃ pattern, rule.pattern = some (.custom pattern) ∧ record = ⟨8, .bytes pattern.encode⟩ := by
  rw [records, List.append_assoc] at listed
  rcases List.mem_append.mp listed with isSelector | listed
  · split at isSelector
    · cases isSelector
    · exact .inl ⟨1, _, List.mem_singleton.mp isSelector, by decide, by decide⟩
  rcases List.mem_append.mp listed with isPattern | isBody
  · obtain ⟨pattern, written, rfl⟩ := List.mem_map.mp isPattern
    rw [Option.mem_toList] at written
    cases pattern with
    | standard method path =>
      exact .inl ⟨fieldOf method, path, rfl, by cases method <;> decide, by cases method <;> decide⟩
    | custom pattern => exact .inr ⟨pattern, written, rfl⟩
  · split at isBody
    · cases isBody
    · exact .inl ⟨7, _, List.mem_singleton.mp isBody, by decide, by decide⟩

theorem records?_encode (fits : rule.encode.length < 2 ^ 64) :
    records? rule.encode = some rule.records := by
  have range : ∀ field ∈ keptFields, 1 ≤ field ∧ field < 2 ^ 29 := by decide
  rw [encode_eq] at fits ⊢
  refine records?_of_bytes (fun record listed => ?_) fits
  rcases cases_of_mem_records listed with ⟨field, text, rfl, kept, -⟩ | ⟨pattern, -, rfl⟩
  · exact ⟨field, _, rfl, range field kept⟩
  · exact ⟨8, _, rfl, by decide, by decide⟩

/-- A custom pattern is not longer than the annotation that it stands in. -/
theorem length_encode_custom_lt (fits : rule.encode.length < 2 ^ 64) {pattern : CustomPattern}
    (isPattern : rule.pattern = some (.custom pattern)) : pattern.encode.length < 2 ^ 64 := by
  have listed : (⟨8, .bytes pattern.encode⟩ : Record) ∈ rule.records := by
    simp [records, isPattern, patternRecord]
  rw [encode_eq] at fits
  exact Nat.lt_of_le_of_lt (length_le_of_mem_records listed) fits

theorem readable_of_mem_records (fits : rule.encode.length < 2 ^ 64) {record : Record}
    (listed : record ∈ rule.records) : Readable record := by
  rcases cases_of_mem_records listed with
    ⟨field, text, rfl, kept, notCustom⟩ | ⟨pattern, isPattern, rfl⟩
  · rw [Readable, if_pos kept, if_neg notCustom, Value.text?_bytes]
    rfl
  · have inner := CustomPattern.records?_encode (length_encode_custom_lt fits isPattern)
    exact ⟨_, _, rfl, inner, fun _ => CustomPattern.readable_of_mem_records⟩

theorem patternRecords_records (rule : HttpRule) :
    patternRecords rule.records = rule.pattern.toList.map patternRecord := by
  have own : ∀ record ∈ rule.pattern.toList.map patternRecord, record.field ∈ patternFields := by
    intro record listed
    obtain ⟨pattern, -, rfl⟩ := List.mem_map.mp listed
    cases pattern with
    | standard method path => exact fieldOf_mem method
    | custom pattern => exact (by decide : 8 ∈ patternFields)
  have kept : patternRecords (rule.pattern.toList.map patternRecord) =
      rule.pattern.toList.map patternRecord :=
    List.filter_eq_self.mpr fun record listed => decide_eq_true (own record listed)
  rw [records, patternRecords_append, patternRecords_append, kept]
  split <;> split <;> simp [patternRecords, patternFields]

theorem lastPattern?_records (fits : rule.encode.length < 2 ^ 64) :
    lastPattern? rule.records = rule.pattern := by
  rw [lastPattern?, patternRecords_records]
  cases isPattern : rule.pattern with
  | none => rfl
  | some pattern =>
    cases pattern with
    | standard method path =>
      have isMethod : methodOf? (fieldOf method) = some method := methodOf?_eq_some_iff.mpr rfl
      simp [patternRecord, isMethod, Value.text?_bytes]
    | custom pattern =>
      have noMethod : methodOf? 8 = none := rfl
      have inner := CustomPattern.records?_encode (length_encode_custom_lt fits isPattern)
      have whole : customOf [⟨8, .bytes pattern.encode⟩] = pattern := by
        rw [customOf, List.flatMap_singleton, innerRecords, Value.bytes?, Option.bind_some, inner]
        exact pattern.overwrite_records
      have run : List.rtakeWhile (fun record => record.field = 8)
          [(⟨8, .bytes pattern.encode⟩ : Record)] = [⟨8, .bytes pattern.encode⟩] := rfl
      simp only [Option.toList_some, List.map_cons, List.map_nil, patternRecord,
        List.getLast?_singleton, noMethod, run, whole]

theorem of_records (fits : rule.encode.length < 2 ^ 64) : of rule.records = rule := by
  have apart (field : Nat) (notPattern : field ∉ patternFields) :
      lastText? field (rule.pattern.toList.map patternRecord) = none := by
    rcases rule.pattern with _ | (⟨method, path⟩ | custom)
    · rfl
    · refine lastText?_of_other (fun same => notPattern ?_) _
      exact same ▸ fieldOf_mem method
    · refine lastText?_of_other (fun same => notPattern ?_) _
      subst same
      decide
  rw [of, lastPattern?_records fits]
  obtain ⟨selector, body, pattern⟩ := rule
  simp only [records, lastText?_append, apart 1 (by decide), apart 7 (by decide)]
  by_cases noSelector : selector = "" <;> by_cases noBody : body = "" <;>
    simp [noSelector, noBody, lastText?, Value.text?_bytes]

theorem decode_encode (fits : rule.encode.length < 2 ^ 64) : decode rule.encode = some rule :=
  decode_eq_some_iff.mpr ⟨_, records?_encode fits, fun _ => readable_of_mem_records fits,
    (of_records fits).symm⟩

end RoundTrip

section Inserting

/-- A record of another field, in whatever form it is written, may stand between any two records. -/
theorem decode_insert {front bytes : Bytes} {first : List Record} {record : Record}
    (before : records? front = some first) (written : Writes nestingLimit record bytes)
    (other : record.field ∉ keptFields) (back : Bytes) :
    decode (front ++ bytes ++ back) = decode (front ++ back) := by
  have alone : records? bytes = some [record] := by
    have each : ∀ part ∈ [(record, bytes)], Writes nestingLimit part.1 part.2 := by
      simpa using written
    simpa using records?_of_writes each
  rw [decode, decode, records?_append_eq_map (records?_append before alone),
    records?_append_eq_map before]
  cases records? back with
  | none => rfl
  | some later =>
    simp only [Option.map_some, Option.bind_eq_bind, Option.bind_some, ofRecords?,
      List.foldlM_append, List.append_assoc, List.singleton_append, List.foldlM_cons]
    refine Option.bind_congr fun rule _ => ?_
    rw [mergeRecord_of_other rule other, skip_of_writes written, Option.bind_some]

end Inserting

/-- Reading an annotation follows the rules for alternatives.

An annotation that can be held as bytes at all is read back as it was, and it has a binding exactly
if it has a pattern, were it one without any text. Two annotations that are joined as bytes are read
as one: each text is that of the second one if that has a record for it, and the pattern is the one
that the records of both say. A record of any other field may be put between two records. -/
theorem decode_follows_records :
    (∀ rule : HttpRule, rule.encode.length < 2 ^ 64 →
      decode rule.encode = some rule ∧ (rule.binding? = none ↔ rule.pattern = none)) ∧
    (∀ (front back : Bytes) (first second : HttpRule),
      decode front = some first → decode back = some second →
      ∃ earlier later, records? front = some earlier ∧ records? back = some later ∧
        decode (front ++ back) = some
          { selector := if ∃ record ∈ later, record.field = 1 then second.selector
              else first.selector
            body := if ∃ record ∈ later, record.field = 7 then second.body else first.body
            pattern := lastPattern? (earlier ++ later) }) ∧
    ∀ (front bytes back : Bytes) (first : List Record) (record : Record),
      records? front = some first → Writes nestingLimit record bytes →
      record.field ∉ keptFields → decode (front ++ bytes ++ back) = decode (front ++ back) := by
  refine ⟨?_, ?_, ?_⟩
  · intro rule fits
    refine ⟨decode_encode fits, ?_⟩
    rw [binding?, Option.map_eq_none_iff]
  · intro front back first second inFront inBack
    exact decode_append inFront inBack
  · intro front bytes back first record before written other
    exact decode_insert before written other back

/-- The annotation of a method that lists something, without a path. -/
def listRule : HttpRule where
  selector := "shelf.Books.List"
  pattern := some (.custom ⟨"LIST", ""⟩)

/-- An annotation that has a path, but leaves the method open. -/
def booksRule : HttpRule where
  body := "*"
  pattern := some (.custom ⟨"", "/v1/books"⟩)

/-- The two custom patterns are merged, also with an additional binding between them. -/
theorem decode_listRule_booksRule :
    decode listRule.encode = some listRule ∧
      decode (listRule.encode ++ booksRule.encode) =
        some ⟨"shelf.Books.List", "*", some (.custom ⟨"LIST", "/v1/books"⟩)⟩ ∧
      decode (listRule.encode ++ putBytes 11 [0x12, 0x01, 0x2f] ++ booksRule.encode) =
        some ⟨"shelf.Books.List", "*", some (.custom ⟨"LIST", "/v1/books"⟩)⟩ := by
  obtain ⟨readBack, joined, inserted⟩ := decode_follows_records
  have listFits : listRule.encode.length < 2 ^ 64 := by decide +kernel
  have booksFit : booksRule.encode.length < 2 ^ 64 := by decide +kernel
  obtain ⟨isList, -⟩ := readBack listRule listFits
  obtain ⟨isBooks, -⟩ := readBack booksRule booksFit
  obtain ⟨earlier, later, readList, readBooks, both⟩ := joined _ _ _ _ isList isBooks
  obtain rfl := Option.some.inj ((records?_encode listFits).symm.trans readList)
  obtain rfl := Option.some.inj ((records?_encode booksFit).symm.trans readBooks)
  have pattern : lastPattern? (listRule.records ++ booksRule.records) =
      some (.custom ⟨"LIST", "/v1/books"⟩) := by
    decide +kernel
  have noSelector : ¬∃ record ∈ booksRule.records, record.field = 1 := by decide
  have body : ∃ record ∈ booksRule.records, record.field = 7 := by decide
  rw [pattern, if_neg noSelector, if_pos body] at both
  have additional : Writes nestingLimit ⟨11, .bytes [0x12, 0x01, 0x2f]⟩
      (putBytes 11 [0x12, 0x01, 0x2f]) :=
    writes_bytes (by decide) (by decide) (by decide) 99
  refine ⟨isList, both, ?_⟩
  rw [inserted _ _ _ _ _ readList additional (by decide)]
  exact both

end HttpRule

end HttpClientGen
