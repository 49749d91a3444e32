import HttpClientGen.Plugin
import HttpClientGen.Proofs.Wire.Record

/-!
# Requests survive the wire

A request is read back as it was written. Records of other fields may stand anywhere between its
own: they are passed over, whatever they hold, as long as they are written rightly and do not nest
too deeply. Requests that stand one behind the other read as one, with the lists of both and the
parameter of the last one that has one.
-/

namespace HttpClientGen.PluginRequest

open Wire

/-- The fields that a request keeps. -/
def keptFields : List Nat :=
  [1, 2, 15]

def records (request : PluginRequest) : List Record :=
  request.filesToGenerate.map (fun name => ⟨1, .bytes (textBytes name)⟩) ++
    request.parameter.toList.map (fun parameter => ⟨2, .bytes (textBytes parameter)⟩) ++
    request.protoFiles.map (⟨15, .bytes ·⟩)

/-- What two requests ask for together. A parameter of the second one counts. -/
def append (first second : PluginRequest) : PluginRequest where
  filesToGenerate := first.filesToGenerate ++ second.filesToGenerate
  parameter := second.parameter.or first.parameter
  protoFiles := first.protoFiles ++ second.protoFiles

theorem encode_eq (request : PluginRequest) :
    request.encode = request.records.flatMap Record.encode := by
  rw [encode, records, List.flatMap_append, List.flatMap_append, List.flatMap_map,
    List.flatMap_map, List.flatMap_map]
  cases request.parameter with
  | none => rfl
  | some parameter =>
    rw [Option.toList_some, List.flatMap_singleton]
    rfl

section Merging

variable {request first second : PluginRequest}

theorem mergeRecord_file (request : PluginRequest) (name : String) :
    request.mergeRecord ⟨1, .bytes (textBytes name)⟩ =
      some { request with filesToGenerate := request.filesToGenerate ++ [name] } := by
  rw [mergeRecord, Value.text?_bytes]
  rfl

theorem mergeRecord_parameter (request : PluginRequest) (parameter : String) :
    request.mergeRecord ⟨2, .bytes (textBytes parameter)⟩ =
      some { request with parameter := some parameter } := by
  rw [mergeRecord, Value.text?_bytes]
  rfl

theorem mergeRecord_protoFile (request : PluginRequest) (file : Bytes) :
    request.mergeRecord ⟨15, .bytes file⟩ =
      some { request with protoFiles := request.protoFiles ++ [file] } :=
  rfl

theorem mergeRecord_of_other (request : PluginRequest) {record : Record}
    (other : record.field ∉ keptFields) :
    request.mergeRecord record = skip nestingLimit record.value request := by
  simp only [keptFields, List.mem_cons, List.not_mem_nil, or_false, not_or] at other
  rw [mergeRecord]
  split
  · exact absurd ‹_› other.1
  · exact absurd ‹_› other.2.1
  · exact absurd ‹_› other.2.2
  · rfl

/-- A record is merged into the later of two requests as it is into both together. -/
theorem mergeRecord_append (first second : PluginRequest) (record : Record) :
    (first.append second).mergeRecord record =
      (second.mergeRecord record).map first.append := by
  unfold mergeRecord
  split
  · cases record.value.text? <;> simp [append]
  · cases record.value.text? <;> simp [append]
  · cases record.value.bytes? <;> simp [append]
  · unfold skip
    split <;> rfl

theorem foldlM_mergeRecord_append (first second : PluginRequest) (records : List Record) :
    records.foldlM mergeRecord (first.append second) =
      (records.foldlM mergeRecord second).map first.append := by
  induction records generalizing second with
  | nil => rfl
  | cons record records ih =>
    rw [List.foldlM_cons, List.foldlM_cons, mergeRecord_append]
    cases second.mergeRecord record with
    | none => rfl
    | some merged => exact ih merged

/-- Records of other fields are passed over. -/
theorem foldlM_mergeRecord_filter {parts : List (Record × Bytes)}
    (written : ∀ part ∈ parts, Writes nestingLimit part.1 part.2) (request : PluginRequest) :
    (parts.map (·.1)).foldlM mergeRecord request =
      ((parts.map (·.1)).filter (·.field ∈ keptFields)).foldlM mergeRecord request := by
  induction parts generalizing request with
  | nil => rfl
  | cons part parts ih =>
    obtain ⟨here, later⟩ := List.forall_mem_cons.mp written
    by_cases kept : part.1.field ∈ keptFields
    · rw [List.map_cons, List.filter_cons_of_pos (by simpa using kept), List.foldlM_cons,
        List.foldlM_cons]
      exact bind_congr fun merged => ih later merged
    · rw [List.map_cons, List.filter_cons_of_neg (by simpa using kept), List.foldlM_cons,
        mergeRecord_of_other request kept, skip_of_writes here]
      exact ih later request

theorem foldlM_mergeRecord_files (names : List String) (request : PluginRequest) :
    (names.map fun name => (⟨1, .bytes (textBytes name)⟩ : Record)).foldlM mergeRecord request =
      some { request with filesToGenerate := request.filesToGenerate ++ names } := by
  induction names generalizing request with
  | nil => simp
  | cons name names ih =>
    rw [List.map_cons, List.foldlM_cons, mergeRecord_file]
    refine (ih _).trans ?_
    simp

theorem foldlM_mergeRecord_protoFiles (files : List Bytes) (request : PluginRequest) :
    (files.map fun file => (⟨15, .bytes file⟩ : Record)).foldlM mergeRecord request =
      some { request with protoFiles := request.protoFiles ++ files } := by
  induction files generalizing request with
  | nil => simp
  | cons file files ih =>
    rw [List.map_cons, List.foldlM_cons, mergeRecord_protoFile]
    refine (ih _).trans ?_
    simp

/-- The records of a request make it up. -/
theorem foldlM_mergeRecord_records (request : PluginRequest) :
    request.records.foldlM mergeRecord {} = some request := by
  obtain ⟨names, parameter, files⟩ := request
  simp only [records, List.foldlM_append, foldlM_mergeRecord_files, foldlM_mergeRecord_protoFiles,
    Option.bind_eq_bind, Option.bind_some]
  cases parameter with
  | none => simp
  | some parameter => simp [mergeRecord_parameter]

end Merging

/-- The records of a request, in whatever form they are written, are read back as the request, also
with records of other fields between them. -/
theorem decode_of_writes {request : PluginRequest} {parts : List (Record × Bytes)}
    (written : ∀ part ∈ parts, Writes nestingLimit part.1 part.2)
    (own : (parts.map (·.1)).filter (·.field ∈ keptFields) = request.records) :
    decode (parts.flatMap (·.2)) = some request := by
  rw [decode, records?_of_writes written]
  refine (foldlM_mergeRecord_filter written {}).trans ?_
  rw [own]
  exact foldlM_mergeRecord_records request

/-- The records of a request that is short enough to be written at all are written by their shortest
forms. -/
theorem writes_of_mem_records {request : PluginRequest} (fits : request.encode.length < 2 ^ 64)
    {record : Record} (listed : record ∈ request.records) :
    Writes nestingLimit record record.encode ∧ record.field ∈ keptFields := by
  have own {field : Nat} {content : Bytes} (kept : field ∈ keptFields)
      (listed : (⟨field, .bytes content⟩ : Record) ∈ request.records) :
      Writes nestingLimit ⟨field, .bytes content⟩ (Record.encode ⟨field, .bytes content⟩) := by
    have range : ∀ kept ∈ keptFields, 1 ≤ kept ∧ kept < 2 ^ 29 := by decide
    rw [encode_eq] at fits
    exact writes_bytes_of_mem fits (range field kept).1 (range field kept).2 listed 99
  have isRecord := listed
  simp only [records, List.mem_append, List.mem_map] at isRecord
  rcases isRecord with (⟨name, -, rfl⟩ | ⟨parameter, -, rfl⟩) | ⟨file, -, rfl⟩
  · exact ⟨own (by simp [keptFields]) listed, by simp [keptFields]⟩
  · exact ⟨own (by simp [keptFields]) listed, by simp [keptFields]⟩
  · exact ⟨own (by simp [keptFields]) listed, by simp [keptFields]⟩

theorem decode_encode {request : PluginRequest} (fits : request.encode.length < 2 ^ 64) :
    decode request.encode = some request := by
  have written : ∀ record ∈ request.records, Writes nestingLimit record record.encode := by
    intro record listed
    exact (writes_of_mem_records fits listed).1
  rw [decode, encode_eq, records?_flatMap_encode written]
  exact foldlM_mergeRecord_records request

theorem decode_append {front back : Bytes} {first second : PluginRequest}
    (inFront : decode front = some first) (inBack : decode back = some second) :
    decode (front ++ back) = some (first.append second) := by
  obtain ⟨frontRecords, readFront, mergedFront⟩ := Option.bind_eq_some_iff.mp inFront
  obtain ⟨backRecords, readBack, mergedBack⟩ := Option.bind_eq_some_iff.mp inBack
  have neutral : first.append {} = first := by
    simp [append]
  have later := foldlM_mergeRecord_append first {} backRecords
  rw [neutral, mergedBack] at later
  rw [decode, records?_append readFront readBack]
  simp only [Option.bind_eq_bind, Option.bind_some, List.foldlM_append, mergedFront]
  exact later

/-- Reading keeps what is a request's own and passes over the rest.

A request that can be held as bytes at all is read back as it was, in the order in which it was and
byte by byte. So it is when its records are written in other forms and have records of other fields
between them, groups within groups included. Two requests that are joined as bytes are read as one,
whose parameter is that of the second one unless only the first one has one. -/
theorem decode_keeps_own_records :
    (∀ request : PluginRequest, request.encode.length < 2 ^ 64 →
      decode request.encode = some request) ∧
    (∀ (request : PluginRequest) (parts : List (Record × Bytes)),
      (∀ part ∈ parts, Writes nestingLimit part.1 part.2) →
      (parts.map (·.1)).filter (·.field ∈ keptFields) = request.records →
      decode (parts.flatMap (·.2)) = some request) ∧
    ∀ (front back : Bytes) (first second : PluginRequest),
      decode front = some first → decode back = some second →
      decode (front ++ back) = some
        { filesToGenerate := first.filesToGenerate ++ second.filesToGenerate
          parameter := second.parameter.or first.parameter
          protoFiles := first.protoFiles ++ second.protoFiles } := by
  refine ⟨?_, ?_, ?_⟩
  · intro request fits
    exact decode_encode fits
  · intro request parts written own
    exact decode_of_writes written own
  · intro front back first second inFront inBack
    exact decode_append inFront inBack

/-- A request for one file, with a parameter and one descriptor. -/
def shelvesRequest : PluginRequest where
  filesToGenerate := ["shelves.proto"]
  parameter := some "verbose=true"
  protoFiles := [[0x0a, 0xff]]

/-- The records of `shelvesRequest`. Behind the first one stands a group of field 3 that holds the
number five in a form that is longer than it needs to be. -/
def shelvesParts : List (Record × Bytes) :=
  [(⟨1, .bytes (textBytes "shelves.proto")⟩, putText 1 "shelves.proto"),
    (⟨3, .group (Record.encode ⟨1, .varint 5⟩)⟩, [0x1b, 0x08, 0x85, 0x00, 0x1c]),
    (⟨2, .bytes (textBytes "verbose=true")⟩, putText 2 "verbose=true"),
    (⟨15, .bytes [0x0a, 0xff]⟩, putBytes 15 [0x0a, 0xff])]

theorem length_encode_shelvesRequest : shelvesRequest.encode.length < 2 ^ 64 := by
  decide +kernel

theorem writes_shelvesParts : ∀ part ∈ shelvesParts, Writes nestingLimit part.1 part.2 := by
  have own {record : Record} (listed : record ∈ shelvesRequest.records) :
      Writes nestingLimit record record.encode :=
    (writes_of_mem_records length_encode_shelvesRequest listed).1
  have key {field form : Nat} (byte : UInt8) (positive : 1 ≤ field) (small : byte.toNat < 128)
      (packed : byte.toNat = 8 * field + form) : IsKey field form [byte] := by
    refine ⟨positive, by omega, ?_, by simp, by omega⟩
    rw [← packed]
    exact .last small
  have zero : Groups 0 [0x00] := @Groups.last 0x00 (by decide)
  have five : IsVarint 5 [0x85, 0x00] :=
    ⟨@Groups.more 0x85 0 [0x00] (by decide) zero, by decide, by decide⟩
  have inside : ∀ part ∈ [((⟨1, .varint 5⟩ : Record), ([0x08, 0x85, 0x00] : Bytes))],
      Writes 99 part.1 part.2 := by
    intro part listed
    obtain rfl := List.mem_singleton.mp listed
    exact .plain (key 0x08 (by decide) (by decide) (by decide)) (.varint five)
  have group : Writes nestingLimit ⟨3, .group (Record.encode ⟨1, .varint 5⟩ ++ [])⟩
      [0x1b, 0x08, 0x85, 0x00, 0x1c] :=
    .group (key 0x1b (by decide) (by decide) (by decide)) inside
      (key 0x1c (by decide) (by decide) (by decide))
  rw [List.append_nil] at group
  intro part listed
  simp only [shelvesParts, List.mem_cons, List.not_mem_nil, or_false] at listed
  rcases listed with rfl | rfl | rfl | rfl
  · exact own (by simp [records, shelvesRequest])
  · exact group
  · exact own (by simp [records, shelvesRequest])
  · exact own (by simp [records, shelvesRequest])

theorem decode_shelvesRequest :
    decode shelvesRequest.encode = some shelvesRequest ∧
    decode (shelvesParts.flatMap (·.2)) = some shelvesRequest ∧
    decode (shelvesRequest.encode ++ shelvesParts.flatMap (·.2)) =
      some ⟨["shelves.proto", "shelves.proto"], some "verbose=true",
        [[0x0a, 0xff], [0x0a, 0xff]]⟩ := by
  obtain ⟨readBack, passOver, joined⟩ := decode_keeps_own_records
  have whole := readBack shelvesRequest length_encode_shelvesRequest
  have between := passOver shelvesRequest shelvesParts writes_shelvesParts rfl
  exact ⟨whole, between, joined _ _ _ _ whole between⟩

end HttpClientGen.PluginRequest
