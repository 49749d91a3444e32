import HttpClientGen.Plugin
import HttpClientGen.Proofs.Wire.Record

/-!
# Responses survive the wire

A caller reads a response by the fields of the protocol: the error, the supported features and the
files, each with its name, its content and the point where the content is to be inserted into
another file. The caller gets what the plug-in has written, whatever stands in the texts.
-/

namespace HttpClientGen

open Wire

/-- A generated file as a caller reads it. -/
structure ReadFile where
  name : Option String := none
  insertionPoint : Option String := none
  content : Option String := none
  deriving DecidableEq, Repr

/-- A response as a caller reads it. -/
structure ReadResponse where
  error : Option String := none
  supportedFeatures : Option Nat := none
  files : List ReadFile := []
  deriving DecidableEq, Repr

namespace ReadFile

/-- The file after one more record. A file is nested in a response. -/
def mergeRecord (file : ReadFile) (record : Record) : Option ReadFile :=
  match record.field with
  | 1 => record.value.text?.map fun name => { file with name := some name }
  | 2 => record.value.text?.map fun point => { file with insertionPoint := some point }
  | 15 => record.value.text?.map fun content => { file with content := some content }
  | _ => skip (nestingLimit - 1) record.value file

def decode (bytes : Bytes) : Option ReadFile := do
  (← records? bytes).foldlM mergeRecord {}

/-- What a caller reads of a file that the plug-in has written. -/
def ofGenerated (file : GeneratedFile) : ReadFile where
  name := some file.name
  content := some file.content

end ReadFile

namespace ReadResponse

def mergeRecord (response : ReadResponse) (record : Record) : Option ReadResponse :=
  match record.field with
  | 1 => record.value.text?.map fun error => { response with error := some error }
  | 2 => record.value.varint?.map fun features =>
      { response with supportedFeatures := some features }
  | 15 => do
    let file ← ReadFile.decode (← record.value.bytes?)
    return { response with files := response.files ++ [file] }
  | _ => skip nestingLimit record.value response

def decode (bytes : Bytes) : Option ReadResponse := do
  (← records? bytes).foldlM mergeRecord {}

def ofResponse (response : PluginResponse) : ReadResponse where
  error := response.error
  supportedFeatures := some PluginResponse.supportedFeatures
  files := response.files.map .ofGenerated

end ReadResponse

def PluginResponse.fileRecords (file : GeneratedFile) : List Record :=
  [⟨1, .bytes (textBytes file.name)⟩, ⟨15, .bytes (textBytes file.content)⟩]

theorem PluginResponse.encodeFile_eq (file : GeneratedFile) :
    encodeFile file = (fileRecords file).flatMap Record.encode := by
  simp [encodeFile, fileRecords, putText_eq]

/-- A file whose bytes can be counted is read back with its name and its content. -/
theorem ReadFile.decode_encodeFile {file : GeneratedFile}
    (fits : (PluginResponse.encodeFile file).length < 2 ^ 64) :
    decode (PluginResponse.encodeFile file) = some (ofGenerated file) := by
  rw [PluginResponse.encodeFile_eq] at fits
  have written : ∀ record ∈ PluginResponse.fileRecords file,
      Writes nestingLimit record record.encode := by
    intro record listed
    have isRecord := listed
    simp only [PluginResponse.fileRecords, List.mem_cons, List.not_mem_nil, or_false] at isRecord
    rcases isRecord with rfl | rfl
    · exact writes_bytes_of_mem fits (by decide) (by decide) listed 99
    · exact writes_bytes_of_mem fits (by decide) (by decide) listed 99
  rw [decode, PluginResponse.encodeFile_eq, records?_flatMap_encode written]
  simp [PluginResponse.fileRecords, mergeRecord, Value.text?_bytes, ofGenerated]

namespace PluginResponse

def records (response : PluginResponse) : List Record :=
  response.error.toList.map (fun error => ⟨1, .bytes (textBytes error)⟩) ++
    [⟨2, .varint supportedFeatures⟩] ++
    response.files.map fun file => ⟨15, .bytes (encodeFile file)⟩

theorem encode_eq (response : PluginResponse) :
    response.encode = response.records.flatMap Record.encode := by
  rw [encode, records, List.flatMap_append, List.flatMap_append, List.flatMap_map,
    List.flatMap_map, List.flatMap_singleton]
  cases response.error with
  | none => rfl
  | some error =>
    rw [Option.toList_some, List.flatMap_singleton]
    rfl

theorem writes_of_mem_records {response : PluginResponse} (fits : response.encode.length < 2 ^ 64)
    {record : Record} (listed : record ∈ response.records) :
    Writes nestingLimit record record.encode := by
  rw [encode_eq] at fits
  have isRecord := listed
  simp only [records, List.mem_append, List.mem_map, List.mem_singleton] at isRecord
  rcases isRecord with (⟨error, -, rfl⟩ | rfl) | ⟨file, -, rfl⟩
  · exact writes_bytes_of_mem fits (by decide) (by decide) listed 99
  · exact writes_varint (by decide) (by decide) (by decide) 99
  · exact writes_bytes_of_mem fits (by decide) (by decide) listed 99

end PluginResponse

namespace ReadResponse

theorem foldlM_mergeRecord_files {files : List GeneratedFile}
    (read : ∀ file ∈ files,
      ReadFile.decode (PluginResponse.encodeFile file) = some (.ofGenerated file))
    (response : ReadResponse) :
    (files.map fun file => (⟨15, .bytes (PluginResponse.encodeFile file)⟩ : Record)).foldlM
        mergeRecord response =
      some { response with files := response.files ++ files.map .ofGenerated } := by
  induction files generalizing response with
  | nil => simp
  | cons file files ih =>
    obtain ⟨here, later⟩ := List.forall_mem_cons.mp read
    have step : response.mergeRecord ⟨15, .bytes (PluginResponse.encodeFile file)⟩ =
        some { response with files := response.files ++ [.ofGenerated file] } := by
      simp [mergeRecord, Value.bytes?, here]
    rw [List.map_cons, List.foldlM_cons, step]
    refine (ih later _).trans ?_
    simp

/-- A response whose bytes can be counted is read back as it was. -/
theorem decode_encode {response : PluginResponse} (fits : response.encode.length < 2 ^ 64) :
    decode response.encode = some (ofResponse response) := by
  have written : ∀ record ∈ response.records, Writes nestingLimit record record.encode :=
    fun record listed => PluginResponse.writes_of_mem_records fits listed
  have read : ∀ file ∈ response.files,
      ReadFile.decode (PluginResponse.encodeFile file) = some (.ofGenerated file) := by
    intro file listed
    rw [PluginResponse.encode_eq] at fits
    have isRecord : (⟨15, .bytes (PluginResponse.encodeFile file)⟩ : Record) ∈ response.records :=
      List.mem_append_right _ (List.mem_map.mpr ⟨file, listed, rfl⟩)
    have shorter := length_le_of_mem_records isRecord
    exact ReadFile.decode_encodeFile (by omega)
  rw [decode, PluginResponse.encode_eq, records?_flatMap_encode written]
  simp only [PluginResponse.records, List.foldlM_append, Option.bind_eq_bind, Option.bind_some]
  cases error : response.error with
  | none =>
    simp [mergeRecord, Value.varint?, foldlM_mergeRecord_files read, ofResponse, error]
  | some text =>
    simp [mergeRecord, Value.varint?, Value.text?_bytes, foldlM_mergeRecord_files read, ofResponse,
      error]

end ReadResponse

end HttpClientGen
