import HttpClientGen.Proofs.Wire.Varint
import HttpClientGen.Wire.Value

/-!
# Written forms of records

The written forms of a record differ in the integers in them: keys, lengths and numbers may take more
bytes than they need. The reader gives back the record of any written form and stops right behind
it. A group is a record with all the records in it, and the reader keeps the shortest forms of
those.
-/

namespace HttpClientGen.Wire

/-- The bytes are a key for a field with what follows in the given form. -/
structure IsKey (field form : Nat) (bytes : Bytes) : Prop where
  positive : 1 ≤ field
  small : field < 2 ^ 29
  written : IsVarint (8 * field + form) bytes

/-- The bytes are what stands behind a key for a value that is not a group. -/
inductive WritesPlain : Nat → Value → Bytes → Prop
  | varint {n : Nat} {number : Bytes} (written : IsVarint n number) :
      WritesPlain 0 (.varint n) number
  | fixed64 {content : Bytes} (eight : content.length = 8) :
      WritesPlain 1 (.fixed64 content) content
  | bytes {content count : Bytes} (counted : IsVarint content.length count) :
      WritesPlain 2 (.bytes content) (count ++ content)
  | fixed32 {content : Bytes} (four : content.length = 4) :
      WritesPlain 5 (.fixed32 content) content

/-- The bytes are a written form of a record that takes at most `depth` levels: one for a plain value,
and one more than what stands in it for a group. -/
inductive Writes : Nat → Record → Bytes → Prop
  | plain {depth field form : Nat} {value : Value} {key body : Bytes}
      (opens : IsKey field form key) (behind : WritesPlain form value body) :
      Writes (depth + 1) ⟨field, value⟩ (key ++ body)
  | group {depth field : Nat} {start stop : Bytes} {parts : List (Record × Bytes)}
      (opens : IsKey field 3 start) (inside : ∀ part ∈ parts, Writes depth part.1 part.2)
      (closes : IsKey field 4 stop) :
      Writes (depth + 1) ⟨field, .group (parts.flatMap (·.1.encode))⟩
        (start ++ parts.flatMap (·.2) ++ stop)

section Completeness

theorem WritesPlain.form_lt {form : Nat} {value : Value} {body : Bytes}
    (behind : WritesPlain form value body) : form < 6 := by
  cases behind <;> decide

theorem split?_of_length {count : Nat} {content : Bytes} (length : content.length = count)
    (rest : Bytes) : split? count (content ++ rest) = some (content, rest) := by
  have enough : count ≤ (content ++ rest).length := by
    rw [List.length_append]
    omega
  rw [split?, if_pos enough, ← length, List.splitAt_eq]
  simp

theorem readValue_of_writesPlain {form : Nat} {value : Value} {body : Bytes}
    (behind : WritesPlain form value body) (rest : Bytes) :
    readValue form (body ++ rest) = some (value, rest) := by
  cases behind with
  | varint written => simp [readValue, varint?_of_isVarint written]
  | fixed64 eight => simp [readValue, split?_of_length eight]
  | bytes counted =>
    simp [readValue, List.append_assoc, varint?_of_isVarint counted, split?_of_length rfl]
  | fixed32 four => simp [readValue, split?_of_length four]

theorem readKey_of_isKey {field form : Nat} {key : Bytes} (isKey : IsKey field form key)
    (known : form < 6) (rest : Bytes) : readKey (key ++ rest) = some ((field, form), rest) := by
  have positive := isKey.positive
  have small := isKey.small
  have number : (8 * field + form) / 8 = field := by omega
  have ending : (8 * field + form) % 8 = form := by omega
  have accepted : 8 * field + form < 0x100000000 ∧ 8 ≤ 8 * field + form ∧ form < 6 := by omega
  simp only [readKey, varint?_of_isVarint isKey.written, Option.bind_eq_bind, Option.bind_some,
    number, ending, if_pos accepted]

theorem readToken_of_plain {field form : Nat} {value : Value} {key body : Bytes}
    (opens : IsKey field form key) (behind : WritesPlain form value body) (rest : Bytes) :
    readToken (key ++ body ++ rest) = some (.record ⟨field, value⟩, rest) := by
  have value := readValue_of_writesPlain behind rest
  rw [readToken, List.append_assoc, readKey_of_isKey opens behind.form_lt]
  cases behind <;> simp_all [readBehindKey]

theorem readToken_of_start {field : Nat} {start : Bytes} (opens : IsKey field 3 start)
    (rest : Bytes) : readToken (start ++ rest) = some (.groupStart field, rest) := by
  rw [readToken, readKey_of_isKey opens (by decide)]
  rfl

theorem readToken_of_end {field : Nat} {stop : Bytes} (closes : IsKey field 4 stop)
    (rest : Bytes) : readToken (stop ++ rest) = some (.groupEnd field, rest) := by
  rw [readToken, readKey_of_isKey closes (by decide)]
  rfl

variable {opened : List Nat} {bytes rest : Bytes}

def prepend (front : Bytes) : Option (Bytes × Bytes) → Option (Bytes × Bytes) :=
  Option.map fun (content, rest) => (front ++ content, rest)

theorem prepend_prepend (front between : Bytes) (read : Option (Bytes × Bytes)) :
    prepend front (prepend between read) = prepend (front ++ between) read := by
  cases read <;> simp [prepend]

theorem readGroup_of_record {record : Record}
    (token : readToken bytes = some (.record record, rest)) :
    readGroup opened bytes = prepend record.encode (readGroup opened rest) := by
  rw [readGroup.eq_def]
  split <;> simp_all [prepend]

theorem readGroup_of_start {number : Nat}
    (token : readToken bytes = some (.groupStart number, rest)) :
    readGroup opened bytes = prepend (putKey number 3) (readGroup (number :: opened) rest) := by
  rw [readGroup.eq_def]
  split <;> simp_all [prepend]

theorem readGroup_of_inner_end {number : Nat} (inner : opened ≠ [])
    (token : readToken bytes = some (.groupEnd number, rest)) :
    readGroup (number :: opened) bytes = prepend (putKey number 4) (readGroup opened rest) := by
  rw [readGroup.eq_def]
  split <;> simp_all [prepend]

theorem readGroup_of_end {number : Nat}
    (token : readToken bytes = some (.groupEnd number, rest)) :
    readGroup [number] bytes = some ([], rest) := by
  rw [readGroup.eq_def]
  split <;> simp_all

/-- Inside of a group, records that stand one behind the other become content of the group. -/
theorem readGroup_flatMap {parts : List (Record × Bytes)}
    (each : ∀ part ∈ parts, ∀ rest,
      readGroup opened (part.2 ++ rest) = prepend part.1.encode (readGroup opened rest)) :
    readGroup opened (parts.flatMap (·.2) ++ rest) =
      prepend (parts.flatMap (·.1.encode)) (readGroup opened rest) := by
  induction parts with
  | nil =>
    rw [List.flatMap_nil, List.flatMap_nil, List.nil_append]
    cases readGroup opened rest <;> simp [prepend]
  | cons part parts ih =>
    obtain ⟨here, later⟩ := List.forall_mem_cons.mp each
    rw [List.flatMap_cons, List.flatMap_cons, List.append_assoc, here, ih later, prepend_prepend]

/-- Inside of a group, a record in any written form becomes content of the group in its shortest
form. -/
theorem readGroup_of_writes {depth : Nat} {record : Record} (writes : Writes depth record bytes)
    (inner : opened ≠ []) (rest : Bytes) :
    readGroup opened (bytes ++ rest) = prepend record.encode (readGroup opened rest) := by
  induction writes generalizing opened rest with
  | plain opens behind => exact readGroup_of_record (readToken_of_plain opens behind rest)
  | @group depth field start stop parts opens _ closes ih =>
    have each : ∀ part ∈ parts, ∀ rest, readGroup (field :: opened) (part.2 ++ rest) =
        prepend part.1.encode (readGroup (field :: opened) rest) := by
      intro part listed rest
      exact ih part listed (by simp) rest
    have inside : readGroup (field :: opened) (parts.flatMap (·.2) ++ (stop ++ rest)) = _ :=
      readGroup_flatMap each
    have ends := readGroup_of_inner_end inner (readToken_of_end closes rest)
    rw [List.append_assoc, List.append_assoc, readGroup_of_start (readToken_of_start opens _),
      inside, ends, prepend_prepend, prepend_prepend]
    simp [Record.encode]

/-- The reader gives back the record of any written form, and stops behind it. -/
theorem readRecord_of_writes {depth : Nat} {record : Record} (writes : Writes depth record bytes)
    (rest : Bytes) : readRecord (bytes ++ rest) = some (record, rest) := by
  cases writes with
  | plain opens behind =>
    have value := readValue_of_writesPlain behind rest
    rw [readRecord, List.append_assoc, readKey_of_isKey opens behind.form_lt]
    cases behind <;> simp_all [readFieldValue]
  | @group depth field start stop parts opens within closes =>
    have each : ∀ part ∈ parts, ∀ rest, readGroup [field] (part.2 ++ rest) =
        prepend part.1.encode (readGroup [field] rest) := by
      intro part listed rest
      exact readGroup_of_writes (within part listed) (by simp) rest
    have inside : readGroup [field] (parts.flatMap (·.2) ++ (stop ++ rest)) = _ :=
      readGroup_flatMap each
    have ends := readGroup_of_end (readToken_of_end closes rest)
    rw [readRecord, List.append_assoc, List.append_assoc, readKey_of_isKey opens (by decide)]
    simp [readFieldValue, inside, ends, prepend]

theorem length_pos_of_writes {depth : Nat} {record : Record} (writes : Writes depth record bytes) :
    0 < bytes.length := by
  have opening {field form : Nat} {key : Bytes} (isKey : IsKey field form key) : 0 < key.length :=
    isKey.written.groups.length_pos
  cases writes with
  | plain opens _ =>
    have some := opening opens
    rw [List.length_append]
    omega
  | group opens _ _ =>
    have some := opening opens
    rw [List.length_append, List.length_append]
    omega

/-- Written forms one behind the other read as their records. -/
theorem records?_of_writes {depth : Nat} {parts : List (Record × Bytes)}
    (written : ∀ part ∈ parts, Writes depth part.1 part.2) :
    records? (parts.flatMap (·.2)) = some (parts.map (·.1)) := by
  induction parts with
  | nil =>
    rw [List.flatMap_nil, records?]
    rfl
  | cons part parts ih =>
    obtain ⟨here, later⟩ := List.forall_mem_cons.mp written
    have some := length_pos_of_writes here
    have present : part.2 ++ parts.flatMap (·.2) ≠ [] := by
      intro none
      rw [(List.append_eq_nil_iff.mp none).1] at some
      exact Nat.lt_irrefl 0 some
    have first := readRecord_of_writes here (parts.flatMap (·.2))
    rw [List.flatMap_cons, records?, if_neg present]
    split <;> simp_all

end Completeness

section Shortest

theorem isKey_putKey {field form : Nat} (positive : 1 ≤ field) (small : field < 2 ^ 29)
    (known : form < 6) : IsKey field form (putKey field form) :=
  ⟨positive, small, isVarint_putVarint (by omega)⟩

/-- A record of bytes is written by its shortest form. -/
theorem writes_bytes {field : Nat} (positive : 1 ≤ field) (small : field < 2 ^ 29)
    {content : Bytes} (fits : content.length < 2 ^ 64) (depth : Nat) :
    Writes (depth + 1) ⟨field, .bytes content⟩ (Record.encode ⟨field, .bytes content⟩) := by
  have behind := WritesPlain.bytes (isVarint_putVarint fits)
  have writes : Writes (depth + 1) ⟨field, .bytes content⟩
      (putKey field 2 ++ (putVarint content.length ++ content)) :=
    .plain (isKey_putKey positive small (by decide)) behind
  rwa [← List.append_assoc] at writes

/-- A record of an integer is written by its shortest form. -/
theorem writes_varint {field n : Nat} (positive : 1 ≤ field) (small : field < 2 ^ 29)
    (fits : n < 2 ^ 64) (depth : Nat) :
    Writes (depth + 1) ⟨field, .varint n⟩ (Record.encode ⟨field, .varint n⟩) :=
  .plain (isKey_putKey positive small (by decide)) (.varint (isVarint_putVarint fits))

/-- Bytes in a message are not longer than the message. -/
theorem length_le_of_mem_records {records : List Record} {field : Nat} {content : Bytes}
    (listed : ⟨field, .bytes content⟩ ∈ records) :
    content.length ≤ (records.flatMap Record.encode).length := by
  have part := List.sublist_flatten_of_mem (List.mem_map_of_mem (f := Record.encode) listed)
  have whole : content.length ≤ (Record.encode ⟨field, .bytes content⟩).length := by
    simp only [Record.encode, putBytes, List.length_append]
    omega
  rw [List.flatMap_def]
  exact Nat.le_trans whole part.length_le

/-- Records of bytes are written by their shortest forms in every message whose length can be
written. -/
theorem writes_bytes_of_mem {records : List Record} {field : Nat} {content : Bytes}
    (fits : (records.flatMap Record.encode).length < 2 ^ 64) (positive : 1 ≤ field)
    (small : field < 2 ^ 29) (listed : ⟨field, .bytes content⟩ ∈ records) (depth : Nat) :
    Writes (depth + 1) ⟨field, .bytes content⟩ (Record.encode ⟨field, .bytes content⟩) :=
  writes_bytes positive small (Nat.lt_of_le_of_lt (length_le_of_mem_records listed) fits) depth

/-- Records that are written by their shortest forms are read back. -/
theorem records?_flatMap_encode {depth : Nat} {records : List Record}
    (written : ∀ record ∈ records, Writes depth record record.encode) :
    records? (records.flatMap Record.encode) = some records := by
  have parts : ∀ part ∈ records.map fun record => (record, record.encode),
      Writes depth part.1 part.2 := by
    intro part listed
    obtain ⟨record, own, rfl⟩ := List.mem_map.mp listed
    exact written record own
  have read := records?_of_writes parts
  simpa only [List.flatMap_map, List.map_map, Function.comp_def, List.map_id'] using read

/-- A message that has only fields of bytes, and whose length can be written, is read back. -/
theorem records?_of_bytes {records : List Record}
    (each : ∀ record ∈ records, ∃ field content,
      record = ⟨field, .bytes content⟩ ∧ 1 ≤ field ∧ field < 2 ^ 29)
    (fits : (records.flatMap Record.encode).length < 2 ^ 64) :
    records? (records.flatMap Record.encode) = some records := by
  have written : ∀ record ∈ records, Writes 1 record record.encode := by
    intro record listed
    obtain ⟨field, content, rfl, positive, small⟩ := each record listed
    exact writes_bytes_of_mem fits positive small listed 0
  exact records?_flatMap_encode written

/-- A record that has a written form is also written by its shortest one. -/
theorem Writes.encode {depth : Nat} {record : Record} {bytes : Bytes}
    (writes : Writes depth record bytes) : Writes depth record record.encode := by
  induction writes with
  | @plain depth field form value key body opens behind =>
    have key : IsKey field form (putKey field form) :=
      isKey_putKey opens.positive opens.small behind.form_lt
    cases behind with
    | varint written => exact writes_varint opens.positive opens.small written.fits depth
    | fixed64 eight => exact .plain key (.fixed64 eight)
    | bytes counted => exact writes_bytes opens.positive opens.small counted.fits depth
    | fixed32 four => exact .plain key (.fixed32 four)
  | @group depth field start stop parts opens _ closes ih =>
    have starts : IsKey field 3 (putKey field 3) :=
      isKey_putKey opens.positive opens.small (by decide)
    have stops : IsKey field 4 (putKey field 4) :=
      isKey_putKey closes.positive closes.small (by decide)
    have inside : ∀ part ∈ parts.map fun part => (part.1, part.1.encode),
        Writes depth part.1 part.2 := by
      intro part listed
      obtain ⟨origin, isPart, rfl⟩ := List.mem_map.mp listed
      exact ih origin isPart
    have group := Writes.group starts inside stops
    simp only [List.flatMap_map] at group
    exact group

/-- A record that takes at most `depth` levels can be skipped where so many are left. -/
theorem isSkippable_of_writes {depth : Nat} {record : Record} {bytes : Bytes}
    (writes : Writes depth record bytes) : record.value.isSkippable depth = true := by
  induction writes with
  | plain _ behind => cases behind <;> rfl
  | @group depth field start stop parts _ within _ ih =>
    have shortest : ∀ record ∈ parts.map (·.1), Writes depth record record.encode := by
      intro record listed
      obtain ⟨part, isPart, rfl⟩ := List.mem_map.mp listed
      exact (within part isPart).encode
    have content := records?_flatMap_encode shortest
    rw [List.flatMap_map] at content
    rw [Value.isSkippable, content, Option.getD_some, List.all_map, List.all_eq_true]
    exact ih

end Shortest

/-!
What follows a record does not matter to its reader, be the record in a written form or not.
-/

section Extension

variable {bytes rest : Bytes}

theorem split?_append {count : Nat} {content : Bytes}
    (read : split? count bytes = some (content, rest)) (more : Bytes) :
    split? count (bytes ++ more) = some (content, rest ++ more) := by
  rw [split?] at read
  by_cases enough : count ≤ bytes.length
  · rw [if_pos enough, List.splitAt_eq] at read
    obtain ⟨rfl, rfl⟩ := Prod.mk.inj (Option.some.inj read)
    have stillEnough : count ≤ (bytes ++ more).length := by
      rw [List.length_append]
      omega
    rw [split?, if_pos stillEnough, List.splitAt_eq, List.take_append_of_le_length enough,
      List.drop_append_of_le_length enough]
  · rw [if_neg enough] at read
    cases read

theorem readValue_append {form : Nat} {value : Value}
    (read : readValue form bytes = some (value, rest)) (more : Bytes) :
    readValue form (bytes ++ more) = some (value, rest ++ more) := by
  unfold readValue at read ⊢
  split at read
  · obtain ⟨⟨n, tail⟩, number, same⟩ := Option.map_eq_some_iff.mp read
    obtain ⟨rfl, rfl⟩ := Prod.mk.inj same
    rw [varint?, readVarint_append number]
    rfl
  · obtain ⟨⟨content, tail⟩, cut, same⟩ := Option.map_eq_some_iff.mp read
    obtain ⟨rfl, rfl⟩ := Prod.mk.inj same
    rw [split?_append cut]
    rfl
  · obtain ⟨⟨count, behind⟩, number, read⟩ := Option.bind_eq_some_iff.mp read
    obtain ⟨⟨content, tail⟩, cut, same⟩ := Option.bind_eq_some_iff.mp read
    obtain ⟨rfl, rfl⟩ := Prod.mk.inj (Option.some.inj same)
    simp only [varint?, readVarint_append number, Option.bind_eq_bind, Option.bind_some,
      split?_append cut]
    rfl
  · obtain ⟨⟨content, tail⟩, cut, same⟩ := Option.map_eq_some_iff.mp read
    obtain ⟨rfl, rfl⟩ := Prod.mk.inj same
    rw [split?_append cut]
    rfl
  · cases read

theorem readBehindKey_append {field form : Nat} {token : Token}
    (read : readBehindKey field form bytes = some (token, rest)) (more : Bytes) :
    readBehindKey field form (bytes ++ more) = some (token, rest ++ more) := by
  unfold readBehindKey at read ⊢
  split at read
  · obtain ⟨rfl, rfl⟩ := Prod.mk.inj (Option.some.inj read)
    rfl
  · obtain ⟨rfl, rfl⟩ := Prod.mk.inj (Option.some.inj read)
    rfl
  · obtain ⟨⟨value, tail⟩, content, same⟩ := Option.map_eq_some_iff.mp read
    obtain ⟨rfl, rfl⟩ := Prod.mk.inj same
    rw [readValue_append content]
    rfl

theorem readKey_append {key : Nat × Nat} (read : readKey bytes = some (key, rest))
    (more : Bytes) : readKey (bytes ++ more) = some (key, rest ++ more) := by
  obtain ⟨⟨n, tail⟩, number, read⟩ := Option.bind_eq_some_iff.mp read
  rw [readKey, varint?, readVarint_append number]
  dsimp only at read
  split at read
  · next accepted =>
    obtain ⟨rfl, rfl⟩ := Prod.mk.inj (Option.some.inj read)
    simp only [Option.bind_eq_bind, Option.bind_some, if_pos accepted]
  · cases read

theorem readToken_append {token : Token} (read : readToken bytes = some (token, rest))
    (more : Bytes) : readToken (bytes ++ more) = some (token, rest ++ more) := by
  obtain ⟨⟨⟨field, form⟩, tail⟩, key, behind⟩ := Option.bind_eq_some_iff.mp read
  rw [readToken, readKey_append key]
  exact readBehindKey_append behind more

theorem readGroup_append {opened : List Nat} {content : Bytes}
    (read : readGroup opened bytes = some (content, rest)) (more : Bytes) :
    readGroup opened (bytes ++ more) = some (content, rest ++ more) := by
  fun_induction readGroup opened bytes generalizing content with
  | case1 | case2 | case4 | case6 => cases read
  | case3 bytes number tail token =>
    obtain ⟨rfl, rfl⟩ := Prod.mk.inj (Option.some.inj read)
    exact readGroup_of_end (readToken_append token more)
  | case5 bytes tail number outer several token ih =>
    obtain ⟨⟨content, rest⟩, inside, same⟩ := Option.map_eq_some_iff.mp read
    obtain ⟨rfl, rfl⟩ := Prod.mk.inj same
    have inner : outer ≠ [] := fun none => several none
    rw [readGroup_of_inner_end inner (readToken_append token more), ih inside]
    rfl
  | case7 opened bytes number tail token ih =>
    obtain ⟨⟨content, rest⟩, inside, same⟩ := Option.map_eq_some_iff.mp read
    obtain ⟨rfl, rfl⟩ := Prod.mk.inj same
    rw [readGroup_of_start (readToken_append token more), ih inside]
    rfl
  | case8 opened bytes record tail token ih =>
    obtain ⟨⟨content, rest⟩, inside, same⟩ := Option.map_eq_some_iff.mp read
    obtain ⟨rfl, rfl⟩ := Prod.mk.inj same
    rw [readGroup_of_record (readToken_append token more), ih inside]
    rfl

theorem readFieldValue_append {field form : Nat} {value : Value}
    (read : readFieldValue field form bytes = some (value, rest)) (more : Bytes) :
    readFieldValue field form (bytes ++ more) = some (value, rest ++ more) := by
  rw [readFieldValue] at read
  rw [readFieldValue]
  split at read
  · next isGroup =>
    obtain ⟨⟨content, tail⟩, inside, same⟩ := Option.map_eq_some_iff.mp read
    obtain ⟨rfl, rfl⟩ := Prod.mk.inj same
    rw [if_pos isGroup, readGroup_append inside]
    rfl
  · next notGroup =>
    rw [if_neg notGroup]
    exact readValue_append read more

theorem readRecord_append {record : Record} (read : readRecord bytes = some (record, rest))
    (more : Bytes) : readRecord (bytes ++ more) = some (record, rest ++ more) := by
  obtain ⟨⟨⟨field, form⟩, behind⟩, key, read⟩ := Option.bind_eq_some_iff.mp read
  obtain ⟨⟨value, tail⟩, inside, same⟩ := Option.bind_eq_some_iff.mp read
  obtain ⟨rfl, rfl⟩ := Prod.mk.inj (Option.some.inj same)
  rw [readRecord, readKey_append key]
  simp only [Option.bind_eq_bind, Option.bind_some, readFieldValue_append inside]
  rfl

/-- Behind a message, the records of whatever follows come after its own. -/
theorem records?_append_eq_map {front : Bytes} {first : List Record}
    (inFront : records? front = some first) (back : Bytes) :
    records? (front ++ back) = (records? back).map (first ++ ·) := by
  fun_induction records? front generalizing first with
  | case1 =>
    obtain rfl := Option.some.inj inFront
    simp
  | case2 => cases inFront
  | case3 front some record tail read ih =>
    obtain ⟨others, later, rfl⟩ := Option.map_eq_some_iff.mp inFront
    have present : front ++ back ≠ [] := by
      intro none
      exact some (List.append_eq_nil_iff.mp none).1
    rw [records?, if_neg present]
    split
    · next missing => simp [readRecord_append read] at missing
    · next found =>
      rw [readRecord_append read] at found
      obtain ⟨rfl, rfl⟩ := Prod.mk.inj (Option.some.inj found)
      rw [ih later]
      exact Option.map_map ..

/-- Two messages one behind the other have the records of the first and then those of the second. -/
theorem records?_append {front back : Bytes} {first second : List Record}
    (inFront : records? front = some first) (inBack : records? back = some second) :
    records? (front ++ back) = some (first ++ second) := by
  rw [records?_append_eq_map inFront, inBack]
  rfl

end Extension

/-!
## Fields of text, and fields that are skipped

What is written for a field of text is read back as this text, and a record that is skipped leaves
the message as it was.
-/

theorem text?_textBytes (text : String) : text? (textBytes text) = some text := by
  simp only [text?, textBytes, Array.toArray_toList]
  exact dif_pos text.isValidUTF8

theorem Value.text?_bytes (text : String) : (Value.bytes (textBytes text)).text? = some text :=
  text?_textBytes text

theorem putText_eq (field : Nat) (text : String) :
    putText field text = Record.encode ⟨field, .bytes (textBytes text)⟩ :=
  rfl

theorem skip_of_writes {α : Type} {depth : Nat} {record : Record} {bytes : Bytes}
    (writes : Writes depth record bytes) (message : α) :
    skip depth record.value message = some message :=
  if_pos (isSkippable_of_writes writes)

end HttpClientGen.Wire
