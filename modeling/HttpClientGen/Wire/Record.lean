/-!
# Records of a message

A message is a sequence of records. Each has a field number and a value whose form is told by the
lowest three bits of its key: an integer, eight or four bytes, a string of bytes, or the start or
the end of a group. A group with all records in it counts as one record. `records?` reads a message
and `Record.encode` writes a record.
-/

namespace HttpClientGen.Wire

/-!
## Variable-length integers

Integers are written in groups of seven bits, the lowest group first, and every byte but the last
has its top bit set. An integer has at most 64 bits, so it takes at most ten bytes and the tenth
holds a single bit.
-/

abbrev Bytes := List UInt8

def putVarint (n : Nat) : Bytes :=
  if n < 128 then [UInt8.ofNat n] else UInt8.ofNat (n % 128 + 128) :: putVarint (n / 128)

/-- Reads an integer of at most `budget` bytes, the first of them if the budget is ten. -/
def readVarint (budget : Nat) (bytes : Bytes) : Option (Nat × Bytes) :=
  match budget, bytes with
  | 0, _ => none
  | _ + 1, [] => none
  | budget + 1, byte :: rest =>
    if byte.toNat < 128 then
      if budget = 0 ∧ 1 < byte.toNat then none else some (byte.toNat, rest)
    else (readVarint budget rest).map fun (high, rest) => (byte.toNat - 128 + 128 * high, rest)

def varint? (bytes : Bytes) : Option (Nat × Bytes) :=
  readVarint 10 bytes

theorem readVarint_shorter {budget : Nat} {bytes rest : Bytes} {n : Nat}
    (read : readVarint budget bytes = some (n, rest)) : rest.length < bytes.length := by
  induction budget generalizing bytes n with
  | zero => simp [readVarint] at read
  | succ budget ih =>
    cases bytes with
    | nil => simp [readVarint] at read
    | cons byte bytes =>
      simp only [readVarint] at read
      split at read
      · split at read
        · simp at read
        · obtain ⟨-, rfl⟩ := Prod.mk.inj (Option.some.inj read)
          simp
      · obtain ⟨⟨high, rest'⟩, inner, same⟩ := Option.map_eq_some_iff.mp read
        obtain ⟨-, rfl⟩ := Prod.mk.inj same
        exact Nat.lt_succ_of_lt (ih inner)

/-! ## Records -/

/-- The value of a record, by its form. -/
inductive Value
  | varint (n : Nat)
  | fixed64 (bytes : Bytes)
  | bytes (bytes : Bytes)
  /-- The records between the start and the end of a group, not read yet. -/
  | group (content : Bytes)
  | fixed32 (bytes : Bytes)
  deriving DecidableEq, Repr

structure Record where
  field : Nat
  value : Value
  deriving DecidableEq, Repr

def putKey (field form : Nat) : Bytes :=
  putVarint (8 * field + form)

def putNumber (field n : Nat) : Bytes :=
  putKey field 0 ++ putVarint n

def putBytes (field : Nat) (content : Bytes) : Bytes :=
  putKey field 2 ++ putVarint content.length ++ content

/-- Writes a value without its key. -/
def Value.encode : Value → Bytes
  | varint n => putVarint n
  | fixed64 content | fixed32 content | group content => content
  | bytes content => putVarint content.length ++ content

def Record.encode (record : Record) : Bytes :=
  match record.value with
  | .varint n => putNumber record.field n
  | .fixed64 content => putKey record.field 1 ++ content
  | .bytes content => putBytes record.field content
  | .group content => putKey record.field 3 ++ content ++ putKey record.field 4
  | .fixed32 content => putKey record.field 5 ++ content

/-- What stands in a message: a record, or one end of a group. -/
inductive Token
  | record (record : Record)
  | groupStart (field : Nat)
  | groupEnd (field : Nat)
  deriving DecidableEq, Repr

/-- The first `count` bytes and the rest, if there are as many. -/
def split? (count : Nat) (bytes : Bytes) : Option (Bytes × Bytes) :=
  if count ≤ bytes.length then some (bytes.splitAt count) else none

def readValue (form : Nat) (bytes : Bytes) : Option (Value × Bytes) :=
  match form with
  | 0 => (varint? bytes).map fun (n, rest) => (.varint n, rest)
  | 1 => (split? 8 bytes).map fun (value, rest) => (.fixed64 value, rest)
  | 2 => do
    let (count, rest) ← varint? bytes
    let (value, rest) ← split? count rest
    return (.bytes value, rest)
  | 5 => (split? 4 bytes).map fun (value, rest) => (.fixed32 value, rest)
  | _ => none

def readBehindKey (field form : Nat) (bytes : Bytes) : Option (Token × Bytes) :=
  match form with
  | 3 => some (.groupStart field, bytes)
  | 4 => some (.groupEnd field, bytes)
  | form => (readValue form bytes).map fun (value, rest) => (.record ⟨field, value⟩, rest)

/-- Reads a key: a field number, and the form of what follows. Keys have at most 32 bits, no field
has the number zero, and there are six forms. -/
def readKey (bytes : Bytes) : Option ((Nat × Nat) × Bytes) := do
  let (key, rest) ← varint? bytes
  if key < 0x100000000 ∧ 8 ≤ key ∧ key % 8 < 6 then some ((key / 8, key % 8), rest) else none

def readToken (bytes : Bytes) : Option (Token × Bytes) := do
  let ((field, form), rest) ← readKey bytes
  readBehindKey field form rest

theorem split?_le {count : Nat} {bytes value rest : Bytes}
    (read : split? count bytes = some (value, rest)) : rest.length ≤ bytes.length := by
  unfold split? at read
  split at read
  · obtain ⟨-, rfl⟩ := Prod.mk.inj ((List.splitAt_eq ..).symm.trans (Option.some.inj read))
    simp
  · simp at read

theorem readValue_le {form : Nat} {bytes rest : Bytes} {value : Value}
    (read : readValue form bytes = some (value, rest)) : rest.length ≤ bytes.length := by
  unfold readValue at read
  split at read
  · obtain ⟨⟨n, tail⟩, number, same⟩ := Option.map_eq_some_iff.mp read
    obtain ⟨-, rfl⟩ := Prod.mk.inj same
    exact Nat.le_of_lt (readVarint_shorter number)
  · obtain ⟨⟨n, tail⟩, cut, same⟩ := Option.map_eq_some_iff.mp read
    obtain ⟨-, rfl⟩ := Prod.mk.inj same
    exact split?_le cut
  · obtain ⟨⟨count, tail⟩, number, read⟩ := Option.bind_eq_some_iff.mp read
    obtain ⟨⟨content, tail'⟩, cut, same⟩ := Option.bind_eq_some_iff.mp read
    obtain ⟨-, rfl⟩ := Prod.mk.inj (Option.some.inj same)
    exact Nat.le_trans (split?_le cut) (Nat.le_of_lt (readVarint_shorter number))
  · obtain ⟨⟨n, tail⟩, cut, same⟩ := Option.map_eq_some_iff.mp read
    obtain ⟨-, rfl⟩ := Prod.mk.inj same
    exact split?_le cut
  · simp at read

theorem readBehindKey_le {field form : Nat} {bytes rest : Bytes} {token : Token}
    (read : readBehindKey field form bytes = some (token, rest)) :
    rest.length ≤ bytes.length := by
  unfold readBehindKey at read
  split at read
  · obtain ⟨-, rfl⟩ := Prod.mk.inj (Option.some.inj read)
    exact Nat.le_refl _
  · obtain ⟨-, rfl⟩ := Prod.mk.inj (Option.some.inj read)
    exact Nat.le_refl _
  · obtain ⟨⟨value, tail⟩, content, same⟩ := Option.map_eq_some_iff.mp read
    obtain ⟨-, rfl⟩ := Prod.mk.inj same
    exact readValue_le content

theorem readKey_shorter {bytes rest : Bytes} {key : Nat × Nat}
    (read : readKey bytes = some (key, rest)) : rest.length < bytes.length := by
  obtain ⟨⟨n, tail⟩, number, read⟩ := Option.bind_eq_some_iff.mp read
  dsimp only at read
  split at read
  · obtain ⟨-, rfl⟩ := Prod.mk.inj (Option.some.inj read)
    exact readVarint_shorter number
  · simp at read

theorem readToken_shorter {bytes rest : Bytes} {token : Token}
    (read : readToken bytes = some (token, rest)) : rest.length < bytes.length := by
  obtain ⟨⟨⟨field, form⟩, tail⟩, key, read⟩ := Option.bind_eq_some_iff.mp read
  exact Nat.lt_of_le_of_lt (readBehindKey_le read) (readKey_shorter key)

/-- Reads a group behind its start: what stands in it, and what follows its end. The groups that are
open have the numbers in `opened`, the innermost first, and each has to end with its own number. -/
def readGroup (opened : List Nat) (bytes : Bytes) : Option (Bytes × Bytes) :=
  match _read : readToken bytes, opened with
  | none, _ | some (.groupEnd _, _), [] => none
  | some (.groupEnd number, rest), [outermost] =>
    if number = outermost then some ([], rest) else none
  | some (.groupEnd number, rest), innermost :: outer =>
    if number = innermost then
      (readGroup outer rest).map fun (content, rest) => (putKey number 4 ++ content, rest)
    else none
  | some (.groupStart number, rest), opened =>
    (readGroup (number :: opened) rest).map fun (content, rest) =>
      (putKey number 3 ++ content, rest)
  | some (.record record, rest), opened =>
    (readGroup opened rest).map fun (content, rest) => (record.encode ++ content, rest)
termination_by bytes.length
decreasing_by all_goals exact readToken_shorter _read

theorem readGroup_le {opened : List Nat} {bytes content rest : Bytes}
    (read : readGroup opened bytes = some (content, rest)) : rest.length ≤ bytes.length := by
  fun_induction readGroup opened bytes generalizing content with
  | case1 | case2 | case4 | case6 => simp at read
  | case3 bytes number tail token =>
    obtain ⟨-, rfl⟩ := Prod.mk.inj (Option.some.inj read)
    exact Nat.le_of_lt (readToken_shorter token)
  | case5 | case7 | case8 =>
    rename_i token inner
    obtain ⟨⟨content, tail⟩, inside, same⟩ := Option.map_eq_some_iff.mp read
    obtain ⟨-, rfl⟩ := Prod.mk.inj same
    exact Nat.le_of_lt (Nat.lt_of_le_of_lt (inner inside) (readToken_shorter token))

/-- Reads a value whose key has the given field number and form. -/
def readFieldValue (field form : Nat) (bytes : Bytes) : Option (Value × Bytes) :=
  if form = 3 then (readGroup [field] bytes).map fun (content, rest) => (.group content, rest)
  else readValue form bytes

def readRecord (bytes : Bytes) : Option (Record × Bytes) := do
  let ((field, form), rest) ← readKey bytes
  let (value, rest) ← readFieldValue field form rest
  return (⟨field, value⟩, rest)

theorem readFieldValue_le {field form : Nat} {bytes rest : Bytes} {value : Value}
    (read : readFieldValue field form bytes = some (value, rest)) :
    rest.length ≤ bytes.length := by
  unfold readFieldValue at read
  split at read
  · obtain ⟨⟨content, tail⟩, inside, same⟩ := Option.map_eq_some_iff.mp read
    obtain ⟨-, rfl⟩ := Prod.mk.inj same
    exact readGroup_le inside
  · exact readValue_le read

theorem readRecord_shorter {bytes rest : Bytes} {record : Record}
    (read : readRecord bytes = some (record, rest)) : rest.length < bytes.length := by
  obtain ⟨⟨⟨field, form⟩, tail⟩, key, read⟩ := Option.bind_eq_some_iff.mp read
  obtain ⟨⟨value, tail'⟩, inside, same⟩ := Option.bind_eq_some_iff.mp read
  obtain ⟨-, rfl⟩ := Prod.mk.inj (Option.some.inj same)
  exact Nat.lt_of_le_of_lt (readFieldValue_le inside) (readKey_shorter key)

def records? (bytes : Bytes) : Option (List Record) :=
  if bytes = [] then some []
  else
    match _read : readRecord bytes with
    | none => none
    | some (record, rest) => (record :: ·) <$> records? rest
termination_by bytes.length
decreasing_by exact readRecord_shorter _read

/-- How deep messages and groups may nest in a message that stands on its own. -/
def nestingLimit : Nat := 100

end HttpClientGen.Wire
