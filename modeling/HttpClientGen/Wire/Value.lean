import HttpClientGen.Wire.Record

/-!
# Values of fields

What a record's value means for a field of a known type, and when a record of an unknown field may
be passed over.
-/

namespace HttpClientGen.Wire

def text? (bytes : Bytes) : Option String :=
  String.fromUTF8? ⟨bytes.toArray⟩

/-- A text in UTF-8. -/
def textBytes (text : String) : Bytes :=
  text.toUTF8.data.toList

def putText (field : Nat) (text : String) : Bytes :=
  putBytes field (textBytes text)

def signed32 (n : Nat) : Int :=
  Int.bmod n 0x100000000

def signed64 (n : Nat) : Int :=
  Int.bmod n 0x10000000000000000

/-- The integer of 64 bits that is written for a signed number. -/
def unsigned64 (n : Int) : Nat :=
  (n % 0x10000000000000000).toNat

namespace Value

def bytes? : Value → Option Bytes
  | bytes content => some content
  | _ => none

def text? (value : Value) : Option String :=
  value.bytes?.bind Wire.text?

def varint? : Value → Option Nat
  | varint n => some n
  | _ => none

def int32? (value : Value) : Option Int :=
  value.varint?.map signed32

def flag? (value : Value) : Option Bool :=
  value.varint?.map (· ≠ 0)

/-- The value of a field of double precision, as its eight bytes. -/
def fixed64? : Value → Option Bytes
  | fixed64 content => some content
  | _ => none

def message? : Value → Option Bytes
  | bytes content | group content => some content
  | _ => none

/-- Whether a value can be skipped where messages may nest `depth` deep. Even a plain value takes
one level, and what stands in a group takes one more than the group. -/
def isSkippable : Nat → Value → Bool
  | 0, _ => false
  | depth + 1, group content =>
    ((records? content).getD []).all fun record => isSkippable depth record.value
  | _ + 1, _ => true

/-- Whether the groups in a value nest at most `depth` deep. -/
def groupsFit : Nat → Value → Bool
  | 0, group _ => false
  | depth + 1, group content =>
    ((records? content).getD []).all fun record => groupsFit depth record.value
  | _, _ => true

end Value

/-- Skips a record of an unknown field of a message in which messages may nest `depth` deep. -/
def skip {α : Type} (depth : Nat) (value : Value) (message : α) : Option α :=
  if value.isSkippable depth then some message else none

/-- Reads values that stand one behind the other, all in the given form. They have to take up at
least a byte each. -/
def readPacked (form : Nat) (bytes : Bytes) : Option (List Value) :=
  if bytes = [] then some []
  else
    match readValue form bytes with
    | none => none
    | some (value, rest) =>
      if _shorter : rest.length < bytes.length then (value :: ·) <$> readPacked form rest else none
termination_by bytes.length

end HttpClientGen.Wire
