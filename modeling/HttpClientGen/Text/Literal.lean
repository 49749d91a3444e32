/-!
# Literals of a schema

What a schema writes as text where a value is meant: bytes with escapes in them, and numbers in
decimal digits.
-/

namespace HttpClientGen.Text

/-!
## Escaped bytes

Bytes as they are written in a schema. A backslash starts an escape: one of a few letters and signs,
up to three octal digits, or `x` with two hexadecimal digits. All other characters stand for their
own bytes in UTF-8.
-/

/-- The byte of an escape that takes one character. -/
def simpleEscape? : Char → Option UInt8
  | 'a' => some 7
  | 'b' => some 8
  | 't' => some 9
  | 'n' => some 10
  | 'v' => some 11
  | 'f' => some 12
  | 'r' => some 13
  | '"' => some 34
  | '\u0027' => some 39
  | '?' => some 63
  | '\\' => some 92
  | _ => none

def isOctalDigit (c : Char) : Bool :=
  '0' ≤ c && c ≤ '7'

def hexDigit? (c : Char) : Option Nat :=
  if c.isDigit then some (c.toNat - '0'.toNat)
  else if 'a' ≤ c ∧ c ≤ 'f' then some (c.toNat - 'a'.toNat + 10)
  else if 'A' ≤ c ∧ c ≤ 'F' then some (c.toNat - 'A'.toNat + 10)
  else none

/-- The byte of two hexadecimal digits. A plus sign may stand in the place of the first one. -/
def hexByte? (high low : Char) : Option UInt8 := do
  let high ← if high = '+' then some 0 else hexDigit? high
  return UInt8.ofNat (16 * high + (← hexDigit? low))

/-- Reads the part of an escape behind the backslash. Octal digits that exceed a byte lose their
highest bit. -/
def escape? : List Char → Option (UInt8 × List Char)
  | 'x' :: high :: low :: rest | 'X' :: high :: low :: rest =>
    (hexByte? high low).map (·, rest)
  | c :: rest =>
    if isOctalDigit c then
      let more := (rest.take 2).takeWhile isOctalDigit
      let value := (c :: more).foldl (fun n d => 8 * n + (d.toNat - '0'.toNat)) 0
      some (UInt8.ofNat value, rest.drop more.length)
    else (simpleEscape? c).map (·, rest)
  | [] => none

theorem escape?_shorter {cs rest : List Char} {byte : UInt8}
    (read : escape? cs = some (byte, rest)) : rest.length < cs.length := by
  unfold escape? at read
  split at read
  · obtain ⟨_, -, same⟩ := Option.map_eq_some_iff.mp read
    obtain ⟨-, rfl⟩ := Prod.mk.inj same
    simp only [List.length_cons]
    omega
  · obtain ⟨_, -, same⟩ := Option.map_eq_some_iff.mp read
    obtain ⟨-, rfl⟩ := Prod.mk.inj same
    simp only [List.length_cons]
    omega
  · split at read
    · obtain ⟨-, rfl⟩ := Prod.mk.inj (Option.some.inj read)
      simp only [List.length_drop, List.length_cons]
      omega
    · obtain ⟨_, -, same⟩ := Option.map_eq_some_iff.mp read
      obtain ⟨-, rfl⟩ := Prod.mk.inj same
      simp
  · simp at read

def unescape? (cs : List Char) : Option (List UInt8) :=
  match cs with
  | [] => some []
  | '\\' :: rest =>
    match _read : escape? rest with
    | none => none
    | some (byte, rest) => (byte :: ·) <$> unescape? rest
  | c :: rest => ((String.singleton c).toUTF8.data.toList ++ ·) <$> unescape? rest
termination_by cs.length
decreasing_by
  · have := escape?_shorter _read
    simp only [List.length_cons]
    omega
  · simp

/-!
## Numbers in texts

Integers and decimal fractions as they are written in decimal digits, with an optional sign in
front. Nothing else may stand in the text, not even a blank.
-/

/-- The number that decimal digits stand for. There has to be a digit. -/
def digits? (cs : List Char) : Option Nat :=
  if cs ≠ [] ∧ cs.all Char.isDigit then
    some (cs.foldl (fun n c => 10 * n + (c.toNat - '0'.toNat)) 0)
  else none

/-- The number that a text stands for, which may have a plus sign in front. -/
def natural? : List Char → Option Nat
  | '+' :: cs => digits? cs
  | cs => digits? cs

def integer? : List Char → Option Int
  | '-' :: cs => (digits? cs).map fun n => -(n : Int)
  | cs => (natural? cs).map fun n => (n : Int)

/-- A decimal fraction without a sign: the number that its digits stand for, times a power of
ten. -/
structure Decimal where
  digits : Nat
  exponent : Int
  deriving DecidableEq, Repr

/-- The power of ten that may follow the digits of a decimal fraction; zero if nothing follows. -/
def exponent? : List Char → Option Int
  | [] => some 0
  | c :: cs => if c = 'e' ∨ c = 'E' then integer? cs else none

/-- The decimal fraction that a text stands for. A digit has to stand before or behind the point. -/
def decimal? (cs : List Char) : Option Decimal := do
  let whole := cs.takeWhile Char.isDigit
  let (behind, rest) := match cs.dropWhile Char.isDigit with
    | '.' :: rest => (rest.takeWhile Char.isDigit, rest.dropWhile Char.isDigit)
    | rest => ([], rest)
  return {
    digits := ← digits? (whole ++ behind)
    exponent := (← exponent? rest) - behind.length }

/-- What a floating-point number is apart from its sign. -/
inductive Size
  | decimal (decimal : Decimal)
  | infinite
  | notANumber
  deriving DecidableEq, Repr

/-- The floating-point number that a text stands for, with whether a minus sign stands in front.
Besides decimal fractions there are the infinite ones and what is not a number at all, in letters of
either case. -/
def float? (cs : List Char) : Option (Bool × Size) :=
  let (isNegative, plain) := match cs with
    | '-' :: plain => (true, plain)
    | '+' :: plain => (false, plain)
    | plain => (false, plain)
  (isNegative, ·) <$>
    match String.ofList (plain.map Char.toLower) with
    | "inf" | "infinity" => some .infinite
    | "nan" => some .notANumber
    | _ => Size.decimal <$> decimal? plain

end HttpClientGen.Text
