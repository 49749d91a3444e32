import HttpClientGen.Proofs.Script.Syntax
import HttpClientGen.Text.Literal

/-!
# Literals of JavaScript

What a double-quoted literal and a template literal evaluate to, with all escapes that a module may
use. Escapes by number have to name a character, so one half of a surrogate pair is refused. The
holes of a template literal are chains, and their values are given.
-/

namespace HttpClientGen.Script

/-- The characters that end a line of code. -/
def isLineEnd (c : Char) : Bool :=
  c == '\n' || c == '\r' || c == '\u2028' || c == '\u2029'

/-- The character with the number that hexadecimal digits stand for. -/
def charOfHex? (digits : List Char) : Option Char :=
  let number := digits.foldl (fun n digit => 16 * n + (Text.hexDigit? digit).getD 0) 0
  if digits.all (Text.hexDigit? · |>.isSome) ∧ number.isValidChar then some (Char.ofNat number)
  else none

def readHex (count : Nat) (cs : List Char) : Option (List Char × List Char) :=
  if cs.length < count then none
  else (charOfHex? (cs.take count)).map ([·], cs.drop count)

def escapedLetter : Char → Char
  | 'b' => '\x08'
  | 'f' => '\x0c'
  | 'n' => '\n'
  | 'r' => '\r'
  | 't' => '\t'
  | 'v' => '\x0b'
  | c => c

/-- Reads an escape behind its backslash: the text that it stands for, and what follows it. The end of
a line stands for nothing. -/
def readEscape : List Char → Option (List Char × List Char)
  | [] => none
  | c :: cs =>
    if c = 'x' then readHex 2 cs
    else if c = 'u' then
      match Text.cutFirst '}' cs with
      | some ('{' :: digit :: digits, rest) => (charOfHex? (digit :: digits)).map ([·], rest)
      | _ => readHex 4 cs
    else if c.isDigit then
      if c = '0' ∧ cs.head?.all (!·.isDigit) then some (['\x00'], cs) else none
    else if c = '\r' ∧ cs.head? = some '\n' then some ([], cs.tail)
    else if isLineEnd c then some ([], cs)
    else some ([escapedLetter c], cs)

section Escapes

variable {cs rest meaning digits : List Char} {c : Char}

/-- A slash and a backtick have no part in an escape by number. -/
theorem not_mem_of_charOfHex? (read : charOfHex? digits = some c) :
    ∀ digit ∈ digits, digit ∉ ['/', '\x60'] := by
  intro digit listed sign
  rw [charOfHex?] at read
  split at read
  · next valid =>
    have isDigit := List.all_eq_true.mp valid.1 digit listed
    simp only [List.mem_cons, List.not_mem_nil, or_false] at sign
    rcases sign with rfl | rfl
    · cases isDigit
    · cases isDigit
  · cases read

/-- What an escape takes from a text, and what it stands for: one character at most. But for the last
character that it takes there is no slash and no backtick. -/
structure Eats (cs meaning rest eaten : List Char) : Prop where
  nonempty : eaten ≠ []
  split : cs = eaten ++ rest
  short : meaning.length ≤ 1
  plain : ∀ c ∈ eaten.dropLast, c ∉ ['/', '\x60']

theorem eats_one (short : meaning.length ≤ 1) : Eats (c :: cs) meaning cs [c] :=
  ⟨by simp, by simp, short, by simp⟩

/-- An escape by number behind its letter. -/
theorem eats_number {eaten : List Char} {letter : Char} (isLetter : letter ∉ ['/', '\x60'])
    (plain : ∀ c ∈ eaten.dropLast, c ∉ ['/', '\x60']) (read : cs = eaten ++ rest) :
    Eats (letter :: cs) [c] rest (letter :: eaten) := by
  refine ⟨by simp, by simp [read], by simp, fun c mem => ?_⟩
  cases eaten with
  | nil => cases mem
  | cons digit digits =>
    rcases List.mem_cons.mp mem with rfl | later
    · exact isLetter
    · exact plain c later

theorem eats_of_readHex {count : Nat} {letter : Char} (isLetter : letter ∉ ['/', '\x60'])
    (read : readHex count cs = some (meaning, rest)) :
    ∃ eaten, Eats (letter :: cs) meaning rest eaten := by
  rw [readHex] at read
  split at read
  · cases read
  · obtain ⟨c, found, ⟨⟩⟩ := Option.map_eq_some_iff.mp read
    refine ⟨_, eats_number isLetter (fun d mem => ?_) (List.take_append_drop count cs).symm⟩
    exact not_mem_of_charOfHex? found d (List.dropLast_subset _ mem)

theorem exists_eats_of_readEscape (read : readEscape cs = some (meaning, rest)) :
    ∃ eaten, Eats cs meaning rest eaten := by
  cases cs with
  | nil => cases read
  | cons c cs =>
    rw [readEscape] at read
    split at read
    · exact eats_of_readHex (by simp [*]) read
    · split at read
      · split at read
        · next digit digits rest' cut =>
          obtain ⟨meant, found, ⟨⟩⟩ := Option.map_eq_some_iff.mp read
          obtain ⟨-, rfl⟩ := Text.cutFirst_eq_some_iff.mp cut
          have braced : '{' :: digit :: digits ++ '}' :: rest =
              ('{' :: digit :: digits ++ ['}']) ++ rest := by simp
          refine ⟨_, eats_number (by simp [*]) (fun d mem => ?_) braced⟩
          rw [List.dropLast_concat] at mem
          rcases List.mem_cons.mp mem with rfl | isDigit
          · decide
          · exact not_mem_of_charOfHex? found d isDigit
        · exact eats_of_readHex (by simp [*]) read
      · split at read
        · split at read
          · cases read
            exact ⟨_, eats_one (by simp)⟩
          · cases read
        · split at read
          · next feed =>
            cases read
            obtain ⟨behind, rfl⟩ := List.head?_eq_some_iff.mp feed.2
            exact ⟨['\r', '\n'], by simp, by simp [feed.1], by simp, by simp⟩
          · split at read
            · cases read
              exact ⟨_, eats_one (by simp)⟩
            · cases read
              exact ⟨_, eats_one (by simp)⟩

theorem length_of_readEscape (read : readEscape cs = some (meaning, rest)) :
    rest.length < cs.length := by
  obtain ⟨eaten, nonempty, rfl, -, -⟩ := exists_eats_of_readEscape read
  have some := List.length_pos_iff.mpr nonempty
  rw [List.length_append]
  omega

end Escapes

def prepend (front : List Char) (read : List Char × List Char) : List Char × List Char :=
  (front ++ read.1, read.2)

/-- Reads a double-quoted literal behind its first quote: the text that it stands for, and what
follows it. -/
def readString : List Char → Option (List Char × List Char)
  | [] => none
  | c :: cs =>
    if c = '"' then some ([], cs)
    else if c = '\n' ∨ c = '\r' then none
    else if c = '\\' then
      match _read : readEscape cs with
      | none => none
      | some (meaning, rest) => (readString rest).map (prepend meaning)
    else (readString cs).map (prepend [c])
termination_by cs => cs.length
decreasing_by
  · exact Nat.lt_succ_of_lt (length_of_readEscape _read)
  · exact Nat.lt_succ_self _

/-- Evaluates a template literal behind its first backtick: the text that it stands for, and what
follows it. The end of a line is a line feed, whatever it is in the code. -/
def evalTemplate (value : Chain → String) : List Char → Option (List Char × List Char)
  | [] => none
  | c :: cs =>
    if c = '\x60' then some ([], cs)
    else if c = '\\' then
      match _read : readEscape cs with
      | none => none
      | some (meaning, rest) => (evalTemplate value rest).map (prepend meaning)
    else if c = '$' ∧ cs.head? = some '{' then
      match _cut : Text.cutFirst '}' cs with
      | none => none
      | some (inner, rest) =>
        match readHole inner.tail with
        | some (.value chain) => (evalTemplate value rest).map (prepend (value chain).toList)
        | _ => none
    else if c = '\r' then
      (evalTemplate value cs).map (prepend (if cs.head? = some '\n' then [] else ['\n']))
    else (evalTemplate value cs).map (prepend [c])
termination_by cs => cs.length
decreasing_by
  · exact Nat.lt_succ_of_lt (length_of_readEscape _read)
  · exact Nat.lt_succ_of_lt (length_of_cutFirst _cut)
  · exact Nat.lt_succ_self _
  · exact Nat.lt_succ_self _

end HttpClientGen.Script
