import HttpClientGen.Proofs.Script.Literal
import HttpClientGen.Proofs.Script.Reading
import HttpClientGen.TypeExpr

/-!
# Properties of a type

How a property is read in the members of an object type: its name, which is an identifier or a quoted
text, a mark if it may be absent, and its type. Which characters beyond ASCII belong to identifiers is
left open: everything is read by an alphabet.
-/

namespace HttpClientGen.Script

/-- The characters beyond ASCII that may begin an identifier, and those that may go on in one. -/
structure Alphabet where
  starts : Char → Bool
  continues : Char → Bool

namespace Alphabet

def isStart (alphabet : Alphabet) (c : Char) : Bool :=
  c.isAlpha || c == '_' || c == '$' || (decide (128 ≤ c.toNat) && alphabet.starts c)

def isPart (alphabet : Alphabet) (c : Char) : Bool :=
  alphabet.isStart c || c.isDigit || (decide (128 ≤ c.toNat) && alphabet.continues c)

/-- A text is an identifier. -/
def IsIdentifier (alphabet : Alphabet) (name : String) : Prop :=
  ∃ c cs, name.toList = c :: cs ∧ alphabet.isStart c = true ∧ cs.all alphabet.isPart = true

/-- Reads the longest identifier in front of a text. -/
def readIdentifier (alphabet : Alphabet) : List Char → Option (String × List Char)
  | [] => none
  | c :: cs =>
    if alphabet.isStart c then
      some (String.ofList (c :: cs.takeWhile alphabet.isPart), cs.dropWhile alphabet.isPart)
    else none

def readKey (alphabet : Alphabet) (cs : List Char) : Option (String × List Char) :=
  if cs.head? = some '"' then
    (readString cs.tail).map fun (text, rest) => (String.ofList text, rest)
  else alphabet.readIdentifier cs

end Alphabet

/-- Reads the brackets of list types behind a type. -/
def readBrackets (type : TypeExpr) : List Char → TypeExpr × List Char
  | '[' :: ']' :: cs => readBrackets (.list type) cs
  | cs => (type, cs)

/-- Reads a type: a name or a map, and brackets behind it. -/
def readType (alphabet : Alphabet) (cs : List Char) : Option (TypeExpr × List Char) :=
  match _opened : cs.dropPrefix? ('{' :: " [key: string]: ".toList) with
  | some rest => do
    let (value, rest) ← readType alphabet rest
    let rest ← rest.dropPrefix? " \x7d".toList
    some (readBrackets (.map value) rest)
  | none => (alphabet.readIdentifier cs).map fun (name, rest) => readBrackets (.named name) rest
termination_by cs.length
decreasing_by
  obtain ⟨front, split, same⟩ := List.dropPrefix?_eq_some_iff.mp _opened
  rw [split, eq_of_beq same, List.length_append]
  simp

/-- What a property declares. -/
structure Signature where
  name : String
  optional : Bool
  type : TypeExpr
  deriving DecidableEq, Repr

/-- Reads the mark of a property that may be absent, if it is there. -/
def readMark : List Char → Bool × List Char
  | '?' :: cs => (true, cs)
  | cs => (false, cs)

def readProperty (alphabet : Alphabet) (cs : List Char) : Option (Signature × List Char) := do
  let (name, rest) ← alphabet.readKey cs
  let (optional, rest) := readMark rest
  let rest ← rest.dropPrefix? ": ".toList
  let (type, rest) ← readType alphabet rest
  let rest ← rest.dropPrefix? ";".toList
  some (⟨name, optional, type⟩, rest)

section Reading

variable {alphabet : Alphabet} {name : String} {rest : List Char}

namespace Alphabet

/-- No identifier goes on in a text. -/
def EndsIdentifier (alphabet : Alphabet) (rest : List Char) : Prop :=
  ∀ c ∈ rest.head?, alphabet.isPart c = false

/-- The alphabet has no say in ASCII. -/
theorem endsIdentifier_cons {c : Char} (ascii : c.toNat < 128)
    (other : (c.isAlphanum || c == '_' || c == '$') = false) :
    alphabet.EndsIdentifier (c :: rest) := by
  have beyond : decide (128 ≤ c.toNat) = false := by simpa using ascii
  simp only [Char.isAlphanum, Bool.or_eq_false_iff] at other
  intro d mem
  obtain rfl : c = d := by simpa using mem
  simp [isPart, isStart, beyond, other]

theorem isName_of_isIdentifier (ident : alphabet.IsIdentifier name) : IsName name := by
  obtain ⟨c, cs, chars, start, parts⟩ := ident
  have inName {d : Char} (part : alphabet.isPart d = true) : isNameChar d = true := by
    simp only [isPart, isStart, Bool.or_eq_true, Bool.and_eq_true] at part
    simp only [isNameChar, Char.isAlphanum, Bool.or_eq_true]
    tauto
  have first : alphabet.isPart c = true := by simp [isPart, start]
  refine ⟨by simp [chars], fun d mem => inName ?_⟩
  rw [chars] at mem
  rcases List.mem_cons.mp mem with rfl | later
  · exact first
  · exact List.all_eq_true.mp parts d later

theorem readIdentifier_append (ident : alphabet.IsIdentifier name)
    (ends : alphabet.EndsIdentifier rest) :
    alphabet.readIdentifier (name.toList ++ rest) = some (name, rest) := by
  obtain ⟨c, cs, chars, start, parts⟩ := ident
  obtain ⟨taken, left⟩ := scan_append (List.all_eq_true.mp parts) ends
  rw [chars, List.cons_append, readIdentifier, if_pos start, taken, left, ← chars,
    String.ofList_toList]

/-- An identifier begins with no quote and no brace. -/
theorem head?_of_isIdentifier (ident : alphabet.IsIdentifier name) (rest : List Char) :
    (name.toList ++ rest).head? ∉ [some '"', some '{'] := by
  obtain ⟨c, cs, chars, start, -⟩ := ident
  rw [chars, List.cons_append, List.head?_cons]
  intro special
  simp only [List.mem_cons, Option.some.injEq, List.not_mem_nil, or_false] at special
  rcases special with rfl | rfl
  · simp [isStart] at start
  · simp [isStart] at start

theorem readKey_append (ident : alphabet.IsIdentifier name)
    (ends : alphabet.EndsIdentifier rest) :
    alphabet.readKey (name.toList ++ rest) = some (name, rest) := by
  have noQuote := head?_of_isIdentifier ident rest
  simp only [List.mem_cons, List.not_mem_nil, or_false, not_or] at noQuote
  rw [readKey, if_neg noQuote.1]
  exact readIdentifier_append ident ends

end Alphabet

theorem dropPrefix?_of_head? {c : Char} {cs front : List Char} (other : cs.head? ≠ some c) :
    cs.dropPrefix? (c :: front) = none := by
  rw [Option.eq_none_iff_forall_ne_some]
  intro behind found
  obtain ⟨front', split, same⟩ := List.dropPrefix?_eq_some_iff.mp found
  rw [split, eq_of_beq same] at other
  exact other rfl

/-- The brackets behind a type are part of it. -/
theorem readType_append {type : TypeExpr} (leaf : alphabet.IsIdentifier type.leaf)
    (ends : alphabet.EndsIdentifier rest) :
    readType alphabet (type.render.toList ++ rest) = some (readBrackets type rest) := by
  -- Brackets belong to what stands in front of them, so they are part of the rest for an element.
  induction type generalizing rest with
  | named name =>
    have first := Alphabet.head?_of_isIdentifier leaf rest
    simp only [List.mem_cons, List.not_mem_nil, or_false, not_or] at first
    have noMap : (name.toList ++ rest).dropPrefix? ('{' :: " [key: string]: ".toList) = none :=
      dropPrefix?_of_head? first.2
    have isNamed : alphabet.readIdentifier (name.toList ++ rest) = some (name, rest) :=
      Alphabet.readIdentifier_append leaf ends
    have written : (TypeExpr.named name).render = name := rfl
    rw [written, readType]
    split
    · next found => exact absurd (noMap.symm.trans found) (by simp)
    · rw [isNamed]
      rfl
  | list element ih =>
    have written : (TypeExpr.list element).render = element.render ++ "[]" := rfl
    have split : (TypeExpr.list element).render.toList ++ rest =
        element.render.toList ++ '[' :: ']' :: rest := by
      simp [written]
    rw [split, ih leaf (Alphabet.endsIdentifier_cons (by decide) (by decide))]
    rfl
  | map value ih =>
    have written : (TypeExpr.map value).render = "\x7b [key: string]: " ++ value.render ++ " \x7d" :=
      rfl
    have split : (TypeExpr.map value).render.toList ++ rest =
        ('{' :: " [key: string]: ".toList) ++ (value.render.toList ++ (" \x7d".toList ++ rest)) := by
      simp [written]
    have isValue : readType alphabet (value.render.toList ++ (" \x7d".toList ++ rest)) =
        some (value, " \x7d".toList ++ rest) :=
      ih leaf (Alphabet.endsIdentifier_cons (by decide) (by decide))
    have opened := dropPrefix?_append ('{' :: " [key: string]: ".toList)
      (value.render.toList ++ (" \x7d".toList ++ rest))
    rw [split, readType]
    split
    · next behind found =>
      obtain rfl := Option.some.inj (opened.symm.trans found)
      simp only [isValue, Option.bind_eq_bind, Option.bind_some, dropPrefix?_append]
    · next none => exact absurd (opened.symm.trans none) (by simp)

/-- What an identifier, a mark and a type declare, written one after the other. -/
theorem readProperty_append {optional : Bool} {mark : String} {type : TypeExpr}
    (ident : alphabet.IsIdentifier name) (leaf : alphabet.IsIdentifier type.leaf)
    (isMark : mark = if optional then "?" else "") :
    readProperty alphabet (name ++ mark ++ ": " ++ type.render ++ ";").toList =
      some (⟨name, optional, type⟩, []) := by
  let body := ": ".toList ++ (type.render.toList ++ ";".toList)
  have split : (name ++ mark ++ ": " ++ type.render ++ ";").toList =
      name.toList ++ (mark.toList ++ body) := by
    simp [body]
  have isType : readType alphabet (type.render.toList ++ ";".toList) = some (type, ";".toList) :=
    readType_append leaf (Alphabet.endsIdentifier_cons (by decide) (by decide))
  have marked : readMark (mark.toList ++ body) = (optional, body) ∧
      alphabet.EndsIdentifier (mark.toList ++ body) := by
    cases optional with
    | true =>
      obtain rfl : mark = "?" := isMark
      exact ⟨rfl, Alphabet.endsIdentifier_cons (by decide) (by decide)⟩
    | false =>
      obtain rfl : mark = "" := isMark
      exact ⟨rfl, Alphabet.endsIdentifier_cons (by decide) (by decide)⟩
  have ends : (";".toList).dropPrefix? ";".toList = some [] := rfl
  rw [split, readProperty, Alphabet.readKey_append ident marked.2]
  simp only [Option.bind_eq_bind, Option.bind_some, marked.1, body, dropPrefix?_append, isType, ends]

end Reading

end HttpClientGen.Script
