import HttpClientGen.Document
import HttpClientGen.Proofs.Text.Pieces
import Mathlib.Data.List.Basic

/-!
# The statements of a client function

The part of JavaScript in which a client function checks a request and takes it apart: chains of
member accesses, template literals, and a few statements over them. `readStatements` reads the
statements off the lines of the code. It knows nothing of what the code was generated from, and it
refuses what it does not know.
-/

namespace HttpClientGen.Script

/-- One step of a chain: `.name`, or `?.name` where the value in front of it may be absent. -/
structure Link where
  optional : Bool
  name : String
  deriving DecidableEq, Repr

/-- A variable, and the members that are read from its value one after the other. -/
structure Chain where
  root : String
  links : List Link
  deriving DecidableEq, Repr

namespace Chain

/-- `request.a.b.c` -/
def plain (names : List String) : Chain :=
  ⟨"request", names.map (⟨false, ·⟩)⟩

/-- `request.a?.b?.c` -/
def guarded : List String → Chain
  | [] => ⟨"request", []⟩
  | name :: names => ⟨"request", ⟨false, name⟩ :: names.map (⟨true, ·⟩)⟩

/-- `request?.a?.b?.c` -/
def lenient (names : List String) : Chain :=
  ⟨"request", names.map (⟨true, ·⟩)⟩

end Chain

inductive Piece
  | char (c : Char)
  /-- The value of a chain. -/
  | value (chain : Chain)
  /-- What the `toString` method of a chain's value returns, encoded. -/
  | encoded (chain : Chain)
  deriving DecidableEq, Repr

inductive Body
  | null
  | stringify (chain : Chain)
  /-- The value of a chain, or an empty object in place of an absent one. -/
  | stringifyOrEmpty (chain : Chain)
  deriving DecidableEq, Repr

/-- The statements of a client function up to the call of the handler. -/
inductive Statement
  | throwUnless (test : Chain) (message : String)
  | path (literal : List Piece)
  | body (body : Body)
  | query
  | pushIf (test : Chain) (pair : List Piece)
  /-- Pushes a pair for each element `x` of a list. -/
  | pushEachIf (test list : Chain) (pair : List Piece)
  deriving DecidableEq, Repr

/-- ASCII letters and digits, `_` and `$`, and all that is not ASCII. -/
def isNameChar (c : Char) : Bool :=
  c.isAlphanum || c == '_' || c == '$' || decide (128 ≤ c.toNat)

/-- A text that is read as one name. The identifiers of JavaScript are such texts. -/
def IsName (name : String) : Prop :=
  name.toList ≠ [] ∧ ∀ c ∈ name.toList, isNameChar c = true

instance (name : String) : Decidable (IsName name) :=
  @instDecidableAnd _ _ inferInstance (List.decidableBAll _ _)

/-- Reads the longest name in front of a text. -/
def readName (cs : List Char) : Option (String × List Char) :=
  if cs.takeWhile isNameChar = [] then none
  else some (String.ofList (cs.takeWhile isNameChar), cs.dropWhile isNameChar)

def readLink : List Char → Option (Link × List Char)
  | [] => none
  | c :: cs =>
    if c = '.' then (readName cs).map fun (name, rest) => (⟨false, name⟩, rest)
    else if c = '?' ∧ cs.head? = some '.' then
      (readName cs.tail).map fun (name, rest) => (⟨true, name⟩, rest)
    else none

theorem length_of_readName {cs rest : List Char} {name : String}
    (read : readName cs = some (name, rest)) : rest.length ≤ cs.length := by
  rw [readName] at read
  split at read
  · cases read
  · cases read
    exact (List.dropWhile_suffix isNameChar).length_le

theorem length_of_readLink {cs rest : List Char} {link : Link}
    (read : readLink cs = some (link, rest)) : rest.length < cs.length := by
  cases cs with
  | nil => cases read
  | cons c cs =>
    rw [readLink] at read
    split at read
    · obtain ⟨⟨name, rest'⟩, found, ⟨⟩⟩ := Option.map_eq_some_iff.mp read
      exact Nat.lt_succ_of_le (length_of_readName found)
    · split at read
      · obtain ⟨⟨name, rest'⟩, found, ⟨⟩⟩ := Option.map_eq_some_iff.mp read
        have shorter := length_of_readName found
        rw [List.length_tail] at shorter
        rw [List.length_cons]
        omega
      · cases read

/-- Reads as many links as there are in front of a text. -/
def readLinks (cs : List Char) : List Link × List Char :=
  match _read : readLink cs with
  | none => ([], cs)
  | some (link, rest) =>
    let (links, rest) := readLinks rest
    (link :: links, rest)
termination_by cs.length
decreasing_by exact length_of_readLink _read

def readChain (cs : List Char) : Option (Chain × List Char) :=
  (readName cs).map fun (root, rest) =>
    let (links, rest) := readLinks rest
    (⟨root, links⟩, rest)

/-- The chain whose method is called, if the last link of a chain is this method. -/
def Chain.receiver? (chain : Chain) (method : String) : Option Chain :=
  if chain.links.getLast? = some ⟨false, method⟩ then some ⟨chain.root, chain.links.dropLast⟩
  else none

def readHole (inner : List Char) : Option Piece :=
  match inner.dropPrefix? "encodeURIComponent(".toList with
  | some rest => do
    let (chain, rest) ← readChain rest
    let receiver ← chain.receiver? "toString"
    if rest = "())".toList then some (.encoded receiver) else none
  | none => do
    let (chain, rest) ← readChain inner
    if rest = [] then some (.value chain) else none

theorem length_of_cutFirst {sep : Char} {cs before after : List Char}
    (cut : Text.cutFirst sep cs = some (before, after)) : after.length < cs.length := by
  obtain ⟨-, rfl⟩ := Text.cutFirst_eq_some_iff.mp cut
  rw [List.length_append, List.length_cons]
  omega

/-- Reads a template literal behind its first backtick. An escape is refused. -/
def readLiteral : List Char → Option (List Piece × List Char)
  | [] => none
  | c :: cs =>
    if c = '\x60' then some ([], cs)
    else if c = '\\' then none
    else if c = '$' ∧ cs.head? = some '{' then
      match _cut : Text.cutFirst '}' cs with
      | none => none
      | some (inner, rest) => do
        let piece ← readHole inner.tail
        let (pieces, rest) ← readLiteral rest
        some (piece :: pieces, rest)
    else do
      let (pieces, rest) ← readLiteral cs
      some (.char c :: pieces, rest)
termination_by cs => cs.length
decreasing_by
  · exact Nat.lt_succ_of_lt (length_of_cutFirst _cut)
  · exact Nat.lt_succ_self _

def unescape : Char → Option Char
  | '"' => some '"'
  | '\\' => some '\\'
  | 'n' => some '\n'
  | 'r' => some '\r'
  | 't' => some '\t'
  | _ => none

/-- Reads a text behind its first double quote. -/
def readQuoted : List Char → Option (List Char × List Char)
  | [] => none
  | '"' :: cs => some ([], cs)
  | '\n' :: _ => none
  | ['\\'] => none
  | '\\' :: letter :: cs => do
    let c ← unescape letter
    let (text, rest) ← readQuoted cs
    some (c :: text, rest)
  | c :: cs => (readQuoted cs).map fun (text, rest) => (c :: text, rest)

def readBody (cs : List Char) : Option (Body × List Char) :=
  match cs.dropPrefix? "null".toList with
  | some rest => some (.null, rest)
  | none => do
    let rest ← cs.dropPrefix? "JSON.stringify(".toList
    let (chain, rest) ← readChain rest
    match rest.dropPrefix? " ?? \x7b\x7d)".toList with
    | some rest => some (.stringifyOrEmpty chain, rest)
    | none => (rest.dropPrefix? ")".toList).map fun rest => (.stringify chain, rest)

/-- The lines that statements are made of. -/
inductive LineForm
  | unless (test : Chain)
  | when (test : Chain)
  | throw (message : String)
  | path (literal : List Piece)
  | body (body : Body)
  | query
  | forEach (list : Chain)
  | push (pair : List Piece)
  | close
  | closeEach
  deriving DecidableEq, Repr

/-- Reads something that fills a line but for a fixed text on either side. -/
def between {α : Type} (before : String) (read : List Char → Option (α × List Char))
    (after : String) (cs : List Char) : Option α := do
  let rest ← cs.dropPrefix? before.toList
  let (found, rest) ← read rest
  if rest = after.toList then some found else none

/-- Reads a line without its indentation. -/
def readLine (cs : List Char) : Option LineForm :=
  if cs = "const queryParams: string[] = [];".toList then some .query
  else if cs = "\x7d".toList then some .close
  else if cs = "\x7d)".toList then some .closeEach
  else
    (between "if (" readChain ") \x7b" cs).map .when <|>
    (between "if (!" readChain ") \x7b" cs).map .unless <|>
    (between "throw new Error(\"" readQuoted ");" cs).map (.throw <| String.ofList ·) <|>
    (between "const path = `" readLiteral "; // eslint-disable-line quotes" cs).map .path <|>
    (between "const body = " readBody ";" cs).map .body <|>
    (between "queryParams.push(`" readLiteral ")" cs).map .push <|>
    (between "" readChain "((x) => \x7b" cs).bind fun chain =>
      (chain.receiver? "forEach").map .forEach

/-- Puts lines together to statements. -/
def groupLines : List (Option LineForm) → Option (List Statement)
  | [] => some []
  | some (.unless test) :: some (.throw message) :: some .close :: lines =>
    (groupLines lines).map (.throwUnless test message :: ·)
  | some (.path literal) :: lines => (groupLines lines).map (.path literal :: ·)
  | some (.body body) :: lines => (groupLines lines).map (.body body :: ·)
  | some .query :: lines => (groupLines lines).map (.query :: ·)
  | some (.when test) :: some (.push pair) :: some .close :: lines =>
    (groupLines lines).map (.pushIf test pair :: ·)
  | some (.when test) :: some (.forEach list) :: some (.push pair) :: some .closeEach ::
      some .close :: lines =>
    (groupLines lines).map (.pushEachIf test list pair :: ·)
  | _ => none

def readStatements (lines : Document) : Option (List Statement) :=
  groupLines (lines.map fun line => readLine line.text.toList)

end HttpClientGen.Script
