import HttpClientGen.Text.Letter.Alphanumeric
import HttpClientGen.Text.Letter.Case

/-!
# Texts

How the generator takes texts apart and writes them: white space is taken off, texts are cut at a
separator, names are cut into words, and a text is put between quotes.
-/

namespace HttpClientGen.Text

/-!
## White space

The white space of the Unicode standard, and the removal of it from the ends of a text. Plug-in
parameters and schema comments are trimmed by this rule, not by the shorter list of ASCII blanks.
-/

/-- The characters with the Unicode property `White_Space`. -/
def isBlank (c : Char) : Bool :=
  let n := c.toNat
  (9 ≤ n && n ≤ 13) || n == 0x20 || n == 0x85 || n == 0xA0 || n == 0x1680 ||
    (0x2000 ≤ n && n ≤ 0x200A) || n == 0x2028 || n == 0x2029 || n == 0x202F ||
    n == 0x205F || n == 0x3000

def trimStart (cs : List Char) : List Char :=
  cs.dropWhile isBlank

def trimEnd (cs : List Char) : List Char :=
  (cs.reverse.dropWhile isBlank).reverse

def trim (cs : List Char) : List Char :=
  trimEnd (trimStart cs)

/-!
## Cutting a text at a separator

Two ways to cut: at every occurrence of a separator, which always gives at least one piece, and at
the first occurrence only.
-/

/-- The pieces of a text between the occurrences of `sep`; a text without `sep` is one piece. -/
def pieces (sep : Char) : List Char → List (List Char)
  | [] => [[]]
  | c :: cs =>
    if c = sep then [] :: pieces sep cs
    else match pieces sep cs with
      | [] => [[c]]
      | piece :: others => (c :: piece) :: others

/-- The text before and after the first `sep`, if there is one. -/
def cutFirst (sep : Char) : List Char → Option (List Char × List Char)
  | [] => none
  | c :: cs =>
    if c = sep then some ([], cs)
    else (cutFirst sep cs).map fun (before, after) => (c :: before, after)

/-- The number of bytes of a text in UTF-8. -/
def byteLength : List Char → Nat
  | [] => 0
  | c :: cs => c.utf8Size + byteLength cs

/-!
## Quoted texts

The double-quoted literals of TypeScript. A quote and a backslash are escaped by a backslash, line
feed, carriage return and tab have a letter of their own, and all else stands for itself.
-/

def escapeChar : Char → List Char
  | '"' => ['\\', '"']
  | '\\' => ['\\', '\\']
  | '\n' => ['\\', 'n']
  | '\r' => ['\\', 'r']
  | '\t' => ['\\', 't']
  | c => [c]

def quote (text : String) : String :=
  String.ofList ('"' :: (text.toList.flatMap escapeChar ++ ['"']))

/-!
## Lower camel case

A name is cut into words, the first word is written in lower case and every other one with a
capital in front. Words end at characters that are neither letters nor digits, between a lower case
letter and an upper case one, and before the last capital of a row that a lower case letter follows
(`XMLHttp` is `XML` and `Http`).
-/

/-- The case of the last cased character of the word being read. -/
inductive WordCase
  | none
  | lower
  | upper
  deriving DecidableEq

/-- The case of a word once `c` has been added to it. -/
def WordCase.add (before : WordCase) (c : Char) : WordCase :=
  if isLowercase c then .lower else if isUppercase c then .upper else before

def consWord (c : Char) : List (List Char) → List (List Char)
  | [] => [[c]]
  | word :: words => (c :: word) :: words

/-- Cuts a run of letters and digits where its case changes. The first word of the answer is the
rest of a word whose case so far is `before`. -/
def cutAtCase (before : WordCase) : List Char → List (List Char)
  | [] => []
  | [c] => [[c]]
  | c :: next :: rest =>
    if before.add c = .lower ∧ isUppercase next then
      [c] :: cutAtCase .none (next :: rest)
    else if before = .upper ∧ isUppercase c ∧ isLowercase next then
      [] :: consWord c (cutAtCase .none (next :: rest))
    else
      consWord c (cutAtCase (before.add c) (next :: rest))

def alphanumericRuns : List Char → List (List Char)
  | [] => [[]]
  | c :: cs =>
    if isAlphanumeric c then consWord c (alphanumericRuns cs) else [] :: alphanumericRuns cs

def words (name : List Char) : List (List Char) :=
  (alphanumericRuns name).flatMap (cutAtCase .none)

/-- A word in lower case; a capital sigma at its end becomes the final form. -/
def lowerWord : List Char → List Char
  | [] => []
  | [c] => if c = 'Σ' then ['ς'] else lowerChar c
  | c :: next :: rest => lowerChar c ++ lowerWord (next :: rest)

/-- A word in lower case but for its first character. -/
def capitalWord : List Char → List Char
  | [] => []
  | c :: rest => upperChar c ++ lowerWord rest

def lowerCamel (name : String) : String :=
  match words name.toList with
  | [] => ""
  | first :: others => String.ofList (lowerWord first ++ others.flatMap capitalWord)

end HttpClientGen.Text
