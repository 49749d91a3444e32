import HttpClientGen.Template
import HttpClientGen.Text

/-!
# Reading URL templates

A template is read in three steps: the verb is cut off at the first colon outside of braces, the
rest is cut into components at the slashes outside of braces, and each component is read as a
segment. Every fault is reported with the offset, in bytes of UTF-8, of the text at fault.
-/

namespace HttpClientGen

inductive SyntaxFault
  | missingSlash
  | unbalancedClose
  | unbalancedOpen
  | emptyVerb
  | invalidVerb (verb : String)
  | emptySegment
  | unclosedVariable (component : String)
  | nestedVariable
  | emptyPattern
  | emptyFieldPath
  | invalidFieldName (name path : String)
  | invalidLiteral (component : String)
  | misplacedMultiple
  deriving DecidableEq, Repr

def SyntaxFault.reason : SyntaxFault → String
  | missingSlash => "must start with `/`"
  | unbalancedClose => "unbalanced `\x7d`"
  | unbalancedOpen => "unbalanced `\x7b`"
  | emptyVerb => "empty verb"
  | invalidVerb verb => "invalid verb `" ++ verb ++ "`"
  | emptySegment => "empty path segment"
  | unclosedVariable component => "variable `" ++ component ++ "` must end with `\x7d`"
  | nestedVariable => "nested variables are not allowed"
  | emptyPattern => "empty variable pattern"
  | emptyFieldPath => "empty field path"
  | invalidFieldName name path => "invalid field name `" ++ name ++ "` in `" ++ path ++ "`"
  | invalidLiteral component => "invalid literal `" ++ component ++ "`"
  | misplacedMultiple => "`**` is only allowed as the last segment"

/-- A fault and the place in the text where it was found. -/
structure SyntaxIssue where
  offset : Nat
  fault : SyntaxFault
  deriving DecidableEq, Repr

/-- A refused template or body selector. -/
structure SyntaxError where
  template : String
  offset : Nat
  fault : SyntaxFault
  deriving DecidableEq, Repr

def SyntaxError.message (error : SyntaxError) : String :=
  "invalid http template `" ++ error.template ++ "` at offset " ++ toString error.offset ++ ": " ++
    error.fault.reason

/-- Attaches the text in which an issue was found. -/
def SyntaxIssue.inText (issue : SyntaxIssue) (text : String) : SyntaxError :=
  ⟨text, issue.offset, issue.fault⟩

/-- Reads the names of a field path, the first of which stands at `offset`. -/
def readFieldNames (path : List Char) (offset : Nat) :
    List (List Char) → Except SyntaxIssue (List String)
  | [] => .ok []
  | name :: names =>
    if isIdentifier name then do
      let others ← readFieldNames path (offset + Text.byteLength name + 1) names
      return String.ofList name :: others
    else
      .error ⟨offset, .invalidFieldName (String.ofList name) (String.ofList path)⟩

/-- Reads a dotted field path that stands at `offset`. -/
def FieldPath.read (offset : Nat) (path : List Char) : Except SyntaxIssue FieldPath :=
  if path = [] then .error ⟨offset, .emptyFieldPath⟩
  else FieldPath.mk <$> readFieldNames path offset (Text.pieces '.' path)

namespace Template

/-- Puts a character in front of the path of a split. -/
def consPath (c : Char) (split : List Char × Option (List Char)) :
    List Char × Option (List Char) :=
  (c :: split.1, split.2)

/-- Reads the text after the colon of a verb, which stands at `offset`. -/
def readVerb (offset : Nat) (verb : List Char) : Except SyntaxIssue (List Char) :=
  if verb = [] then .error ⟨offset, .emptyVerb⟩
  else if verb.any fun c => c == '/' || c == '{' || c == '}' || c == ':' then
    .error ⟨offset + 1, .invalidVerb (String.ofList verb)⟩
  else .ok verb

/-- Separates the path from the verb: the first colon outside of braces starts the verb. The text
stands at `offset`, inside of `depth` open braces. -/
def splitVerb (depth offset : Nat) :
    List Char → Except SyntaxIssue (List Char × Option (List Char))
  | [] => if depth = 0 then .ok ([], none) else .error ⟨offset, .unbalancedOpen⟩
  | c :: cs =>
    if c = '{' then
      consPath c <$> splitVerb (depth + 1) (offset + 1) cs
    else if c = '}' then
      if depth = 0 then .error ⟨offset, .unbalancedClose⟩
      else consPath c <$> splitVerb (depth - 1) (offset + 1) cs
    else if c = ':' ∧ depth = 0 then
      (fun verb => ([], some verb)) <$> readVerb offset cs
    else
      consPath c <$> splitVerb depth (offset + c.utf8Size) cs

def consComponent (c : Char) : List (List Char) → List (List Char)
  | [] => [[c]]
  | component :: components => (c :: component) :: components

/-- The texts between the slashes outside of braces. The path stands at `offset`, inside of `depth`
open braces; `size` is the length of the whole template. -/
def cutComponents (size depth offset : Nat) :
    List Char → Except SyntaxIssue (List (List Char))
  | [] => if depth = 0 then .ok [[]] else .error ⟨size, .unbalancedOpen⟩
  | c :: cs =>
    if c = '{' then
      consComponent c <$> cutComponents size (depth + 1) (offset + 1) cs
    else if c = '}' then
      if depth = 0 then .error ⟨offset, .unbalancedClose⟩
      else consComponent c <$> cutComponents size (depth - 1) (offset + 1) cs
    else if c = '/' ∧ depth = 0 then
      ([] :: ·) <$> cutComponents size depth (offset + 1) cs
    else
      consComponent c <$> cutComponents size depth (offset + c.utf8Size) cs

structure Component where
  offset : Nat
  text : List Char
  deriving DecidableEq, Repr

/-- Places components one after the other, with one slash between two. -/
def placeComponents (offset : Nat) : List (List Char) → List Component
  | [] => []
  | text :: texts => ⟨offset, text⟩ :: placeComponents (offset + Text.byteLength text + 1) texts

/-- The components of a path that stands at `offset`, none of them empty. -/
def splitComponents (size offset : Nat) (path : List Char) :
    Except SyntaxIssue (List Component) := do
  let components := placeComponents offset (← cutComponents size 0 offset path)
  match components.find? (·.text = []) with
  | some component => .error ⟨component.offset, .emptySegment⟩
  | none => return components

/-- Reads what stands between the braces of a variable whose opening brace stands at `offset`. -/
def readVariable (offset : Nat) (inner : List Char) : Except SyntaxIssue Segment :=
  match Text.cutFirst '=' inner with
  | none => do return .capture (← FieldPath.read (offset + 1) inner) none
  | some (path, pattern) =>
    if pattern = [] then .error ⟨offset + Text.byteLength path + 2, .emptyPattern⟩
    else do return .capture (← FieldPath.read (offset + 1) path) (some (String.ofList pattern))

def readSegment (component : Component) : Except SyntaxIssue Segment :=
  match component.text with
  | ['*'] => .ok .single
  | ['*', '*'] => .ok .multiple
  | '{' :: inner =>
    if inner.getLast? ≠ some '}' then
      .error ⟨component.offset, .unclosedVariable (String.ofList component.text)⟩
    else if inner.dropLast.any fun c => c == '{' || c == '}' then
      .error ⟨component.offset, .nestedVariable⟩
    else readVariable component.offset inner.dropLast
  | text =>
    if text.any fun c => c == '{' || c == '}' || c == '*' then
      .error ⟨component.offset, .invalidLiteral (String.ofList text)⟩
    else .ok (.literal (String.ofList text))

/-- Reads components from left to right; `**` has to be the last one. -/
def readSegments : List Component → Except SyntaxIssue (List Segment)
  | [] => .ok []
  | component :: components => do
    let segment ← readSegment component
    if segment = .multiple ∧ components ≠ [] then
      .error ⟨component.offset, .misplacedMultiple⟩
    else return segment :: (← readSegments components)

def read (size : Nat) : List Char → Except SyntaxIssue Template
  | '/' :: rest => do
    let (path, verb) ← splitVerb 0 1 rest
    let segments ← readSegments (← splitComponents size 1 path)
    return ⟨segments, verb.map String.ofList⟩
  | _ => .error ⟨0, .missingSlash⟩

def parse (text : String) : Except SyntaxError Template :=
  (read (Text.byteLength text.toList) text.toList).mapError (·.inText text)

end Template

end HttpClientGen
