import HttpClientGen.Schema.Declaration

/-!
# Indented lines

Generated code is a list of lines, each with its level of indentation. A line without text is
written without indentation, so blank lines hold no spaces. What a schema says about a declaration
stands in front of it, as a block comment.
-/

namespace HttpClientGen

structure Line where
  level : Nat
  text : String
  deriving DecidableEq, Repr, Inhabited

/-- Generated code, line by line. -/
abbrev Document := List Line

/-- Two spaces for each level. -/
def indentation (level : Nat) : String :=
  String.ofList (List.replicate (2 * level) ' ')

namespace Line

/-- A line that separates two declarations. -/
def blank : Line := ⟨0, ""⟩

/-- A line with its indentation and its line feed; an empty text is not indented. -/
def render (line : Line) : String :=
  if line.text = "" then "\n" else indentation line.level ++ line.text ++ "\n"

end Line

namespace Document

/-- The text of the lines, each closed by a line feed. -/
def render (lines : Document) : String :=
  String.join (lines.map Line.render)

/-- A block comment with one starred line for each text; an empty text leaves its line empty. -/
def comment (level : Nat) (texts : List String) : Document :=
  ⟨level, "/**"⟩ ::
    texts.map (fun text => ⟨level, if text = "" then " *" else " * " ++ text⟩) ++ [⟨level, " */"⟩]

end Document

/-!
## Documentation of declarations

Comments of the schema are carried over to the generated code, line by line and without the white
space around each line. The behaviours of a field are named in a paragraph of their own.
-/

structure DocComment where
  lines : List String := []
  behaviors : List FieldBehavior := []
  deriving DecidableEq, Repr

namespace DocComment

/-- The lines of a comment that are not blank. -/
def linesOf (comments : String) : List String :=
  (((Text.pieces '\n' comments.toList).map Text.trim).filter (· ≠ [])).map String.ofList

def of (comments : Option String) (behaviors : List FieldBehavior) : DocComment :=
  ⟨(comments.map linesOf).getD [], behaviors⟩

def behaviorLine (doc : DocComment) : List String :=
  if doc.behaviors = [] then []
  else ["Behaviors: " ++ ", ".intercalate (doc.behaviors.map FieldBehavior.name)]

/-- The block comment; nothing if there is nothing to say. An empty line separates the lines of the
schema from the behaviours. -/
def render (doc : DocComment) (level : Nat) : Document :=
  let between := if doc.lines = [] ∨ doc.behaviors = [] then [] else [""]
  match doc.lines ++ between ++ doc.behaviorLine with
  | [] => []
  | texts => Document.comment level texts

end DocComment

end HttpClientGen
