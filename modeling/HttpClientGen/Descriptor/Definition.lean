import HttpClientGen.Descriptor.File

/-!
# Definitions and their names

Everything that a file declares has a full name, and no two declarations share one; only packages
may be named in several files. A reference to a type is resolved from the scope where it stands
outwards, among the files that its own file can see.
-/

namespace HttpClientGen.Descriptor

/-- The kinds of things that have a full name. -/
inductive DefinitionKind
  | package
  | message
  | field
  | oneof
  | enumeration
  | enumValue
  | service
  | method
  | extension
  deriving DecidableEq, Repr

/-- Whether things of a kind can hold others. -/
def DefinitionKind.isScope : DefinitionKind → Bool
  | package | message | enumeration | service => true
  | _ => false

/-- A full name, what it stands for, and the position of the file that declares it. -/
structure Definition where
  fullName : String
  kind : DefinitionKind
  file : Nat
  deriving DecidableEq, Repr

/-- The names that start a dotted name, from the longest to the empty one. -/
def enclosingScopes (scope : String) : List String :=
  let names := (Text.pieces '.' scope.toList).map String.ofList
  ((List.range (names.length + 1)).map fun count => ".".intercalate (names.take count)).reverse

namespace File

/-- The names of a file's package and of the packages around it. A package whose name starts with a
dot lies in one with the empty name. -/
def packageNames (file : File) : List String :=
  if file.package = "" then [] else (enclosingScopes file.package).dropLast

def declaredNames (file : File) : List (String × DefinitionKind) :=
  (file.allMessages.flatMap fun message =>
    (message.fullName, .message) ::
      message.item.fields.map (fun field => (scopedName message.fullName field.name, .field)) ++
      message.item.oneofs.map fun oneof => (scopedName message.fullName oneof.name, .oneof)) ++
  (file.allEnums.flatMap fun enumeration =>
    (scopedName enumeration.scope enumeration.item.name, .enumeration) ::
      enumeration.item.values.map fun value =>
        (scopedName enumeration.scope value.name, .enumValue)) ++
  (file.services.flatMap fun service =>
    let fullName := scopedName file.package service.name
    (fullName, .service) ::
      service.methods.map fun method => (scopedName fullName method.name, .method)) ++
  file.allExtensions.map fun extension =>
    (scopedName extension.scope extension.item.name, .extension)

end File

def definitionsOf (files : List File) : List Definition :=
  (files.mapIdx fun index file =>
    file.declaredNames.map fun (fullName, kind) => ⟨fullName, kind, index⟩).flatten

def packagesIn (files : List File) : List Definition :=
  (files.mapIdx fun index file =>
    file.packageNames.map fun fullName => ⟨fullName, .package, index⟩).flatten

/-- Whether no two declarations share a name, and none has the name of a package. -/
def namesAreUnique (files : List File) : Bool :=
  let declared := (definitionsOf files).map (·.fullName)
  declared.Nodup && (packagesIn files).all (!declared.contains ·.fullName)

/-- The positions of the files that a file imports; all of them have to be there. -/
def importsOf (files : List File) (file : File) : Option (List Nat) :=
  file.dependencies.mapM fun name => files.findIdx? (·.name = name)

/-- The positions of the files whose declarations a file passes on to those that import it, in the
order of its imports. Every position in the lists of public and of weak dependencies has to be one
of the list of dependencies. -/
def publicImportsOf (files : List File) (file : File) : Option (List Nat) := do
  let imports ← importsOf files file
  let isOne (position : Int) : Bool := 0 ≤ position && position < imports.length
  if (file.publicDependencies ++ file.weakDependencies).all isOne then
    return (imports.zipIdx.filter fun (_, position) =>
      file.publicDependencies.contains (position : Int)).map (·.1)
  else none

/-- The files that are seen when the public imports of a file are added to those in `seen`. A file
that comes up for the first time is added alone; one that is there already adds its own public
imports in turn. `depth` bounds how often that happens in a row. -/
def withPublicImports (publicImports : Nat → List Nat) : Nat → List Nat → Nat → List Nat
  | 0, seen, _ => seen
  | depth + 1, seen, index =>
    (publicImports index).foldl
      (fun seen next =>
        if seen.contains next then withPublicImports publicImports depth seen next
        else next :: seen)
      seen

/-- The files that the file at a position sees: itself, its imports, and the public imports of
these. -/
def seenFrom (imports publicImports : List (List Nat)) (index : Nat) : List Nat :=
  (imports[index]?.getD []).foldl
    (fun seen next =>
      withPublicImports (publicImports[·]?.getD []) imports.length (next :: seen) next)
    [index]

/-- What a reference can be resolved to: all definitions, and the files that are seen. -/
structure Visible where
  definitions : List Definition
  files : List Nat

namespace Visible

def find? (visible : Visible) (kinds : List DefinitionKind) (fullName : String) :
    Option Definition :=
  (visible.definitions.find? (·.fullName = fullName)).filter fun definition =>
    visible.files.contains definition.file && kinds.contains definition.kind

def isScope (visible : Visible) (fullName : String) : Bool :=
  (visible.definitions.find? (·.fullName = fullName)).any (·.kind.isScope)

/-- Resolves a reference that stands in a scope. A dot in front makes the name a full one, and so
does a scope without a name. Otherwise the innermost scope that has the name counts; for a dotted
name, the innermost scope that has its first part counts, whether or not the rest is found
there. -/
def resolve? (visible : Visible) (kinds : List DefinitionKind) (scope name : String) :
    Option Definition :=
  match name.toList with
  | '.' :: fullName => visible.find? kinds (String.ofList fullName)
  | cs =>
    if scope = "" then visible.find? kinds name
    else match Text.cutFirst '.' cs with
    | none =>
      (enclosingScopes scope).findSome? fun outer => visible.find? kinds (scopedName outer name)
    | some (first, _) =>
      ((enclosingScopes scope).find? fun outer =>
        visible.isScope (scopedName outer (String.ofList first))).bind fun outer =>
          visible.find? kinds (scopedName outer name)

end Visible

end HttpClientGen.Descriptor
