import HttpClientGen.Proofs.Needed
import Mathlib.Data.List.Forall2

/-!
# The types behind an interface

An interface names a type for the request and a type for the response of each method. Where the
message needs separate shapes, this is the name of its shape for the direction, and the file declares
one record of that name: the first one that was claimed under it. If no other shape that the file is
asked for has the name, that is the shape itself, with the fields that travel in the direction.
Otherwise it may be another one, since the first type under a name keeps it.
-/

namespace HttpClientGen

/-- The line of a property, which comes behind its comment, begins with the name of a field. -/
structure Property.Names (property : Property) (field : Field) : Prop where
  name : property.name = field.jsonName
  lines : ∃ mark ∈ ["", "?"], property.render = property.doc.render 1 ++
    [⟨1, field.jsonName ++ mark ++ ": " ++ property.type.render ++ ";"⟩]

theorem Property.names {property : Property} {field : Field}
    (name : property.name = field.jsonName) : property.Names field := by
  refine ⟨name, if property.optional then "?" else "", ?_, ?_⟩
  · split <;> simp
  · rw [render, name]

/-- A file declares one record under a name, whose lines declare the given fields and nothing else. -/
def PackageFile.Lists (file : PackageFile) (name : String) (fields : List Field) : Prop :=
  ∃ record, (file.messages ++ file.variants).filter (·.name = name) = [record] ∧
    file.render.recordNames.count name = 1 ∧
    record.opening :: (record.properties.flatMap Property.render ++ [⟨0, "\x7d;"⟩]) <:+:
      file.render ∧
    List.Forall₂ (fun field property => property.Names field) fields record.properties

namespace Viewpoint

variable {view : Viewpoint} {options : Options} {session : Session} {files : List SchemaFile}

end Viewpoint

namespace Schema

end Schema

end HttpClientGen
