import HttpClientGen.Proofs.Interface
import Mathlib.Data.List.Flatten
import Mathlib.Data.List.Forall2

/-!
# Names of declared types

The type names in an output file belong to declarations of five kinds. Messages claim the names of
their records, aliases are sorted by name, an enumeration is met once, and the schema tells the services
on top of one package apart. Between the kinds nothing is claimed: names are told apart there as far as
the schema gives what the file declares different names, as seen from the package.
-/

namespace HttpClientGen

/-- What a declaration in an output file is for. -/
inductive DeclaredKind
  | wellKnown | enumeration | message | transport | service
  deriving DecidableEq

def DeclaredKind.all : List DeclaredKind :=
  [wellKnown, enumeration, message, transport, service]

namespace PackageFile

end PackageFile

namespace Schema

variable {schema : Schema}

theorem nodup_aliases (schema : Schema) (files : List SchemaFile) :
    ((schema.contents files).wellKnown.map WellKnown.aliasName).Nodup :=
  (List.pairwise_map.mpr (pairwise_ascending _)).imp fun less => ne_of_lt less

/-- The enumerations that the walk finds are those that the schema has under their names. -/
theorem enum?_of_mem_contentsOf {met : List String} {queue : List TypeRef}
    {enumeration : Enumeration} (found : enumeration ∈ (schema.contentsOf met queue).enums) :
    schema.enum? enumeration.fullName = some enumeration ∧
      WellKnown.ofFullName? enumeration.fullName = none := by
  fun_induction contentsOf schema met queue with
  | case1 => cases found
  | case2 met ref rest type _ ih => exact ih found
  | case3 met ref rest _ _ ih => exact ih found
  | case4 met rest fullName _ _ _ _ _ ih => exact ih found
  | case5 met rest fullName _ _ first known ordinary _ ih =>
    rcases List.mem_cons.mp found with rfl | later
    · have named := fullName_of_enum? known
      exact ⟨named ▸ known, named ▸ ordinary⟩
    · exact ih later
  | case6 met rest fullName _ _ _ _ ih => exact ih found
  | case7 met rest fullName _ _ _ _ _ ih => exact ih found

theorem mem_files_of_file? {name : String} {file : SchemaFile}
    (found : schema.file? name = some file) : file ∈ schema.files ∧ file.name = name :=
  ⟨List.mem_of_find?_eq_some found, by simpa using List.find?_some found⟩

end Schema

/-- What a type name in an output file may come from: a well-known type, an enumeration, a message in
one of its shapes, the types for transport or a service. -/
inductive TypeSource
  | wellKnown (type : WellKnown)
  | enumeration (enumeration : Enumeration)
  | message (message : Message) (shape : Option Direction)
  | transport (name : String)
  | service (service : Service)

def TypeSource.kind : TypeSource → DeclaredKind
  | wellKnown _ => .wellKnown
  | enumeration _ => .enumeration
  | message _ _ => .message
  | transport _ => .transport
  | service _ => .service

namespace Viewpoint

variable {view : Viewpoint}

end Viewpoint

namespace Schema

variable {schema : Schema}

end Schema

end HttpClientGen
