import HttpClientGen.PackageFile

/-!
# Names used and declared in an output file

An output file uses type names in the properties of its records, in the signatures of its services,
in the answers of its clients and behind its aliases. It declares one name for each alias, union and
record. Names of services are not counted, neither as used nor as declared.
-/

namespace HttpClientGen

/-- The type names that need no declaration. -/
def builtinTypes : List String :=
  ["string", "number", "boolean", "unknown"]

theorem ScalarKind.typeName_mem_builtinTypes (kind : ScalarKind) :
    kind.typeName ∈ builtinTypes := by
  cases kind <;> decide

theorem Cardinality.leaf_wrap (cardinality : Cardinality) (element : TypeExpr) :
    (cardinality.wrap element).leaf = element.leaf := by
  cases cardinality <;> rfl

theorem UnionType.ofEnumeration_name (name : String) (enumeration : Enumeration) :
    (UnionType.ofEnumeration name enumeration).name = name :=
  rfl

/-- The line opens the declaration of a type, or is all of it. -/
def Line.Declares (line : Line) (name : String) : Prop :=
  line.level = 0 ∧
    (line.text = "export type " ++ name ++ " = \x7b" ∨
      line.text = "export type " ++ name ++ " =" ∨
      line.text = "interface " ++ name ++ " \x7b" ∨
      ("type " ++ name ++ " = ").toList <+: line.text.toList ∧ [';'] <:+ line.text.toList)

instance (line : Line) (name : String) : Decidable (line.Declares name) := by
  unfold Line.Declares
  infer_instance

/-- The names in the types of the properties. -/
def RecordType.uses (type : RecordType) : List String :=
  type.properties.map (·.type.leaf)

/-- The names of the requests and responses in the interface, and of the answers in the client. -/
def ServiceCode.uses (code : ServiceCode) : List String :=
  code.interface.signatures.flatMap (fun signature => [signature.input, signature.output]) ++
    code.factory.functions.map (·.output)

namespace PackageFile

def uses (file : PackageFile) : List String :=
  file.wellKnown.flatMap (fun type => type.dependencies.map WellKnown.aliasName) ++
    (file.messages ++ file.variants).flatMap RecordType.uses ++
    file.services.flatMap ServiceCode.uses

/-- One of the lines declares a type of that name. -/
def Declares (file : PackageFile) (name : String) : Prop :=
  ∃ line ∈ file.render, line.Declares name

/-- What the file uses is built in or declared. -/
def Closed (file : PackageFile) : Prop :=
  ∀ name ∈ file.uses, name ∈ builtinTypes ∨ file.Declares name

instance (file : PackageFile) : Decidable file.Closed := by
  unfold Closed Declares
  infer_instance

theorem declares_record {file : PackageFile} {record : RecordType}
    (listed : record ∈ file.messages ++ file.variants) : file.Declares record.name := by
  refine ⟨⟨0, "export type " ++ record.name ++ " = \x7b"⟩, ?_, rfl, Or.inl rfl⟩
  have line : ⟨0, "export type " ++ record.name ++ " = \x7b"⟩ ∈ record.render := by
    simp [RecordType.render]
  rcases List.mem_append.mp listed with message | variant
  · have inLines := List.mem_flatMap.mpr ⟨record, message, line⟩
    simp [render, inLines]
  · have inLines := List.mem_flatMap.mpr ⟨record, variant, line⟩
    simp [render, inLines]

theorem declares_union {file : PackageFile} {union : UnionType} (listed : union ∈ file.enums) :
    file.Declares union.name := by
  refine ⟨⟨0, "export type " ++ union.name ++ " ="⟩, ?_, rfl, Or.inr (Or.inl rfl)⟩
  have line : ⟨0, "export type " ++ union.name ++ " ="⟩ ∈ union.render := by
    simp [UnionType.render]
  have inLines := List.mem_flatMap.mpr ⟨union, listed, line⟩
  simp [render, inLines]

theorem declares_alias {file : PackageFile} {type : WellKnown} (listed : type ∈ file.wellKnown) :
    file.Declares type.aliasName := by
  have line : ∃ line ∈ type.declaration, line.Declares type.aliasName := by
    cases aliased : type.aliased? with
    | some target =>
      refine ⟨⟨0, "type " ++ type.aliasName ++ " = " ++ target ++ ";"⟩, ?_, rfl, ?_⟩
      · simp [WellKnown.declaration, aliased]
      · refine Or.inr (Or.inr (Or.inr ⟨⟨target.toList ++ [';'], ?_⟩,
          ⟨("type " ++ type.aliasName ++ " = " ++ target).toList, ?_⟩⟩)) <;> simp
    | none =>
      refine ⟨⟨0, "interface " ++ type.aliasName ++ " \x7b"⟩, ?_, rfl, Or.inr (Or.inr (Or.inl rfl))⟩
      simp [WellKnown.declaration, aliased]
  obtain ⟨line, inDeclaration, declares⟩ := line
  have inLines := List.mem_flatMap.mpr ⟨type, listed, inDeclaration⟩
  exact ⟨line, by simp [render, inLines], declares⟩

end PackageFile

end HttpClientGen
