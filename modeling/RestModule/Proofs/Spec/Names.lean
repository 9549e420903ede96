import RestModule.Proofs.Spec.Closed
import RestModule.Proofs.Spec.Path

/-!
# The names in imported definitions

The name of a resource is made of identifier characters (`Definition.isName_of_ofText`), and a Java
type whose elements are models is made of the class of one of the schemas
(`TypeMap.exists_model_of_types`). -/

namespace RestModule

/-! ## Resources -/

namespace Operation

theorem isName_of_splitPath? {path name rest : String}
    (h : splitPath? path = some (name, rest)) : Naming.IsName name := by
  obtain ⟨-, rfl, -⟩ := splitPath?_eq_some_iff.mp h
  exact Naming.camelCase_isName _

/-- The parts that a path item is put together from. -/
theorem itemAt_parts {shared : List (String × RawParameter)} {path : String}
    {document : Document} {item : PathItem} {entries : List (String × Document)}
    (h : itemAt shared path document = .ok (item, entries)) :
    document = .map entries ∧ splitPath? path = some (item.resource, item.relativePath) ∧
      parametersOf shared ("paths." ++ path) entries = .ok item.parameters := by
  obtain ⟨found, hfound, h⟩ := Except.bind_ok h
  split at h
  · cases h
  · next resource relativePath hsplit =>
    obtain ⟨parameters, hparameters, h⟩ := Except.bind_ok h
    cases h
    refine ⟨?_, hsplit, hparameters⟩
    cases document with
    | map inner => exact congrArg Document.map (Except.ok.inj hfound)
    | _ => cases hfound

theorem isName_of_itemAt {shared : List (String × RawParameter)} {path : String}
    {document : Document} {item : PathItem} {entries : List (String × Document)}
    (h : itemAt shared path document = .ok (item, entries)) : Naming.IsName item.resource :=
  isName_of_splitPath? (itemAt_parts h).2.1

/-- What an operation has from its path item, its key and its identifier. -/
theorem head_of_ofEntries {map : TypeMap} {shared : List (String × RawParameter)} {item : PathItem}
    {verb : Verb} {location : String} {entries : List (String × Document)} {operation : Operation}
    (h : ofEntries map shared item verb location entries = .ok operation) :
    operation.resource = item.resource ∧ operation.method.verb = verb ∧
      operation.method.relativePath = item.relativePath ∧
      operation.method.name = methodName item.resource verb entries := by
  obtain ⟨own, placed, request, response, -, -, -, -, rfl⟩ := exists_parts h
  exact ⟨rfl, rfl, rfl, rfl⟩

theorem resource_of_ofDocument {map : TypeMap} {shared : List (String × RawParameter)}
    {item : PathItem} {verb : Verb} {key : String} {document : Document} {operation : Operation}
    (h : ofDocument map shared item verb key document = .ok operation) :
    operation.resource = item.resource := by
  obtain ⟨entries, -, h⟩ := Except.bind_ok h
  exact (head_of_ofEntries h).1

theorem isName_of_ofPaths {map : TypeMap} {shared : List (String × RawParameter)}
    {paths : List (String × Document)} {operations : List Operation}
    (h : ofPaths map shared paths = .ok operations) :
    ∀ operation ∈ operations, Naming.IsName operation.resource := by
  obtain ⟨results, hresults, rfl⟩ := Except.map_ok h
  intro operation hmem
  obtain ⟨result, hresult, hmem⟩ := List.mem_flatten.mp hmem
  obtain ⟨path, -, hitem⟩ := Except.exists_of_mem_mapM hresults hresult
  obtain ⟨⟨item, entries⟩, hitem, hoperations⟩ := Except.bind_ok hitem
  obtain ⟨entry, -, hoperation⟩ := Except.exists_of_mem_mapM hoperations hmem
  rw [resource_of_ofDocument hoperation]
  exact isName_of_itemAt hitem

end Operation

namespace Definition

variable {text : String} {definition : Definition}

theorem closed_of_ofText (h : ofText text = .ok definition) : definition.Closed := by
  obtain ⟨document, hdocument, h⟩ := Except.bind_ok h
  exact closed_of_ofDocument (Document.parse_distinct hdocument) h

theorem isName_of_ofDocument {document : Document} (h : ofDocument document = .ok definition) :
    ∀ resource ∈ definition.resources, Naming.IsName resource.name := by
  obtain ⟨_, _, _, operations, -, -, -, hoperations, rfl⟩ := ofDocument_eq_ok_iff.mp h
  intro resource hresource
  obtain ⟨name, hname, rfl⟩ := List.mem_map.mp hresource
  have hmention : name ∈ operations.map (·.resource) := by simpa using mem_addNames.mp hname
  obtain ⟨operation, hoperation, rfl⟩ := List.mem_map.mp hmention
  unfold operationsOf at hoperations
  split at hoperations
  · cases hoperations
    cases hoperation
  · obtain ⟨entries, -, hpaths⟩ := Except.bind_ok hoperations
    exact Operation.isName_of_ofPaths hpaths operation hoperation

/-- The resources of an imported definition have names made of identifier characters. -/
theorem isName_of_ofText (h : ofText text = .ok definition) :
    ∀ resource ∈ definition.resources, Naming.IsName resource.name := by
  obtain ⟨document, -, h⟩ := Except.bind_ok h
  exact isName_of_ofDocument h

end Definition

/-! ## Element types -/

/-- A Java type without the brackets at its end. -/
def elementType (javaType : String) : String :=
  .ofList (dropBrackets javaType.toList.reverse).reverse

theorem elementType_brackets (type : String) : elementType (type ++ "[]") = elementType type := by
  rw [elementType, String.toList_append, List.reverse_append]
  rfl

theorem elementType_modelClass (component : String) :
    elementType (Naming.modelClass component) = Naming.modelClass component := by
  have hkept : dropBrackets (Naming.modelClass component).toList.reverse =
      (Naming.modelClass component).toList.reverse := by
    rw [Naming.modelClass, String.toList_append, List.reverse_append]
    rfl
  rw [elementType, hkept, List.reverse_reverse, String.ofList_toList]

namespace TypeMap

variable {map : TypeMap}

/-- The Java types of the keywords. -/
def keywordTypes : List String :=
  ["Date", "String", "Integer", "Long", "Float", "Double", "Boolean", "Object"]

theorem mem_keywordTypes {token type : String} {format : Option String}
    (h : keyword? token format = some type) : type ∈ keywordTypes := by
  unfold keyword? at h
  split at h
  · split at h <;> cases h <;> decide
  · split at h <;> cases h <;> decide
  · split at h <;> cases h <;> decide
  · cases h
    decide
  · cases h
    decide
  · cases h

theorem elementType_keyword : ∀ type ∈ keywordTypes,
    elementType type = type ∧ ¬ "DTO".toList <:+ type.toList := by
  decide

/-- The elements of a Java type are those of a keyword or models. -/
theorem elementType_of_javaType {location : String} : ∀ {type : SchemaType} {javaType : String},
    map.javaType location type = .ok javaType →
      elementType javaType ∈ keywordTypes ∨
        ∃ name ∈ map.schemas, elementType javaType = Naming.modelClass name
  | .mk token format items, javaType, h => by
    unfold TypeMap.javaType at h
    split at h
    · obtain ⟨name, hname, rfl⟩ := Except.map_ok h
      exact .inr ⟨name, (resolve_ok hname).1, elementType_modelClass name⟩
    · split at h
      · split at h
        · next items =>
          obtain ⟨inner, hinner, rfl⟩ := Except.map_ok h
          rw [elementType_brackets]
          exact elementType_of_javaType hinner
        · cases h
      · split at h
        · next type hkeyword =>
          cases h
          have hmem := mem_keywordTypes hkeyword
          exact .inl ((elementType_keyword _ hmem).1.symm ▸ hmem)
        · cases h

/-- A Java type whose elements are named like a model is made of the class of a schema. -/
theorem exists_model_of_types {type : SchemaType} {javaType : String} (h : map.Types type javaType)
    (hmodel : "DTO".toList <:+ (elementType javaType).toList) :
    ∃ name ∈ map.schemas, elementType javaType = Naming.modelClass name := by
  rcases elementType_of_javaType (h "") with hkeyword | hname
  · exact absurd hmodel (elementType_keyword _ hkeyword).2
  · exact hname

end TypeMap

end RestModule
