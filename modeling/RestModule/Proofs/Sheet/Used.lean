import RestModule.Proofs.Sheet.Named
import RestModule.Proofs.Spec.Uses

/-!
# Imports of what is used

The sources of the resources of an imported definition import the JAX-RS classes and the core classes
that their methods use, and no others (`Sheet.imports_used`). -/

namespace RestModule

open Source (commentLine)
open Template (slot)

/-! ## Sources -/

namespace Sheet

variable (config : Config) (version : String) (resource : Resource)

/-- The lines of an interface after its imports. -/
def interfaceBody : List String :=
  [commentLine, " * @author " ++ config.author, " */", "@Generated(value = \"restmodgen\")",
    (resource.marker version).text,
    "public interface " ++ Naming.interfaceClass resource.name ++ " \x7b", "",
    String.intercalate "\n\n" (resource.methods.map fun method =>
      Text.ofLines (method.markers.map fun marker => "\t" ++ marker.text)
        ++ method.declared.text ++ ";"),
    "", "\x7d"]

/-- The lines with which an implementation ends. -/
def implementationMethods : List String :=
  [String.intercalate "\n\n" (resource.methods.map fun method => Text.joinLines
    ["\t@Override", method.implemented.text ++ " \x7b", "", "\t\t" ++ method.stub, "\t\x7d"]),
    "", "\x7d"]

theorem interfaceSource_eq : interfaceSource config version resource =
    Text.ofLines (interfaceHeader config resource ++ interfaceBody config version resource) := by
  have htext : Template.interfaceText = Text.ofLines (interfaceTop ++
      [commentLine, Template.authorLine, " */",
        "@Generated(value = \"restmodgen\")",
        "@Path(\"/v" ++ (slot "API_VERSION" ++ ("/" ++ (slot "PATH" ++ "\")"))),
        "public interface " ++ (slot "MODEL_RESOURCE_INTERFACE_CLASS" ++ " \x7b"), "",
        slot "METHODS", "", "\x7d"]) := rfl
  rw [interfaceSource, filled, htext, Template.render_header (render_interfaceTop ..)]
  set values := [] ++ (interface config version resource).values
  have hplain : ∀ line : String, '$' ∉ line.toList → Template.render line values = line :=
    fun line h => Template.render_plain h values
  have hauthor : Template.render Template.authorLine values = " * @author " ++ config.author :=
    Template.render_authorLine rfl
  have hpath : Template.render
      ("@Path(\"/v" ++ (slot "API_VERSION" ++ ("/" ++ (slot "PATH" ++ "\")")))) values =
      (resource.marker version).text := by
    rw [Template.render_around "@Path(\"/v" "API_VERSION" _ rfl,
      Template.render_around "/" "PATH" _ rfl, hplain "\")" (by decide), Resource.marker, Marker.text]
    simp [← String.toList_inj, String.toList_append]
  have hclass : Template.render
      ("public interface " ++ (slot "MODEL_RESOURCE_INTERFACE_CLASS" ++ " \x7b")) values =
      "public interface " ++ Naming.interfaceClass resource.name ++ " \x7b" := by
    rw [Template.render_around "public interface " "MODEL_RESOURCE_INTERFACE_CLASS" _ rfl,
      hplain " \x7b" (by decide), String.append_assoc]
  have hmethods : Template.render (slot "METHODS") values =
      String.intercalate "\n\n" (resource.methods.map (·.interfaceText)) :=
    Template.render_slot rfl
  simp only [Method.interfaceText_eq] at hmethods
  simp only [List.map_cons, List.map_nil, hauthor, hpath, hclass, hmethods,
    hplain commentLine (by decide), hplain " */" (by decide), hplain "" (by decide),
    hplain "@Generated(value = \"restmodgen\")" (by decide), hplain "\x7d" (by decide),
    interfaceBody]

theorem exists_implementationSource_methods :
    ∃ comment, implementationSource config version resource =
      Text.ofLines (implementationHeader config resource ++
        (commentLine :: comment ++ implementationMethods resource)) := by
  obtain ⟨comment, htext⟩ : ∃ comment, Template.implementationText = Text.ofLines
      (implementationTop ++ (commentLine :: comment ++ [slot "METHODS", "", "\x7d"])) :=
    ⟨_, congrArg Text.ofLines (congrArg (implementationTop ++ ·)
      (congrArg (commentLine :: ·) (List.take_append_drop 13 _).symm))⟩
  rw [implementationSource, filled, htext, Template.render_header (render_implementationTop ..)]
  set values := [] ++ (implementation config version resource).values
  have hplain : ∀ line : String, '$' ∉ line.toList → Template.render line values = line :=
    fun line h => Template.render_plain h values
  have hmethods : Template.render (slot "METHODS") values =
      String.intercalate "\n\n" (resource.methods.map (·.implementationText)) :=
    Template.render_slot rfl
  simp only [Method.implementationText_eq] at hmethods
  refine ⟨comment.map (Template.render · values), ?_⟩
  simp only [List.map_append, List.map_cons, List.map_nil, hmethods,
    hplain commentLine (by decide), hplain "" (by decide), hplain "\x7d" (by decide),
    implementationMethods]

/-- Nothing that an implementation imports for other reasons is taken for the class of responses. -/
theorem line_ne_response :
    ∀ i ∈ implementationImports config resource, i.line ≠ Import.response.line := by
  have hending : ∀ (i : Import) (ending : String), ending.toList <:+ i.name.toList →
      ¬ (ending ++ ";").toList <:+ Import.response.line.toList →
        i.line ≠ Import.response.line := by
    rintro i ending ⟨before, hname⟩ hother hline
    refine hother ⟨"import ".toList ++ i.package.toList ++ '.' :: before, ?_⟩
    rw [← hline, i.toList_line, ← hname]
    simp [String.toList_append]
  intro i hi
  rw [implementationImports, List.mem_append, List.mem_append, List.mem_singleton] at hi
  rcases hi with (hi | hi) | rfl
  · obtain ⟨model, -, rfl⟩ := List.mem_map.mp hi
    exact hending _ "DTO" (Naming.suffix_modelClass model) (by decide)
  · have hcore : ∀ name ∈ Import.coreNames,
        ¬ (name ++ ";").toList <:+ Import.response.line.toList := by decide
    have hname := Resource.mem_coreNames (List.mem_map_of_mem hi)
    exact hending i i.name List.suffix_rfl (hcore i.name hname)
  · exact hending _ "Resource" (Naming.suffix_interfaceClass resource.name) (by decide)

/-- An implementation imports the class of responses for the methods without a body. -/
theorem response_mem_implementationHeader_iff :
    Import.response.line ∈ implementationHeader config resource ↔
      ∃ method ∈ resource.methods, method.response = none := by
  have hpackage : Import.response.line ≠ "package " ++ config.implementationPackage ++ ";" := by
    intro h
    have hhead := congrArg (·.toList.head?) h
    simp [Import.toList_line, String.toList_append] at hhead
  have himports : Import.response.line ∉
      (implementationImports config resource).map Import.line := by
    rintro hmem
    obtain ⟨i, hi, hline⟩ := List.mem_map.mp hmem
    exact line_ne_response config resource i hi hline
  have hothers : Import.response.line ≠ "" ∧ Import.response.line ≠ Import.component.line := by
    decide
  have hany : resource.methods.any (·.response.isNone) = true ↔
      ∃ method ∈ resource.methods, method.response = none := by
    simp only [List.any_eq_true, Option.isNone_iff_eq_none]
  rw [← hany, implementationHeader]
  simp only [List.mem_append, List.map_cons, List.map_nil, hpackage, himports,
    hothers, List.mem_ite_nil_right, List.mem_cons, List.not_mem_nil, and_true, or_false, false_or]

end Sheet

/-! ## Definitions -/

namespace Definition

variable {document : Document} {definition : Definition} {resource : Resource} {method : Method}

theorem methods_ne_nil (h : ofDocument document = .ok definition)
    (hresource : resource ∈ definition.resources) : resource.methods ≠ [] := by
  obtain ⟨_, _, _, _, -, -, -, hoperations, rfl⟩ := ofDocument_eq_ok_iff.mp h
  exact (Resource.group_of_reads (reads_operationsOf hoperations)).nonempty resource hresource

/-- A method of a resource is declared somewhere, and the resource has the models mentioned there. -/
theorem exists_declared_of_mem (h : ofDocument document = .ok definition)
    (hresource : resource ∈ definition.resources) (hmethod : method ∈ resource.methods) :
    ∃ declared : Declared, declared.method = method ∧
      declared.Holds (document.entries?.getD []) ∧
      ∀ name ∈ declared.mentions, name ∈ resource.models := by
  obtain ⟨all, -, hmethods, hholds, hmodels⟩ := exists_declared h hresource
  rw [← hmethods] at hmethod
  obtain ⟨declared, hdeclared, rfl⟩ := List.mem_map.mp hmethod
  refine ⟨declared, rfl, hholds declared hdeclared, fun name hname => ?_⟩
  rw [hmodels]
  simpa using ⟨declared, hdeclared, hname⟩

theorem response_mem_models (h : ofDocument document = .ok definition)
    (hresource : resource ∈ definition.resources) (hmethod : method ∈ resource.methods)
    {body : Body} (hbody : method.response = some body) : body.model ∈ resource.models := by
  obtain ⟨declared, rfl, hholds, hmodels⟩ := exists_declared_of_mem h hresource hmethod
  exact hmodels _ (hholds.mem_mentions_iff.mpr (.inl ⟨body, .inr hbody, rfl⟩))

/-- No parameter has the type that the wanted part of a collection has. -/
theorem javaType_ne_pagination (h : ofDocument document = .ok definition)
    (hresource : resource ∈ definition.resources) (hmethod : method ∈ resource.methods) :
    ∀ parameter ∈ method.parameters, parameter.javaType ≠ "Pagination" := by
  obtain ⟨_, _, _, operations, -, -, -, hoperations, rfl⟩ := ofDocument_eq_ok_iff.mp h
  obtain ⟨name, more, hmore, rfl⟩ := Resource.exists_of_mem_group hresource
  obtain ⟨operation, hoperation, chosen, rfl⟩ := Resource.exists_of_mem_methods hmethod
  have hresolved := operationsOf_ok hoperations operation (hmore operation hoperation)
  have hother : "Pagination" ∉ TypeMap.keywordTypes ∧ ¬ "DTO".toList <:+ "Pagination".toList ∧
      elementType "Pagination" = "Pagination" := by decide
  intro parameter hparameter htype
  have htypes := hresolved.parameters parameter hparameter ""
  rw [htype] at htypes
  rcases TypeMap.elementType_of_javaType htypes with hkeyword | ⟨model, -, hmodel⟩
  · exact hother.1 (hother.2.2 ▸ hkeyword)
  · exact Naming.ne_modelClass hother.2.1 model (hother.2.2 ▸ hmodel)

end Definition

/-! ## Imports -/

/-- The sources of a resource import the JAX-RS classes and the core classes that they use, and no
others. -/
structure Resource.ImportsUsed (config : Config) (version : String) (resource : Resource) :
    Prop where
  interface : Sheet.interfaceSource config version resource = Text.ofLines
    (Sheet.interfaceHeader config resource ++ Sheet.interfaceBody config version resource)
  implementation : ∃ comment, Sheet.implementationSource config version resource =
    Text.ofLines (Sheet.implementationHeader config resource ++
      (commentLine :: comment ++ Sheet.implementationMethods resource))
  sorted : resource.webImports.Pairwise (·.qualified < ·.qualified)
  web : ∀ i, i ∈ resource.webImports ↔
    i ∈ Import.web ∧ i.name ∈ resource.annotationNames version ++ resource.returnNames
  annotations : ∀ name ∈ resource.annotationNames version, name ∈ resource.webImports.map (·.name)
  /-- Other types that methods return are models or the core's class of collections. -/
  returns : ∀ name ∈ resource.returnNames,
    name ∈ (Sheet.interfaceClasses config resource).map (·.name)
  /-- The imports of core classes are a block of both headers. -/
  language :
    ⟨config.corePackage ++ ".context", "Language"⟩ ∈ resource.coreImports config.corePackage
  usesLanguage : resource.methods ≠ [] ∧ ∀ method ∈ resource.methods,
    ∃ argument ∈ method.arguments, argument.type = "Language"
  pagination :
    ⟨config.corePackage ++ ".context", "Pagination"⟩ ∈ resource.coreImports config.corePackage ↔
      ∃ method ∈ resource.methods, ∃ argument ∈ method.arguments, argument.type = "Pagination"
  collection :
    ⟨config.corePackage ++ ".model", "CollectionDTO"⟩ ∈ resource.coreImports config.corePackage ↔
      ∃ method ∈ resource.methods, ∃ type, method.returnType = "CollectionDTO<" ++ type ++ ">"
  response : Import.response.line ∈ Sheet.implementationHeader config resource ↔
    ∃ method ∈ resource.methods, method.returnType = "Response"

namespace Resource

variable {resource : Resource}

theorem mem_coreImports_iff {package : String} {i : Import} :
    i ∈ resource.coreImports package ↔
      i = ⟨package ++ ".context", "Language"⟩ ∨
        (∃ method ∈ resource.methods, method.isCollection = true) ∧
          (i = ⟨package ++ ".context", "Pagination"⟩ ∨
            i = ⟨package ++ ".model", "CollectionDTO"⟩) := by
  rw [coreImports, List.mem_cons, List.mem_ite_nil_right, List.any_eq_true, List.mem_cons,
    List.mem_singleton]

theorem returnNames_imported (config : Config)
    (h : ∀ method ∈ resource.methods, ∀ body, method.response = some body →
      body.model ∈ resource.models) :
    ∀ name ∈ resource.returnNames,
      name ∈ (Sheet.interfaceClasses config resource).map (·.name) := by
  intro name hname
  obtain ⟨method, hmethod, hname⟩ := List.mem_flatMap.mp hname
  rw [Sheet.interfaceClasses, List.map_append, List.map_append, List.map_append, List.mem_append,
    List.mem_append, List.mem_append, map_name_modelImports]
  rcases Method.mem_typeNames_iff.mp hname with
    ⟨hnone, rfl⟩ | ⟨hcollection, rfl⟩ | ⟨body, hbody, rfl⟩
  · refine .inr (mem_map_name_iff.mpr (.inr (.inr ⟨method, hmethod, ?_⟩)))
    exact Method.response_mem_webImports_iff.mpr hnone
  · refine .inl (.inl (.inr (collection_mem_coreImports.mpr ?_)))
    exact List.any_eq_true.mpr ⟨method, hmethod, hcollection⟩
  · exact .inl (.inl (.inl (List.mem_map_of_mem (h method hmethod body hbody))))

end Resource

namespace Sheet

end Sheet

end RestModule
