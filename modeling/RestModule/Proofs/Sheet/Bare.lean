import RestModule.Proofs.Naming.Bare
import RestModule.Proofs.Sheet.Arguments
import RestModule.Proofs.Sheet.Imports
import RestModule.Sheet.Bundle
import RestModule.Sheet.Resource

/-!
# Sheets without dollar signs

The texts that a sheet puts into its template are made of names, types and paths of a definition and of
the values of a configuration. Where these are bare, so are the texts, and there is one for every
placeholder of the built-in template (`Sheet.IsBare`). -/

namespace RestModule

open Naming (IsBareName)
open Text (IsBare isBare_append isBare_intercalate isBare_joinLines isBare_ofLines)

/-! ## Types -/

namespace TypeMap

variable {map : TypeMap}

theorem isBare_keyword : ∀ type ∈ keywordTypes, IsBare type := by
  decide

/-- Types made of bare schema names are bare. -/
theorem isBare_of_javaType (hmap : ∀ name ∈ map.schemas, IsBare name) {location : String} :
    ∀ {type : SchemaType} {javaType : String}, map.javaType location type = .ok javaType →
      IsBare javaType
  | .mk token format items, javaType, h => by
    unfold TypeMap.javaType at h
    split at h
    · obtain ⟨name, hname, rfl⟩ := Except.map_ok h
      exact (Naming.modelClass_isBareName (hmap name (resolve_ok hname).1)).isBare
    · split at h
      · split at h
        · next items =>
          obtain ⟨inner, hinner, rfl⟩ := Except.map_ok h
          exact isBare_append.mpr ⟨isBare_of_javaType hmap hinner, by decide⟩
        · cases h
      · split at h
        · next type hkeyword =>
          cases h
          exact isBare_keyword _ (mem_keywordTypes hkeyword)
        · cases h

end TypeMap

/-! ## Fields -/

structure Field.HasBareParts (field : Field) : Prop where
  name : IsBareName field.name
  type : IsBare field.type

namespace Field.HasBareParts

variable {field : Field} (h : field.HasBareParts)

include h

theorem declaration : IsBare field.declaration := by
  simp +decide [Field.declaration, member, h.type, h.name.isBare]

theorem accessors : IsBare field.accessors := by
  have hcapital := h.name.capitalize.isBare
  have hgetter : IsBare field.getterMethod := by
    apply isBare_joinLines
    simp +decide [member, getter, h.type, h.name.isBare, hcapital]
  have hsetter : IsBare field.setterMethod := by
    apply isBare_joinLines
    simp +decide [member, setter, h.type, h.name.isBare, hcapital]
  exact isBare_append.mpr ⟨isBare_append.mpr ⟨hgetter, by decide⟩, hsetter⟩

end Field.HasBareParts

structure Component.HasBareParts (component : Component) : Prop where
  name : IsBare component.name
  properties : ∀ property ∈ component.properties, IsBare property.name ∧ IsBare property.javaType

theorem Component.HasBareParts.fields {component : Component} (h : component.HasBareParts) :
    ∀ field ∈ component.fields, field.HasBareParts := by
  intro field hfield
  obtain ⟨i, hi⟩ := List.mem_iff_getElem?.mp hfield
  obtain ⟨property, name, hproperty, hname, rfl⟩ := List.getElem?_zipWith_eq_some.mp hi
  refine ⟨?_, (h.properties property (List.mem_of_getElem? hproperty)).2⟩
  refine IsBareName.distinctBy (fun own hown => ?_) name (List.mem_of_getElem? hname)
  obtain ⟨property, hproperty, rfl⟩ := List.mem_map.mp hown
  exact Naming.identifier_isBareName (h.properties property hproperty).1

/-! ## Methods -/

structure Argument.HasBareParts (argument : Argument) : Prop where
  marker : IsBare argument.origin.marker
  type : IsBare argument.type
  name : IsBare argument.name

namespace Argument.HasBareParts

variable {argument : Argument} (h : argument.HasBareParts)

include h

theorem plain : IsBare argument.plain := by
  simp +decide [Argument.plain, h.type, h.name]

theorem annotated : IsBare argument.annotated :=
  isBare_append.mpr ⟨h.marker, h.plain⟩

end Argument.HasBareParts

structure Method.HasBareParts (method : Method) : Prop where
  name : IsBare method.name
  relativePath : IsBare method.relativePath
  parameters : ∀ parameter ∈ method.parameters,
    IsBare parameter.name ∧ IsBare parameter.javaType
  bodies : ∀ body, method.request = some body ∨ method.response = some body → IsBare body.model

namespace Argument

theorem originOf_bare (place : ParameterPlace) {parameter : Parameter}
    (h : IsBare parameter.name) : IsBare (originOf place parameter).marker := by
  cases place <;> simp +decide [originOf, Origin.marker, h]

theorem ofBody_bare {body : Body} (h : IsBare body.model) : (ofBody body).HasBareParts := by
  have htype := Naming.modelClass_isBareName h
  have hname := htype.decapitalize.isBare
  have hmarker : IsBare Origin.body.marker := by decide
  unfold ofBody
  dsimp only
  split
  · exact ⟨hmarker, isBare_append.mpr ⟨htype.isBare, by decide⟩,
      isBare_append.mpr ⟨hname, by decide⟩⟩
  · exact ⟨hmarker, htype.isBare, hname⟩

end Argument

namespace Method.HasBareParts

variable {method : Method} (h : method.HasBareParts)

include h

theorem parameterArguments : ∀ argument ∈ method.parameterArguments, argument.HasBareParts := by
  intro argument hargument
  obtain ⟨i, hi⟩ := List.mem_iff_getElem?.mp hargument
  obtain ⟨⟨place, parameter⟩, name, hplaced, hname, rfl⟩ := List.getElem?_zipWith_eq_some.mp hi
  have hparameter := List.mem_map_of_mem (f := Prod.snd) (List.mem_of_getElem? hplaced)
  rw [map_snd_placedParameters] at hparameter
  obtain ⟨hbare, htype⟩ := h.parameters parameter hparameter
  refine ⟨Argument.originOf_bare place hbare, htype, IsBareName.isBare ?_⟩
  refine IsBareName.distinctBy (fun own hown => ?_) name (List.mem_of_getElem? hname)
  obtain ⟨other, hother, rfl⟩ := List.mem_map.mp hown
  exact Naming.identifier_isBareName (h.parameters other hother).1

theorem arguments : ∀ argument ∈ method.arguments, argument.HasBareParts := by
  intro argument hargument
  rcases List.mem_append.mp hargument with hargument | hargument
  · exact h.parameterArguments argument hargument
  · simp only [fixedArguments, List.mem_append, Option.mem_toList, Option.map_eq_some_iff,
      List.mem_singleton] at hargument
    rcases hargument with (⟨body, hbody, rfl⟩ | rfl) | hargument
    · exact Argument.ofBody_bare (h.bodies body (.inl hbody))
    · exact ⟨by decide, by decide, by decide⟩
    · split at hargument
      · rw [List.mem_singleton.mp hargument]
        exact ⟨by decide, by decide, by decide⟩
      · cases hargument

theorem argumentList {write : Argument → String}
    (hwrite : ∀ argument : Argument, argument.HasBareParts → IsBare (write argument)) :
    IsBare (method.argumentList write) := by
  exact isBare_intercalate (by decide)
    (List.forall_mem_map.mpr fun argument hargument => hwrite argument (h.arguments argument hargument))

theorem returnType : IsBare method.returnType := by
  unfold Method.returnType
  split
  · next model hresponse =>
    have hmodel := Naming.modelClass_isBareName (h.bodies _ (.inr hresponse))
    simp +decide [hmodel.isBare]
  · next model hresponse => exact (Naming.modelClass_isBareName (h.bodies _ (.inr hresponse))).isBare
  · decide

theorem markers : ∀ marker ∈ method.markers, IsBare marker.text := by
  intro marker hmarker
  have hverb : ∀ verb : Verb, IsBare (Marker.verb verb).text := by
    intro verb
    cases verb <;> decide
  rw [Method.markers, List.mem_mergeSort] at hmarker
  simp only [ownMarkers, List.mem_append, List.mem_cons, List.not_mem_nil, or_false] at hmarker
  rcases hmarker with ((rfl | rfl) | hmarker) | hmarker
  · exact hverb method.verb
  · simp +decide [Marker.text, h.relativePath]
  all_goals
    split at hmarker
    · rw [List.mem_singleton.mp hmarker]
      decide
    · cases hmarker

theorem interfaceText : IsBare method.interfaceText := by
  refine isBare_append.mpr ⟨isBare_ofLines (List.forall_mem_map.mpr fun marker hmarker => ?_),
    isBare_joinLines ?_⟩
  · exact isBare_append.mpr ⟨by decide, h.markers marker hmarker⟩
  · have hlist := h.argumentList fun _ => Argument.HasBareParts.annotated
    simp +decide [h.returnType, h.name, hlist]

theorem implementationText : IsBare method.implementationText := by
  have hlist := h.argumentList fun _ => Argument.HasBareParts.plain
  have hstub : IsBare method.stub := by
    unfold Method.stub
    split <;> decide
  apply isBare_joinLines
  simp +decide [h.returnType, h.name, hlist, hstub]

end Method.HasBareParts

/-! ## Imports -/

structure Import.HasBareParts (i : Import) : Prop where
  package : IsBare i.package
  name : IsBare i.name

namespace Import

theorem HasBareParts.line {i : Import} (h : i.HasBareParts) : IsBare i.line := by
  simp +decide [Import.line, qualified, h.package, h.name]

variable {imports : List Import} (h : ∀ i ∈ imports, i.HasBareParts)

include h

theorem lines_bare : IsBare (lines imports) :=
  isBare_ofLines (List.forall_mem_map.mpr fun i hi => (h i hi).line)

theorem block_bare : IsBare (block imports) :=
  isBare_joinLines (List.forall_mem_map.mpr fun i hi => (h i hi).line)

end Import

structure Resource.HasBareParts (resource : Resource) : Prop where
  name : IsBareName resource.name
  methods : ∀ method ∈ resource.methods, method.HasBareParts
  models : ∀ name ∈ resource.models, IsBare name

namespace Resource

variable {resource : Resource}

theorem HasBareParts.modelImports (h : resource.HasBareParts) {modelPackage : String}
    (hpackage : IsBare modelPackage) : ∀ i ∈ resource.modelImports modelPackage, i.HasBareParts := by
  intro i hi
  obtain ⟨model, hmodel, rfl⟩ := List.mem_map.mp hi
  exact ⟨hpackage, (Naming.modelClass_isBareName (h.models model hmodel)).isBare⟩

theorem coreImports_bare {corePackage : String} (hpackage : IsBare corePackage) :
    ∀ i ∈ resource.coreImports corePackage, i.HasBareParts := by
  have hcore : ∀ part name, IsBare part → IsBare name →
      Import.HasBareParts ⟨corePackage ++ part, name⟩ :=
    fun part name hpart hname => ⟨isBare_append.mpr ⟨hpackage, hpart⟩, hname⟩
  refine List.forall_mem_cons.mpr ⟨hcore _ _ (by decide) (by decide), ?_⟩
  split
  · refine List.forall_mem_cons.mpr ⟨hcore _ _ (by decide) (by decide), ?_⟩
    exact List.forall_mem_singleton.mpr (hcore _ _ (by decide) (by decide))
  · exact List.forall_mem_nil _

theorem webImports_bare : ∀ i ∈ resource.webImports, i.HasBareParts := by
  have hweb : ∀ i ∈ Import.web, IsBare i.package ∧ IsBare i.name := by decide
  intro i hi
  obtain ⟨hpackage, hname⟩ := hweb i (resource.webImports_subset i hi)
  exact ⟨hpackage, hname⟩

end Resource

/-! ## Sheets -/

/-- The texts of a configuration are bare, its output path aside. -/
structure Config.HasBareParts (config : Config) : Prop where
  apiPackage : IsBare config.apiPackage
  applicationBase : IsBare config.applicationBase
  applicationClass : IsBare config.applicationClass
  applicationName : IsBare config.applicationName
  author : IsBare config.author
  bundleName : IsBare config.bundleName
  bundleSymbolicName : IsBare config.bundleSymbolicName
  bundleVersion : IsBare config.bundleVersion
  corePackage : IsBare config.corePackage
  modelPackage : IsBare config.modelPackage
  interfacePackage : IsBare config.interfacePackage
  implementationPackage : IsBare config.implementationPackage

namespace Sheet

/-- The built-in template of a sheet has a bare text for each of its placeholders. -/
structure IsBare (sheet : Sheet) : Prop where
  template : ∃ text, Template.builtin? sheet.template = some text ∧
    Template.isFilledBy ((sheet.insertions ++ sheet.values).map (·.1)) text = true
  insertions : ∀ insertion ∈ sheet.insertions,
    ∃ text, Template.builtin? insertion.2 = some text ∧ Text.IsBare text
  values : ∀ entry ∈ sheet.values, Text.IsBare entry.2

theorem IsBare.of_values {sheet : Sheet} {text : String} {names : List String}
    (hfilled : Template.isFilledBy names text = true)
    (htemplate : Template.builtin? sheet.template = some text)
    (hnames : sheet.values.map (·.1) = names)
    (hinsertions : ∀ insertion ∈ sheet.insertions,
      ∃ text, Template.builtin? insertion.2 = some text ∧ Text.IsBare text)
    (hvalues : ∀ entry ∈ sheet.values, Text.IsBare entry.2) : sheet.IsBare := by
  refine ⟨⟨text, htemplate, Template.isFilledBy_of_subset ?_ hfilled⟩, hinsertions, hvalues⟩
  rw [List.map_append, hnames]
  exact List.subset_append_right _ _

variable {config : Config} (hconfig : config.HasBareParts)

theorem build_bare : (build config).IsBare :=
  .of_values Template.isFilledBy_buildText rfl rfl (List.forall_mem_nil _) (List.forall_mem_nil _)

include hconfig

theorem bundle_bare : (bundle config).IsBare := by
  refine .of_values Template.isFilledBy_bundleText rfl rfl (List.forall_mem_nil _) ?_
  simp [bundle, hconfig.bundleName, hconfig.bundleSymbolicName, hconfig.bundleVersion]

theorem model_bare {component : Component} (h : component.HasBareParts) :
    (model config component).IsBare := by
  have hclass := (Naming.modelClass_isBareName h.name).isBare
  have himports : Text.IsBare (modelImports component) := by
    unfold modelImports
    split <;> decide
  have hmethods : Text.IsBare (String.intercalate "\n\n" (component.fields.map (·.accessors))) := by
    exact isBare_intercalate (by decide)
      (List.forall_mem_map.mpr fun field hfield => (h.fields field hfield).accessors)
  have hvariables : Text.IsBare (Text.joinLines (component.fields.map (·.declaration))) := by
    exact isBare_joinLines
      (List.forall_mem_map.mpr fun field hfield => (h.fields field hfield).declaration)
  refine .of_values Template.isFilledBy_modelText rfl rfl (List.forall_mem_nil _) ?_
  simp [model, hconfig.modelPackage, hconfig.author, hclass, himports, hmethods, hvariables]

section Resources

variable {resource : Resource} (h : resource.HasBareParts)

include h

theorem interface_bare {version : String} (hversion : Text.IsBare version) :
    (interface config version resource).IsBare := by
  have hmodels := Import.lines_bare (h.modelImports hconfig.modelPackage)
  have hcore := Import.lines_bare (resource.coreImports_bare hconfig.corePackage)
  have hweb := Import.block_bare resource.webImports_bare
  have hclass := (Naming.interfaceClass_isBareName h.name).isBare
  have hmethods : Text.IsBare
      (String.intercalate "\n\n" (resource.methods.map (·.interfaceText))) := by
    exact isBare_intercalate (by decide)
      (List.forall_mem_map.mpr fun method hmethod => (h.methods method hmethod).interfaceText)
  refine .of_values Template.isFilledBy_interfaceText rfl rfl (List.forall_mem_nil _) ?_
  simp [interface, hconfig.interfacePackage, hmodels, hcore, hweb, hversion, hconfig.author,
    h.name.isBare, hclass, hmethods]

theorem implementation_bare {version : String} (hversion : Text.IsBare version) :
    (implementation config version resource).IsBare := by
  have hinterface := (Naming.interfaceClass_isBareName h.name).isBare
  have hclass := (Naming.implementationClass_isBareName h.name).isBare
  have himports : Text.IsBare (Import.block (implementationImports config resource)) := by
    refine Import.block_bare (List.forall_mem_append.mpr ⟨List.forall_mem_append.mpr
      ⟨h.modelImports hconfig.modelPackage, ?_⟩, List.forall_mem_singleton.mpr ?_⟩)
    · exact Resource.coreImports_bare hconfig.corePackage
    · exact ⟨hconfig.interfacePackage, hinterface⟩
  have hweb : Text.IsBare (implementationWebImports resource) := by
    unfold implementationWebImports
    split <;> decide
  have hmethods : Text.IsBare
      (String.intercalate "\n\n" (resource.methods.map (·.implementationText))) := by
    exact isBare_intercalate (by decide)
      (List.forall_mem_map.mpr fun method hmethod => (h.methods method hmethod).implementationText)
  refine .of_values Template.isFilledBy_implementationText rfl rfl (List.forall_mem_nil _) ?_
  simp [implementation, hconfig.implementationPackage, himports, hweb, hversion, hconfig.author,
    hconfig.applicationName, h.name.isBare, hinterface, hclass, hmethods]

end Resources

theorem application_bare {resources : List Resource}
    (h : ∀ resource ∈ resources, IsBareName resource.name) :
    (application config resources).IsBare := by
  have hresources : Text.IsBare (String.intercalate ", "
      (resources.map fun resource => Naming.interfaceClass resource.name)) := by
    refine isBare_intercalate (by decide) (List.forall_mem_map.mpr fun resource hresource => ?_)
    exact (Naming.interfaceClass_isBareName (h resource hresource)).isBare
  refine .of_values Template.isFilledBy_applicationText rfl rfl ?_ ?_
  · unfold application
    dsimp only
    split
    · exact List.forall_mem_singleton.mpr ⟨Template.basicAuthenticationText, rfl, by decide⟩
    · exact List.forall_mem_nil _
  · simp +decide [application, hconfig.apiPackage, hconfig.author, hconfig.applicationBase,
      hconfig.applicationName, hconfig.applicationClass, hresources]

end Sheet

end RestModule
