import RestModule.Proofs.Naming.Camel
import RestModule.Proofs.Sheet.Place
import RestModule.Proofs.Source.Identifiers

/-!
# The files of resources

Each resource of an imported definition has an interface and an implementation. No two of these have
one class name or one file, also if all of them are in one package
(`Definition.resource_files_apart`): resources have different names, which begin low, and the names of
interfaces end otherwise than those of implementations. -/

namespace RestModule

theorem Sheet.path_of_render {lookUp : String → Except Error String} {sheet : Sheet}
    {file : Rendered} (h : sheet.render lookUp = .ok file) : file.path = sheet.path := by
  obtain ⟨inserted, -, h⟩ := Except.bind_ok h
  obtain ⟨text, -, h⟩ := Except.bind_ok h
  cases h
  rfl

namespace Definition

/-- The sheets that a run makes for resources. -/
def resourceSheets (definition : Definition) (config : Config) : List Sheet :=
  definition.resources.flatMap fun resource =>
    [.interface config definition.version resource,
      .implementation config definition.version resource]

/-- The classes of the interfaces and implementations of resources. -/
def resourceClasses (definition : Definition) (config : Config) : List Import :=
  definition.resources.flatMap fun resource =>
    [⟨config.interfacePackage, Naming.interfaceClass resource.name⟩,
      ⟨config.implementationPackage, Naming.implementationClass resource.name⟩]

variable {config : Config} {definition : Definition}

theorem map_path_resourceSheets :
    (definition.resourceSheets config).map (·.path) =
      (definition.resourceClasses config).map fun i =>
        Sheet.classFile config i.package i.name := by
  simp only [resourceSheets, resourceClasses, List.map_flatMap, List.map_cons, List.map_nil,
    Sheet.interface, Sheet.implementation]

theorem declares_of_mem_resourceClasses {i : Import} (h : i ∈ definition.resourceClasses config) :
    ∃ sheet, Sheet.Declares config definition sheet i := by
  obtain ⟨resource, hresource, hi⟩ := List.mem_flatMap.mp h
  simp only [List.mem_cons, List.not_mem_nil, or_false] at hi
  rcases hi with rfl | rfl
  · exact ⟨_, .interface hresource⟩
  · exact ⟨_, .implementation hresource⟩

/-- Resources have different names, and all of them begin low. -/
theorem names_of_ofDocument {document : Document} (h : ofDocument document = .ok definition) :
    (definition.resources.map (·.name)).Nodup ∧
      ∀ resource ∈ definition.resources, Naming.BeginsLow resource.name := by
  obtain ⟨root, _, _, operations, rfl, -, -, hoperations, rfl⟩ := ofDocument_eq_ok_iff.mp h
  have hreads := reads_operationsOf hoperations
  refine ⟨(Resource.group_of_reads hreads).distinct, fun resource hresource => ?_⟩
  have hname : resource.name ∈ (Resource.group operations).map (·.name) :=
    List.mem_map_of_mem hresource
  rw [Resource.names_group hreads] at hname
  obtain ⟨mention, -, hmention⟩ : ∃ mention ∈ Document.mentions (.map root),
      mention.resource = resource.name := by simpa using hname
  obtain ⟨⟨hstart, -⟩, -⟩ :=
    Resource.isTitled_of_mem_group (isTitled_of_operationsOf hoperations) hresource
  have hcamel : Naming.camelCase (Operation.firstSegment mention.path) = resource.name := hmention
  rw [← hcamel]
  apply Naming.camelCase_beginsLow
  rw [hcamel]
  intro hempty
  have hlength := hstart.length_pos
  rw [hempty] at hlength
  exact absurd hlength (by decide)

theorem nodup_resourceClasses (hdistinct : (definition.resources.map (·.name)).Nodup)
    (hlow : ∀ resource ∈ definition.resources, Naming.BeginsLow resource.name) :
    ((definition.resourceClasses config).map (·.name)).Nodup := by
  rw [List.Nodup, List.pairwise_map] at hdistinct
  simp only [resourceClasses, List.map_flatMap, List.map_cons, List.map_nil]
  refine List.pairwise_flatMap.mpr ⟨fun resource _ => ?_, ?_⟩
  · exact List.pairwise_pair.mpr (Naming.interfaceClass_ne_implementationClass _ _)
  · refine hdistinct.imp_of_mem fun {a b} ha hb hne => ?_
    simp only [List.forall_mem_cons]
    have hinterfaces := mt (Naming.interfaceClass_inj (hlow a ha) (hlow b hb)).mp hne
    have himplementations := mt (Naming.implementationClass_inj (hlow a ha) (hlow b hb)).mp hne
    have hmixed := Naming.interfaceClass_ne_implementationClass
    have hnone : ∀ name : String, ∀ other ∈ ([] : List String), name ≠ other :=
      fun _ _ hother => (List.not_mem_nil hother).elim
    exact ⟨⟨hinterfaces, hmixed _ _, hnone _⟩, ⟨(hmixed _ _).symm, himplementations, hnone _⟩,
      fun _ hother => (List.not_mem_nil hother).elim⟩

/-- The interfaces and implementations of an imported definition have class names and files of their
own, whatever packages a configuration puts them into and whatever templates they are made with. -/
theorem resource_files_apart {document : Document} (hconfig : config.validate = .ok ())
    (h : ofDocument document = .ok definition) :
    ((definition.resourceClasses config).map (·.name)).Nodup ∧
      ((definition.resourceSheets config).Pairwise fun a b => a.path.same b.path = false) ∧
      ∀ (lookUp : String → Except Error String) files,
        (definition.resourceSheets config).mapM (Sheet.render lookUp) = .ok files →
        files.Pairwise fun a b => a.path.same b.path = false := by
  obtain ⟨hdistinct, hlow⟩ := names_of_ofDocument h
  have hnodup : ((definition.resourceClasses config).map (·.name)).Nodup :=
    nodup_resourceClasses hdistinct hlow
  have hclass : ∀ i ∈ definition.resourceClasses config, i.IsClass := by
    intro i hi
    obtain ⟨sheet, hdeclares⟩ := declares_of_mem_resourceClasses hi
    exact hdeclares.isClass hconfig (isName_of_ofDocument h)
  have hfiles : ((definition.resourceSheets config).map (·.path)).Pairwise
      fun a b => a.same b = false := by
    rw [map_path_resourceSheets, List.pairwise_map]
    rw [List.Nodup, List.pairwise_map] at hnodup
    refine hnodup.imp_of_mem fun {i j} hi hj hne => Bool.eq_false_iff.mpr fun hsame => hne ?_
    rw [(hclass i hi).eq_of_same (hclass j hj) hsame]
  refine ⟨hnodup, List.pairwise_map.mp hfiles, fun lookUp files hrendered => ?_⟩
  have hpaths := Except.map_of_mapM hrendered fun _ _ => Sheet.path_of_render
  rw [← hpaths] at hfiles
  exact List.pairwise_map.mp hfiles

/-- Resources whose names are close, with everything in one package. -/
theorem resource_files_apart_close :
    let config := { Launch.shop.config with implementationPackage := "org.shop.rest.resource" }
    let document : Document := .map [("paths", .map
      [("/order", .map [("get", .map [])]), ("/order-resource", .map [("get", .map [])]),
        ("/2fa", .map [("get", .map [])])])]
    ∃ definition, config.validate = .ok () ∧ ofDocument document = .ok definition ∧
      config.interfacePackage = config.implementationPackage ∧
      (definition.resourceClasses config).map (·.name) =
        ["OrderResource", "OrderResourceImpl", "OrderResourceResource",
          "OrderResourceResourceImpl", "_2faResource", "_2faResourceImpl"] ∧
      (definition.resourceSheets config).Pairwise fun a b => a.path.same b.path = false := by
  intro config document
  have hconfig : config.validate = .ok () := by decide +kernel
  have hread : (ofDocument document).toOption.map (fun definition =>
      (definition.resourceClasses config).map (·.name)) =
      some ["OrderResource", "OrderResourceImpl", "OrderResourceResource",
        "OrderResourceResourceImpl", "_2faResource", "_2faResourceImpl"] := by
    decide +kernel
  obtain ⟨definition, h, hnames⟩ := Except.exists_ok_of_map hread
  exact ⟨definition, hconfig, h, rfl, hnames, (resource_files_apart hconfig h).2.1⟩

end Definition

end RestModule
