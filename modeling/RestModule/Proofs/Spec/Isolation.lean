import RestModule.Proofs.Run.Sheets
import RestModule.Proofs.Spec.Mention

/-!
# Resources on their own

A resource depends on its own paths alone. The description from which the paths of all other
resources have been taken out is imported too, as a definition that differs from the full one in the
missing resources only (`Definition.isolated_resource`). -/

namespace RestModule

/-! ## Descriptions with the paths of one resource -/

namespace Document

/-- The paths that belong to a resource. -/
def keepPaths (name : String) : Document → Document
  | .map paths => .map (paths.filter fun path => Operation.resourceName path.1 == name)
  | document => document

/-- The entries of a description without the paths of other resources. -/
def isolatedEntries (name : String) (root : List (String × Document)) : List (String × Document) :=
  root.map fun entry => (entry.1, if entry.1 = "paths" then entry.2.keepPaths name else entry.2)

/-- A description without the paths of other resources. -/
def isolated (name : String) : Document → Document
  | .map root => .map (isolatedEntries name root)
  | document => document

theorem lookup_isolatedEntries (name key : String) (root : List (String × Document)) :
    (isolatedEntries name root).lookup key =
      (root.lookup key).map fun document =>
        if key = "paths" then document.keepPaths name else document := by
  induction root with
  | nil => rfl
  | cons entry rest ih =>
    obtain ⟨first, document⟩ := entry
    simp only [isolatedEntries, List.map_cons, List.lookup_cons] at ih ⊢
    by_cases hkey : key = first
    · simp [hkey]
    · simp only [beq_false_of_ne hkey, ih]

theorem lookup_isolatedEntries_of_ne {key : String} (h : key ≠ "paths") (name : String)
    (root : List (String × Document)) :
    (isolatedEntries name root).lookup key = root.lookup key := by
  simp [lookup_isolatedEntries, h]

end Document

/-! ## Operations of one resource -/

namespace Operation

variable {map : TypeMap} {shared : List (String × RawParameter)}

theorem resource_of_ofItem {path : String} {document : Document} {operations : List Operation}
    (h : ofItem map shared path document = .ok operations) :
    ∀ operation ∈ operations, operation.resource = resourceName path := by
  obtain ⟨⟨item, entries⟩, hitem, hread⟩ := Except.bind_ok h
  intro operation hmem
  obtain ⟨entry, -, hoperation⟩ := Except.exists_of_mem_mapM hread hmem
  rw [resource_of_ofDocument hoperation]
  exact (itemAt_ok hitem).2.1

/-- The items of the paths of a resource have its operations among those of all items. -/
theorem exists_kept {paths : List (String × Document)} {results : List (List Operation)}
    (h : List.Forall₂ (fun path operations => ofItem map shared path.1 path.2 = .ok operations)
      paths results) (name : String) :
    ∃ kept, List.Forall₂ (fun path operations => ofItem map shared path.1 path.2 = .ok operations)
        (paths.filter fun path => resourceName path.1 == name) kept ∧
      kept.flatten = results.flatten.filter (·.resource == name) := by
  induction h with
  | nil => exact ⟨[], .nil, rfl⟩
  | @cons path first _ _ hfirst _ ih =>
    obtain ⟨kept, hkept, hflatten⟩ := ih
    have hresource := resource_of_ofItem hfirst
    rw [List.flatten_cons, List.filter_append, ← hflatten, List.filter_cons]
    split
    · next hname =>
      have hall : first.filter (·.resource == name) = first := by
        apply List.filter_eq_self.mpr
        intro operation hmem
        rw [hresource operation hmem]
        exact hname
      refine ⟨first :: kept, .cons hfirst hkept, ?_⟩
      rw [hall, List.flatten_cons]
    · next hname =>
      have hnone : first.filter (·.resource == name) = [] := by
        apply List.filter_eq_nil_iff.mpr
        intro operation hmem
        rw [hresource operation hmem]
        exact hname
      refine ⟨kept, hkept, ?_⟩
      rw [hnone, List.nil_append]

theorem ofPaths_filter {paths : List (String × Document)} {operations : List Operation}
    (h : ofPaths map shared paths = .ok operations) (name : String) :
    ofPaths map shared (paths.filter fun path => resourceName path.1 == name) =
      .ok (operations.filter (·.resource == name)) := by
  obtain ⟨results, hresults, rfl⟩ := Except.map_ok h
  obtain ⟨kept, hkept, hflatten⟩ := exists_kept (Except.mapM_ok hresults) name
  exact Except.map_eq_ok_iff.mpr ⟨kept, Except.mapM_eq_ok_iff.mpr hkept, hflatten⟩

end Operation

theorem Definition.operationsOf_isolated {declarations : Declarations}
    {root : List (String × Document)} {operations : List Operation}
    (h : operationsOf declarations root = .ok operations) (name : String) :
    operationsOf declarations (Document.isolatedEntries name root) =
      .ok (operations.filter (·.resource == name)) := by
  unfold operationsOf at h ⊢
  rw [Document.lookup_isolatedEntries]
  cases hpaths : root.lookup "paths" with
  | none =>
    rw [hpaths] at h
    cases h
    rfl
  | some document =>
    rw [hpaths] at h
    obtain ⟨paths, hdocument, h⟩ := Except.bind_ok h
    rw [Document.entriesAt_eq_ok_iff.mp hdocument]
    exact Operation.ofPaths_filter h name

/-! ## The group of one resource -/

theorem addNames_of_subset {names more : List String} (h : ∀ name ∈ more, name ∈ names) :
    addNames names more = names := by
  induction more with
  | nil => rfl
  | cons name rest ih =>
    obtain ⟨hname, hrest⟩ := List.forall_mem_cons.mp h
    rw [addNames, List.foldl_cons, addName, if_pos hname]
    exact ih hrest

theorem addNames_of_forall_eq {names : List String} {name : String} (hne : names ≠ [])
    (h : ∀ other ∈ names, other = name) : addNames [] names = [name] := by
  cases names with
  | nil => exact absurd rfl hne
  | cons first rest =>
    obtain ⟨rfl, hrest⟩ := List.forall_mem_cons.mp h
    exact addNames_of_subset fun other hother => List.mem_singleton.mpr (hrest other hother)

namespace Resource

theorem group_filter {operations : List Operation} {resource : Resource}
    (h : resource ∈ group operations) :
    group (operations.filter (·.resource == resource.name)) = [resource] := by
  obtain ⟨name, hname, rfl⟩ := List.mem_map.mp h
  change group (operations.filter (·.resource == name)) = _
  have hmentioned : name ∈ operations.map (·.resource) := by simpa using hname
  obtain ⟨operation, hmem, hoperation⟩ := List.mem_map.mp hmentioned
  have hkept : operation ∈ operations.filter (·.resource == name) :=
    List.mem_filter.mpr ⟨hmem, beq_iff_eq.mpr hoperation⟩
  have hnames : addNames [] ((operations.filter (·.resource == name)).map (·.resource)) =
      [name] := by
    apply addNames_of_forall_eq
    · exact List.ne_nil_of_mem (List.mem_map_of_mem hkept)
    · intro other hother
      obtain ⟨operation, hmem, rfl⟩ := List.mem_map.mp hother
      exact beq_iff_eq.mp (List.mem_filter.mp hmem).2
  rw [group, hnames, List.map_singleton, List.filter_filter]
  simp

/-- There is one resource of a name. -/
theorem filter_group {operations : List Operation} {resource : Resource}
    (h : resource ∈ group operations) :
    (group operations).filter (·.name == resource.name) = [resource] := by
  obtain ⟨name, hname, rfl⟩ := List.mem_map.mp h
  have hcount : (addNames [] (operations.map (·.resource))).count name = 1 := by
    rw [(nodup_addNames .nil _).count, if_pos hname]
  rw [group, List.filter_map]
  change ((addNames [] (operations.map (·.resource))).filter (· == name)).map _ = _
  rw [List.filter_beq, hcount]
  rfl

end Resource

/-! ## Definitions of one resource -/

/-- The files of a resource, its interface and its implementation. -/
def Launch.resourceFiles (launch : Launch) (definition : Definition) (name : String) :
    Except Error (List Rendered) :=
  ((definition.resources.filter (·.name == name)).flatMap fun resource =>
    [Sheet.interface launch.config definition.version resource,
      Sheet.implementation launch.config definition.version resource]).mapM launch.rendered

namespace Definition

theorem ofDocument_isolated {document : Document} {definition : Definition} {resource : Resource}
    (h : ofDocument document = .ok definition) (hresource : resource ∈ definition.resources) :
    ofDocument (document.isolated resource.name) =
        .ok { definition with resources := [resource] } ∧
      definition.resources.filter (·.name == resource.name) = [resource] := by
  obtain ⟨root, hroot, hread⟩ := Except.bind_ok h
  obtain ⟨declarations, hdeclarations, hread⟩ := Except.bind_ok hread
  obtain ⟨components, hcomponents, hread⟩ := Except.bind_ok hread
  obtain ⟨operations, hoperations, hread⟩ := Except.bind_ok hread
  cases hread
  have hversion : versionOf (Document.isolatedEntries resource.name root) = versionOf root := by
    rw [versionOf, Document.lookup_isolatedEntries_of_ne (by decide), versionOf]
  have hsame : Declarations.ofEntries (Document.isolatedEntries resource.name root) =
      .ok declarations := by
    rw [← hdeclarations, Declarations.ofEntries,
      Document.lookup_isolatedEntries_of_ne (by decide), Declarations.ofEntries]
  rw [Document.entriesAt_eq_ok_iff.mp hroot]
  refine ⟨?_, Resource.filter_group hresource⟩
  refine Except.bind_eq_ok_iff.mpr ⟨_, rfl, Except.bind_eq_ok_iff.mpr ⟨_, hsame,
    Except.bind_eq_ok_iff.mpr ⟨_, hcomponents, Except.bind_eq_ok_iff.mpr
      ⟨_, operationsOf_isolated hoperations resource.name, ?_⟩⟩⟩⟩
  rw [hversion, Resource.group_filter hresource]

/-- A resource does not depend on the paths of others: without them it is the same, and so are its
files. -/
theorem isolated_resource {document : Document} {definition : Definition} {resource : Resource}
    (h : ofDocument document = .ok definition) (hresource : resource ∈ definition.resources) :
    ∃ alone, ofDocument (document.isolated resource.name) = .ok alone ∧
      alone = { definition with resources := [resource] } ∧
      ∀ launch : Launch, launch.resourceFiles alone resource.name =
        launch.resourceFiles definition resource.name := by
  obtain ⟨halone, hfilter⟩ := ofDocument_isolated h hresource
  refine ⟨_, halone, rfl, fun launch => ?_⟩
  rw [Launch.resourceFiles, Launch.resourceFiles, hfilter, List.filter_cons_of_pos (by simp),
    List.filter_nil]

/-- Two resources whose operations all have one name. -/
theorem isolated_resource_listed :
    let document : Document := .map [("paths", .map
      [("/order", .map [("get", .map [("operationId", .text "list")])]),
        ("/item", .map [("get", .map [("operationId", .text "list")])]),
        ("/order/all", .map [("get", .map [("operationId", .text "list")])])])]
    ∃ definition resource, ofDocument document = .ok definition ∧
      resource ∈ definition.resources ∧
      (resource.name, resource.methods.map (·.name)) = ("order", ["list", "list_1"]) ∧
      ∃ alone, ofDocument (document.isolated resource.name) = .ok alone ∧
        alone = { definition with resources := [resource] } ∧
        ∀ launch : Launch, launch.resourceFiles alone resource.name =
          launch.resourceFiles definition resource.name := by
  intro document
  have hread : (ofDocument document).toOption.map (fun definition =>
      definition.resources.head?.map fun resource =>
        (resource.name, resource.methods.map (·.name))) =
      some (some ("order", ["list", "list_1"])) := by
    decide +kernel
  obtain ⟨definition, h⟩ := Except.exists_ok_of_isSome (x := ofDocument document)
    (by rw [← Option.isSome_map, hread]; rfl)
  rw [h] at hread
  obtain ⟨resource, hhead, hnames⟩ := Option.map_eq_some_iff.mp (Option.some.inj hread)
  have hresource : resource ∈ definition.resources := List.mem_of_mem_head? hhead
  exact ⟨definition, resource, h, hresource, hnames, isolated_resource h hresource⟩

end Definition

end RestModule
