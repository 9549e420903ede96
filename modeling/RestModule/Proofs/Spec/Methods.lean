import RestModule.Proofs.Spec.Uses

/-!
# The names of methods

A description names the method of an operation by its identifier, or else by its verb and its resource
(`Site.Names`). The methods of a resource take these names in order, each numbered as far as those
before it require, so that no two have one name (`Definition.methods_named`). -/

namespace RestModule

open List (Forall₂)

/-- The name that a description gives the method of an operation: that of its identifier, or that of
its verb and its resource if it has none. -/
inductive Site.Names (site : Site) : String → Prop where
  | identified {id : String} (hid : Document.textIn? "operationId" site.entries = some id)
      (hne : id ≠ "") : Names site (Naming.identifier id)
  | unidentified {verb : Verb} (hverb : verb.IsSpelled site.key)
      (hid : ∀ id, Document.textIn? "operationId" site.entries = some id → id = "") :
      Names site (verb.key ++ Naming.capitalize site.mention.resource)

/-- An operation has the names that it is to have at a site. -/
structure Site.NamesOperation (site : Site) (operation : Operation) : Prop where
  resource : operation.resource = site.mention.resource
  method : site.Names operation.method.name

/-- The methods of a resource have the names that the description gives them, each the first variant
that no method before it has. -/
structure Resource.NamesMethods (document : Document) (resource : Resource) (names : List String) :
    Prop where
  derived : Forall₂ Site.Names (document.sites.filter (·.mention.resource == resource.name)) names
  numbered : Naming.Numbers id [] names (resource.methods.map (·.name))
  kept : ∀ i name found, names[i]? = some name →
    (resource.methods.map (·.name))[i]? = some found →
    name ∉ (resource.methods.map (·.name)).take i → found = name
  distinct : (resource.methods.map (·.name)).Nodup

namespace Operation

variable {map : TypeMap} {shared : List (String × RawParameter)}

theorem names_methodName {site : Site} {verb : Verb} (hverb : verb.IsSpelled site.key) :
    site.Names (methodName site.mention.resource verb site.entries) := by
  unfold methodName
  split
  · next hnone => exact .unidentified hverb (by simp [hnone])
  · next hempty => exact .unidentified hverb (by simp [hempty])
  · next id hne hid => exact .identified hid hne

theorem names_of_isReadAs {site : Site} {operation : Operation}
    (h : site.IsReadAs map shared operation) : site.NamesOperation operation := by
  obtain ⟨item, verb, location, hitem, hverb, h⟩ := h
  obtain ⟨-, hresource, -⟩ := itemAt_ok hitem
  obtain ⟨hname, -, -, hmethod⟩ := head_of_ofEntries h
  refine ⟨hname.trans hresource, ?_⟩
  rw [hmethod, hresource]
  exact names_methodName hverb

end Operation

namespace Resource

theorem namesMethods_ofOperations {document : Document} {name : String}
    {operations : List Operation}
    (h : Forall₂ Site.Names (document.sites.filter (·.mention.resource == name))
      (operations.map (·.method.name))) :
    (ofOperations name operations).NamesMethods document (operations.map (·.method.name)) := by
  have hnumbered := Naming.numbers_distinctBy Naming.tellsVariants_id []
    (operations.map (·.method.name))
  have hdistinct := Naming.nodup_distinctBy Naming.tellsVariants_id .nil
    (operations.map (·.method.name))
  rw [← map_name_ofOperations name] at hnumbered hdistinct
  refine ⟨h, hnumbered, fun i own found hown hfound hfree => ?_, ?_⟩
  · have hfirst := hnumbered.firstFree i own found hown hfound
    exact hfirst.eq_of_not_mem (by simpa using hfree)
  · simpa using hdistinct

end Resource

namespace Definition

/-- The methods of every resource of an imported definition have names of their own. -/
theorem methods_named {document : Document} {definition : Definition}
    (h : ofDocument document = .ok definition) :
    ∀ resource ∈ definition.resources, ∃ names, resource.NamesMethods document names := by
  intro resource hresource
  obtain ⟨root, declarations, components, operations, rfl, -, -, hoperations, rfl⟩ :=
    ofDocument_eq_ok_iff.mp h
  obtain ⟨name, -, rfl⟩ := List.mem_map.mp hresource
  refine ⟨_, Resource.namesMethods_ofOperations ?_⟩
  have hnames := (isReadAs_operationsOf hoperations).imp fun _ _ => Operation.names_of_isReadAs
  have hresource := Operation.forall₂_filter_resource hnames (fun _ _ hsite => hsite.resource) name
  exact List.forall₂_map_right_iff.mpr (hresource.imp fun _ _ hsite => hsite.method)

/-- Operations of a resource under several paths, with identifiers that repeat, that look like a name
already given, that are empty or that are left out. -/
theorem methods_named_orders :
    let identified (id : String) : Document := .map [("operationId", .text id)]
    let document : Document := .map [("paths", .map
      [("/order", .map [("get", identified "find"), ("post", identified "find")]),
        ("/tag", .map [("get", identified "find")]),
        ("/order/\x7bid\x7d", .map
          [("get", identified "find_1"), ("put", .map []), ("delete", identified "")]),
        ("/order/\x7bid\x7d/note", .map
          [("PUT", .map []), ("get", identified "put-order"), ("post", identified "class")])])]
    ∃ definition, ofDocument document = .ok definition ∧
      definition.resources.map (·.methods.map (·.name)) =
        [["find", "find_1", "find_1_1", "putOrder", "deleteOrder", "putOrder_1", "putOrder_2",
            "_class"],
          ["find"]] ∧
      ∀ resource ∈ definition.resources, ∃ names, resource.NamesMethods document names := by
  intro identified document
  have hread : (ofDocument document).toOption.map (·.resources.map (·.methods.map (·.name))) =
      some [["find", "find_1", "find_1_1", "putOrder", "deleteOrder", "putOrder_1", "putOrder_2",
        "_class"], ["find"]] := by decide +kernel
  obtain ⟨definition, h, hnames⟩ := Except.exists_ok_of_map hread
  exact ⟨definition, h, hnames, methods_named h⟩

end Definition

end RestModule
