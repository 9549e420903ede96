import RestModule.Proofs.Naming.Distinct
import RestModule.Proofs.Spec.Acceptance
import RestModule.Proofs.Spec.Names

/-!
# The operations that a description mentions

A description mentions an operation wherever a key of a path item spells a verb. The resources of an
imported definition are these mentions grouped by the first segment of their paths
(`Definition.resources_group_mentions`). -/

namespace RestModule

/-! ## Keys -/

/-- A key spells a verb, whatever the case of its letters. -/
def Verb.IsSpelled (verb : Verb) (key : String) : Prop :=
  key.toLower = verb.key

theorem Verb.ofKey?_eq_some_iff {key : String} {verb : Verb} :
    Verb.ofKey? key = some verb ↔ verb.IsSpelled key := by
  have hlower : Text.asciiLower key = key.toLower := by
    apply String.toList_injective
    rw [Text.asciiLower, String.toList_ofList]
    exact String.toList_map.symm
  have hfind : ∀ verb : Verb, Verb.all.find? (·.key == verb.key) = some verb := by
    intro verb
    cases verb <;> rfl
  rw [Verb.ofKey?, hlower, Verb.IsSpelled]
  constructor
  · intro h
    have hkey := List.find?_some h
    exact (eq_of_beq hkey).symm
  · intro h
    rw [h, hfind]

namespace Operation

/-- The resource that a path belongs to. -/
def resourceName (path : String) : String :=
  Naming.camelCase (firstSegment path)

end Operation

/-! ## Mentions -/

/-- An operation where a description mentions it: the path of its item, and its key there. -/
structure Mention where
  path : String
  key : String

namespace Mention

/-- The resource that a mention belongs to. -/
def resource (mention : Mention) : String :=
  Operation.resourceName mention.path

/-- A method does what a mention asks for. -/
structure Answers (mention : Mention) (method : Method) : Prop where
  verb : method.verb.IsSpelled mention.key
  relativePath : method.relativePath = "/" ++ Operation.belowSegment mention.path

/-- The operation that is read where a mention stands. -/
structure Reads (mention : Mention) (operation : Operation) : Prop where
  resource : operation.resource = mention.resource
  method : mention.Answers operation.method

/-- The mentions in a path item: its keys that spell a verb, in order. -/
def ofItem (path : String) (item : Document) : List Mention :=
  ((item.entries?.getD []).filter fun entry => entry.1.toLower ∈ Verb.all.map Verb.key).map
    fun entry => ⟨path, entry.1⟩

end Mention

/-- The operations that a description mentions, in order. -/
def Document.mentions (document : Document) : List Mention :=
  (Document.under "paths" (document.entries?.getD [])).flatMap fun item =>
    Mention.ofItem item.1 item.2

/-! ## Sites -/

/-- A place where a description declares an operation: the path of the item and its entries, the key
of the operation there and the entries of the operation. -/
structure Site where
  path : String
  item : List (String × Document)
  key : String
  entries : List (String × Document)

namespace Site

/-- The mention of the operation. -/
def mention (site : Site) : Mention := ⟨site.path, site.key⟩

/-- The sites in a path item: its keys that spell a verb, in order. -/
def ofItem (path : String) (item : Document) : List Site :=
  ((item.entries?.getD []).filter fun entry => entry.1.toLower ∈ Verb.all.map Verb.key).map
    fun entry => ⟨path, item.entries?.getD [], entry.1, entry.2.entries?.getD []⟩

end Site

/-- The operations that a description declares, in order. -/
def Document.sites (document : Document) : List Site :=
  (Document.under "paths" (document.entries?.getD [])).flatMap fun item =>
    Site.ofItem item.1 item.2

theorem Document.map_mention_sites (document : Document) :
    document.sites.map Site.mention = document.mentions := by
  rw [sites, mentions, List.map_flatMap]
  refine congrArg (List.flatMap · _) (funext fun item => ?_)
  rw [Site.ofItem, Mention.ofItem, List.map_map]
  rfl

/-- An operation is what the entries at a site are read as. -/
def Site.IsReadAs (map : TypeMap) (shared : List (String × RawParameter)) (site : Site)
    (operation : Operation) : Prop :=
  ∃ item verb location, Operation.itemAt shared site.path (.map site.item) = .ok (item, site.item) ∧
    verb.IsSpelled site.key ∧
    Operation.ofEntries map shared item verb location site.entries = .ok operation

namespace Operation

variable {map : TypeMap} {shared : List (String × RawParameter)}

/-- The entries of a path item whose key spells a verb. -/
theorem filter_spelled (entries : List (String × Document)) :
    (entries.filter fun entry => entry.1.toLower ∈ Verb.all.map Verb.key) =
      (verbEntries entries).map (·.2) := by
  have hverb : ∀ key : String,
      key.toLower ∈ Verb.all.map Verb.key ↔ (Verb.ofKey? key).isSome = true := by
    intro key
    rw [Option.isSome_iff_exists, List.mem_map]
    constructor
    · rintro ⟨verb, -, h⟩
      exact ⟨verb, Verb.ofKey?_eq_some_iff.mpr h.symm⟩
    · rintro ⟨verb, h⟩
      exact ⟨verb, by cases verb <;> decide, (Verb.ofKey?_eq_some_iff.mp h).symm⟩
  simp only [verbEntries]
  induction entries with
  | nil => rfl
  | cons entry rest ih =>
    obtain ⟨key, document⟩ := entry
    simp only [List.filter_cons, List.filterMap_cons, hverb] at ih ⊢
    cases Verb.ofKey? key with
    | none => exact ih
    | some verb => exact congrArg (_ :: ·) ih

/-- What `itemAt` makes of a path item. -/
theorem itemAt_ok {path : String} {document : Document} {item : PathItem}
    {entries : List (String × Document)} (h : itemAt shared path document = .ok (item, entries)) :
    document = .map entries ∧ item.resource = Naming.camelCase (firstSegment path) ∧
      item.relativePath = "/" ++ belowSegment path := by
  obtain ⟨hdocument, hsplit, -⟩ := itemAt_parts h
  exact ⟨hdocument, (splitPath?_eq_some_iff.mp hsplit).2⟩

theorem isReadAs_ofItem {path : String} {document : Document} {operations : List Operation}
    (h : ofItem map shared path document = .ok operations) :
    List.Forall₂ (Site.IsReadAs map shared) (Site.ofItem path document) operations := by
  obtain ⟨⟨item, entries⟩, hitem, hread⟩ := Except.bind_ok h
  obtain ⟨rfl, -, -⟩ := itemAt_ok hitem
  simp only [Site.ofItem, Document.entries?, Option.getD_some, filter_spelled, List.map_map]
  rw [List.forall₂_map_left_iff]
  have hspelled : ∀ entry ∈ verbEntries entries, entry.1.IsSpelled entry.2.1 := fun entry hentry =>
    Verb.ofKey?_eq_some_iff.mp (mem_verbEntries_iff.mp hentry).2
  refine ((List.forall₂_and_left _ _).mpr ⟨hspelled, Except.mapM_ok hread⟩).imp ?_
  rintro ⟨verb, key, document⟩ operation ⟨hverb, hoperation⟩
  obtain ⟨inner, hinner, hoperation⟩ := Except.bind_ok hoperation
  obtain rfl := Document.entriesAt_eq_ok_iff.mp hinner
  exact ⟨item, verb, _, hitem, hverb, hoperation⟩

theorem isReadAs_ofPaths {paths : List (String × Document)} {operations : List Operation}
    (h : ofPaths map shared paths = .ok operations) :
    List.Forall₂ (Site.IsReadAs map shared) (paths.flatMap fun path => Site.ofItem path.1 path.2)
      operations := by
  obtain ⟨results, hresults, rfl⟩ := Except.map_ok h
  rw [List.flatMap]
  apply List.rel_flatten
  rw [List.forall₂_map_left_iff]
  exact (Except.mapM_ok hresults).imp fun _ _ => isReadAs_ofItem

theorem reads_of_isReadAs {site : Site} {operation : Operation}
    (h : site.IsReadAs map shared operation) : site.mention.Reads operation := by
  obtain ⟨item, verb, location, hitem, hspelled, h⟩ := h
  obtain ⟨-, hresource, hrelative⟩ := itemAt_ok hitem
  obtain ⟨hown, hverb, hpath, -⟩ := head_of_ofEntries h
  refine ⟨hown.trans hresource, ?_, hpath.trans hrelative⟩
  rw [hverb]
  exact hspelled

end Operation

namespace Definition

variable {declarations : Declarations} {root : List (String × Document)}
  {operations : List Operation}

theorem isReadAs_operationsOf (h : operationsOf declarations root = .ok operations) :
    List.Forall₂ (Site.IsReadAs declarations.typeMap declarations.parameters)
      (Document.sites (.map root)) operations := by
  have hread := (Document.readUnder_eq_ok_iff (fun document hlookup => by rw [operationsOf, hlookup])
    (fun hlookup => by rw [operationsOf, hlookup]; rfl)).mp h
  exact Operation.isReadAs_ofPaths hread.2

theorem reads_operationsOf (h : operationsOf declarations root = .ok operations) :
    List.Forall₂ Mention.Reads (Document.mentions (.map root)) operations := by
  rw [← Document.map_mention_sites, List.forall₂_map_left_iff]
  exact (isReadAs_operationsOf h).imp fun _ _ => Operation.reads_of_isReadAs

end Definition

/-! ## Groups -/

/-- What is paired with operations stays so among the operations of one resource. -/
theorem Operation.forall₂_filter_resource {α : Type} {R : α → Operation → Prop}
    {resource : α → String} {places : List α} {operations : List Operation}
    (h : List.Forall₂ R places operations)
    (hresource : ∀ place operation, R place operation → operation.resource = resource place)
    (name : String) :
    List.Forall₂ R (places.filter (resource · == name)) (operations.filter (·.resource == name)) := by
  refine List.rel_filter (fun place operation hplace => ?_) h
  change (resource place == name) = true ↔ (operation.resource == name) = true
  rw [hresource place operation hplace]

namespace Resource

/-- Resources are the mentions of a description, grouped by the resource they belong to. -/
structure Group (mentions : List Mention) (resources : List Resource) : Prop where
  distinct : (resources.map (·.name)).Nodup
  /-- The resource that is mentioned first comes first. -/
  ordered : resources.Pairwise fun a b =>
    mentions.findIdx (·.resource == a.name) < mentions.findIdx (·.resource == b.name)
  nonempty : ∀ resource ∈ resources, resource.methods ≠ []
  /-- The methods of a resource answer its mentions one by one. -/
  methods : ∀ resource ∈ resources, List.Forall₂ Mention.Answers
    (mentions.filter (·.resource == resource.name)) resource.methods
  complete : ∀ mention ∈ mentions, ∃ resource ∈ resources, resource.name = mention.resource

/-- What is paired with operations whatever their methods are called is paired with the methods of
their resource. -/
theorem forall₂_ofOperations {α : Type} {R : α → Method → Prop} {places : List α}
    {operations : List Operation}
    (h : List.Forall₂ (fun place operation => ∀ name, R place { operation.method with name })
      places operations) (name : String) :
    List.Forall₂ R places (ofOperations name operations).methods := by
  have hlength : (Naming.distinctBy id [] ((operations.map (·.method)).map (·.name))).length =
      operations.length := by
    rw [Naming.length_distinctBy, List.length_map, List.length_map]
  rw [ofOperations]
  revert hlength
  generalize Naming.distinctBy id [] ((operations.map (·.method)).map (·.name)) = names
  intro hlength
  induction h generalizing names with
  | nil => exact .nil
  | cons hfirst _ ih =>
    cases names with
    | nil => cases hlength
    | cons name rest => exact .cons (hfirst name) (ih rest (Nat.succ.inj hlength))

theorem map_name_ofOperations (name : String) (operations : List Operation) :
    (ofOperations name operations).methods.map (·.name) =
      Naming.distinctBy id [] (operations.map (·.method.name)) := by
  rw [ofOperations, Naming.map_zipWith_names (fun _ _ => rfl) (by simp [Naming.length_distinctBy]),
    List.map_map]
  rfl

theorem answers_ofOperations {mentions : List Mention} {operations : List Operation}
    (h : List.Forall₂ Mention.Reads mentions operations) (name : String) :
    List.Forall₂ Mention.Answers mentions (ofOperations name operations).methods := by
  refine forall₂_ofOperations (h.imp fun mention operation hreads name => ?_) name
  exact ⟨hreads.method.verb, hreads.method.relativePath⟩

theorem answers_group {mentions : List Mention} {operations : List Operation}
    (h : List.Forall₂ Mention.Reads mentions operations) {resource : Resource}
    (hresource : resource ∈ group operations) :
    List.Forall₂ Mention.Answers (mentions.filter (·.resource == resource.name))
      resource.methods := by
  obtain ⟨name, -, rfl⟩ := List.mem_map.mp hresource
  apply answers_ofOperations
  exact Operation.forall₂_filter_resource h (fun _ _ hreads => hreads.resource) name

theorem names_group {mentions : List Mention} {operations : List Operation}
    (h : List.Forall₂ Mention.Reads mentions operations) :
    (group operations).map (·.name) = addNames [] (mentions.map (·.resource)) := by
  have hnames : List.Forall₂ (· = ·) (operations.map (·.resource)) (mentions.map (·.resource)) :=
    List.forall₂_map_left_iff.mpr <| List.forall₂_map_right_iff.mpr <|
      List.Forall₂.flip (h.imp fun _ _ hreads => hreads.resource)
  rw [List.forall₂_eq_eq_eq] at hnames
  rw [group, hnames, List.map_map]
  exact List.map_id _

theorem group_of_reads {mentions : List Mention} {operations : List Operation}
    (h : List.Forall₂ Mention.Reads mentions operations) : Group mentions (group operations) := by
  have hnames := names_group h
  have hmem : ∀ name, name ∈ (group operations).map (·.name) ↔
      ∃ mention ∈ mentions, mention.resource = name := by
    intro name
    rw [hnames]
    simp
  constructor
  case distinct =>
    rw [hnames]
    exact nodup_addNames .nil _
  case ordered =>
    have hordered := pairwise_idxOf_addNames (mentions.map (·.resource))
    rw [← hnames, List.pairwise_map] at hordered
    simpa only [List.idxOf, List.findIdx_map, Function.comp_def] using hordered
  case nonempty =>
    intro resource hresource hempty
    obtain ⟨mention, hmention, hname⟩ := (hmem _).mp (List.mem_map_of_mem hresource)
    have hanswers := answers_group h hresource
    rw [hempty, List.forall₂_nil_right_iff, List.filter_eq_nil_iff] at hanswers
    exact hanswers mention hmention (by simpa using hname)
  case methods =>
    intro resource hresource
    exact answers_group h hresource
  case complete =>
    intro mention hmention
    exact List.mem_map.mp ((hmem _).mpr ⟨mention, hmention, rfl⟩)

end Resource

namespace Definition

/-- The resources of an imported definition group the operations that its document mentions: none
is lost, doubled or moved. -/
theorem resources_group_mentions {document : Document} {definition : Definition}
    (h : ofDocument document = .ok definition) :
    Resource.Group document.mentions definition.resources := by
  obtain ⟨root, hroot, h⟩ := Except.bind_ok h
  obtain ⟨declarations, -, h⟩ := Except.bind_ok h
  obtain ⟨components, -, h⟩ := Except.bind_ok h
  obtain ⟨operations, hoperations, h⟩ := Except.bind_ok h
  cases h
  rw [Document.entriesAt_eq_ok_iff.mp hroot]
  exact Resource.group_of_reads (reads_operationsOf hoperations)

/-- A resource whose paths are scattered through the description and spelled differently. -/
theorem resources_group_mentions_scattered :
    let document : Document := .map [("paths", .map
      [("/product-option/\x7bid\x7d", .map [("summary", .text "one"), ("GET", .map [])]),
        ("//order", .map [("post", .map []), ("Patch", .map [])]),
        ("/\x7bproductOption\x7d", .map [("delete", .map [])])])]
    ∃ definition, ofDocument document = .ok definition ∧
      document.mentions.map (fun mention => (mention.resource, mention.key)) =
        [("productOption", "GET"), ("order", "post"), ("order", "Patch"),
          ("productOption", "delete")] ∧
      Resource.Group document.mentions definition.resources := by
  intro document
  have hread : (ofDocument document).toOption.isSome = true := by decide +kernel
  obtain ⟨definition, h⟩ := Except.exists_ok_of_isSome hread
  exact ⟨definition, h, by decide +kernel, resources_group_mentions h⟩

end Definition

end RestModule
