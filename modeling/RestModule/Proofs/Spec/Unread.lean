import RestModule.Proofs.Spec.Mention

/-!
# Entries that are not read

Every mapping of a description has keys that count there; entries under other keys may be anything. A
description is imported as the one that is left when all entries of the second kind are taken out,
however deep they lie (`Definition.ofDocument_known`), so two descriptions that differ in nothing else
have one result (`Definition.unread_entries_ignored`). -/

namespace RestModule

/-! ## Parts of a description -/

/-- What a document is in a description. -/
inductive Part where
  | description
  | info
  | components
  | schemas
  | schema
  | properties
  /-- The schema of a property, a parameter or the items of such a schema. -/
  | type
  | sharedParameters
  | sharedParameter
  | paths
  | item
  /-- The list of parameters of a path item or operation. -/
  | parameters
  /-- A parameter in a list, which may be a reference. -/
  | parameter
  | operation
  | responses
  /-- A request body or a response. -/
  | body
  | content
  | media
  | bodySchema
  | bodyItems
  /-- A text, a number or a list of texts; if it is a mapping, none of its keys counts. -/
  | value
  deriving DecidableEq

namespace Part

/-- The keys that count in a parameter, whether or not it may be a reference. -/
def parameterKeys : List (String × Part) :=
  [("name", value), ("in", value), ("required", value), ("schema", type)]

/-- What the value of a key is in a mapping; none if the key does not count there. -/
def entry? : Part → String → Option Part
  | description, key =>
    [("info", info), ("components", components), ("paths", paths)].lookup key
  | info, key => [("version", value)].lookup key
  | components, key => [("schemas", schemas), ("parameters", sharedParameters)].lookup key
  | schemas, _ => some schema
  | schema, key => [("properties", properties)].lookup key
  | properties, _ => some type
  | type, key =>
    [("$ref", value), ("type", value), ("format", value), ("items", type)].lookup key
  | sharedParameters, _ => some sharedParameter
  | sharedParameter, key => parameterKeys.lookup key
  | paths, _ => some item
  | item, key =>
    if key.toLower ∈ Verb.all.map Verb.key then some operation
    else [("parameters", parameters)].lookup key
  | parameters, _ => none
  | parameter, key => (("$ref", value) :: parameterKeys).lookup key
  | operation, key =>
    [("operationId", value), ("parameters", parameters), ("requestBody", body),
      ("responses", responses)].lookup key
  | responses, _ => some body
  | body, key => [("$ref", value), ("content", content)].lookup key
  | content, _ => some media
  | media, key => [("schema", bodySchema)].lookup key
  | bodySchema, key => [("$ref", value), ("type", value), ("items", bodyItems)].lookup key
  | bodyItems, key => [("$ref", value)].lookup key
  | value, _ => none

/-- What the items of a list are. -/
def listed : Part → Part
  | parameters => parameter
  | _ => value

end Part

namespace Document

mutual

/-- A document without the entries that do not count in it. -/
def known (part : Part) : Document → Document
  | list items => list (knownItems part.listed items)
  | map entries => map (knownEntries part entries)
  | document => document

/-- The items of a list, each without the entries that do not count in it. -/
def knownItems (part : Part) : List Document → List Document
  | [] => []
  | item :: rest => item.known part :: knownItems part rest

/-- The entries of a mapping that count, their values without the entries that do not. -/
def knownEntries (part : Part) : List (String × Document) → List (String × Document)
  | [] => []
  | (key, value) :: rest =>
    match part.entry? key with
    | some inner => (key, value.known inner) :: knownEntries part rest
    | none => knownEntries part rest

end

variable {part inner : Part} {key : String}

@[simp]
theorem text?_known (document : Document) : (document.known part).text? = document.text? := by
  cases document <;> simp [known, text?]

@[simp]
theorem bool?_known (document : Document) : (document.known part).bool? = document.bool? := by
  cases document <;> simp [known, bool?]

@[simp]
theorem entries?_known (document : Document) :
    (document.known part).entries? = document.entries?.map (knownEntries part) := by
  cases document <;> simp [known, entries?]

theorem knownItems_eq_map (items : List Document) :
    knownItems part items = items.map (known part) := by
  induction items with
  | nil => rfl
  | cons item rest ih => rw [knownItems, ih, List.map_cons]

theorem entriesAt_known (location : String) (document : Document) :
    (document.known part).entriesAt location =
      (document.entriesAt location).map (knownEntries part) := by
  cases document <;> simp [known, entriesAt, Except.map]

/-- An entry that counts is still found, and nothing else is in its place. -/
theorem lookup_knownEntries (h : part.entry? key = some inner)
    (entries : List (String × Document)) :
    (knownEntries part entries).lookup key = (entries.lookup key).map (known inner) := by
  induction entries with
  | nil => rfl
  | cons entry rest ih =>
    obtain ⟨first, value⟩ := entry
    rw [knownEntries, List.lookup_cons]
    by_cases hkey : key = first
    · subst hkey
      simp [h]
    · split <;> simp [List.lookup_cons, beq_false_of_ne hkey, ih]

theorem textIn?_known (h : part.entry? key = some inner) (entries : List (String × Document)) :
    textIn? key (knownEntries part entries) = textIn? key entries := by
  rw [textIn?, lookup_knownEntries h, Option.bind_map, textIn?]
  exact congrArg _ (funext text?_known)

theorem get?_known (h : part.entry? key = some inner) (document : Document) :
    (document.known part).get? key = (document.get? key).map (known inner) := by
  cases document with
  | map entries =>
    simp only [known, get?]
    exact lookup_knownEntries h entries
  | _ => simp [known, get?]

theorem textAt?_known (h : part.entry? key = some inner) (document : Document) :
    (document.known part).textAt? key = document.textAt? key := by
  rw [textAt?, get?_known h, Option.bind_map, textAt?]
  exact congrArg _ (funext text?_known)

/-- A mapping in which all keys count keeps its entries. -/
theorem knownEntries_of_all (h : ∀ key, part.entry? key = some inner)
    (entries : List (String × Document)) :
    knownEntries part entries = entries.map fun entry => (entry.1, entry.2.known inner) := by
  induction entries with
  | nil => rfl
  | cons entry rest ih =>
    obtain ⟨key, value⟩ := entry
    simp only [knownEntries, h key, ih, List.map_cons]

/-- A reader of mappings that does not miss the other entries. -/
theorem read_known {β : Type} {read : List (String × Document) → Except Error β}
    (h : ∀ entries, read (knownEntries part entries) = read entries) (location : String)
    (document : Document) :
    (document.known part).entriesAt location >>= read = document.entriesAt location >>= read := by
  rw [entriesAt_known]
  cases document.entriesAt location with
  | error error => rfl
  | ok entries => exact h entries

/-- A reader of the entries of a mapping in which all keys count. -/
theorem mapM_known {β : Type} (hall : ∀ key, part.entry? key = some inner)
    {read : String × Document → Except Error β}
    (h : ∀ entry, read (entry.1, entry.2.known inner) = read entry)
    (entries : List (String × Document)) :
    (knownEntries part entries).mapM read = entries.mapM read := by
  rw [knownEntries_of_all hall, List.mapM_map]
  exact congrArg (List.mapM · entries) (funext h)

end Document

/-! ## Types and parameters -/

open Document (known knownItems knownEntries)

namespace SchemaType

theorem firstKeyword?_known (tokens : List Document) :
    firstKeyword? (knownItems .value tokens) = firstKeyword? tokens := by
  rw [firstKeyword?, Document.knownItems_eq_map, List.filterMap_map, firstKeyword?]
  exact congrArg (fun text => (tokens.filterMap text).find? _) (funext Document.text?_known)

theorem keywordAt_known (location : String) (entries : List (String × Document)) :
    keywordAt location (knownEntries .type entries) = keywordAt location entries := by
  have hkey : Part.type.entry? "type" = some .value := rfl
  rw [keywordAt, Document.lookup_knownEntries hkey, keywordAt]
  cases entries.lookup "type" with
  | none => rfl
  | some document =>
    cases document with
    | list tokens =>
      simp only [Option.map_some, known]
      rw [show Part.value.listed = .value from rfl, firstKeyword?_known]
    | _ => simp [known]

mutual

theorem ofDocument_known (location : String) : ∀ document : Document,
    ofDocument location (document.known .type) = ofDocument location document
  | .map entries => by
    have href : Part.type.entry? "$ref" = some .value := rfl
    have hformat : Part.type.entry? "format" = some .value := rfl
    simp only [known, ofDocument, Document.textIn?_known href, Document.textIn?_known hformat,
      keywordAt_known, itemsOf_known location entries]
  | .list _ | .null | .bool _ | .int _ | .float _ | .text _ => by simp only [known, ofDocument]

theorem itemsOf_known (location : String) : ∀ entries : List (String × Document),
    itemsOf location (knownEntries .type entries) = itemsOf location entries
  | [] => rfl
  | (key, value) :: rest => by
    by_cases hkey : "items" = key
    · subst hkey
      exact congrArg some (ofDocument_known (location ++ ".items") value)
    · have hskip : ∀ first : Document,
          itemsOf location ((key, first) :: rest) = itemsOf location rest := by
        intro first
        rw [itemsOf, beq_false_of_ne hkey]
        rfl
      rw [hskip, knownEntries]
      split
      · rw [itemsOf, beq_false_of_ne hkey]
        exact itemsOf_known location rest
      · exact itemsOf_known location rest

end

end SchemaType

namespace RawParameter

theorem ofEntries_known {part : Part}
    (h : ∀ key inner, Part.parameterKeys.lookup key = some inner → part.entry? key = some inner)
    (location : String) (entries : List (String × Document)) :
    ofEntries location (knownEntries part entries) = ofEntries location entries := by
  have htype : typeOf location (knownEntries part entries) = typeOf location entries := by
    rw [typeOf, Document.lookup_knownEntries (h "schema" .type rfl), typeOf]
    cases entries.lookup "schema" with
    | none => rfl
    | some schema => exact SchemaType.ofDocument_known _ schema
  have hrequired : ((knownEntries part entries).lookup "required").bind Document.bool? =
      (entries.lookup "required").bind Document.bool? := by
    rw [Document.lookup_knownEntries (h "required" .value rfl), Option.bind_map]
    exact congrArg _ (funext Document.bool?_known)
  rw [ofEntries, Document.textIn?_known (h "name" .value rfl), htype, hrequired, placeOf,
    Document.textIn?_known (h "in" .value rfl)]
  rfl

theorem ofDocument_known (location : String) (document : Document) :
    ofDocument location (document.known .sharedParameter) = ofDocument location document := by
  have hkeys : ∀ key inner, Part.parameterKeys.lookup key = some inner →
      Part.sharedParameter.entry? key = some inner := fun _ _ h => h
  exact Document.read_known (ofEntries_known hkeys location) location document

end RawParameter

/-! ## Components -/

namespace Declarations

theorem propertiesOf_known (location : String) (schema : Document) :
    propertiesOf location (schema.known .schema) = propertiesOf location schema := by
  have hkey : Part.schema.entry? "properties" = some .properties := rfl
  refine Document.read_known (fun entries => ?_) location schema
  rw [Document.lookup_knownEntries hkey]
  cases entries.lookup "properties" with
  | none => rfl
  | some properties =>
    refine Document.read_known (Document.mapM_known (fun _ => rfl) fun entry => ?_) _ properties
    exact congrArg (Except.map _) (SchemaType.ofDocument_known _ entry.2)

theorem schemasOf_known (components : List (String × Document)) :
    schemasOf (knownEntries .components components) = schemasOf components := by
  have hkey : Part.components.entry? "schemas" = some .schemas := rfl
  rw [schemasOf, Document.lookup_knownEntries hkey, schemasOf]
  cases components.lookup "schemas" with
  | none => rfl
  | some schemas =>
    refine Document.read_known (Document.mapM_known (fun _ => rfl) fun entry => ?_) _ schemas
    exact congrArg (Except.map _) (propertiesOf_known _ entry.2)

theorem parametersOf_known (schemas : List String) (components : List (String × Document)) :
    parametersOf schemas (knownEntries .components components) =
      parametersOf schemas components := by
  have hkey : Part.components.entry? "parameters" = some .sharedParameters := rfl
  rw [parametersOf, Document.lookup_knownEntries hkey, parametersOf]
  cases components.lookup "parameters" with
  | none => rfl
  | some parameters =>
    refine Document.read_known (Document.mapM_known (fun _ => rfl) fun entry => ?_) _ parameters
    dsimp only
    split
    · rfl
    · exact congrArg (Except.map _) (RawParameter.ofDocument_known _ entry.2)

theorem ofEntries_known (root : List (String × Document)) :
    ofEntries (knownEntries .description root) = ofEntries root := by
  have hkey : Part.description.entry? "components" = some .components := rfl
  rw [ofEntries, Document.lookup_knownEntries hkey, ofEntries]
  cases root.lookup "components" with
  | none => rfl
  | some components =>
    refine Document.read_known (fun entries => ?_) _ components
    rw [schemasOf_known]
    simp only [parametersOf_known]

end Declarations

/-! ## Operations -/

theorem TypeMap.schemaBody_known (map : TypeMap) (location : String) (schema : Document) :
    map.schemaBody location (schema.known .bodySchema) = map.schemaBody location schema := by
  have href : Part.bodySchema.entry? "$ref" = some .value := rfl
  have htype : Part.bodySchema.entry? "type" = some .value := rfl
  have hitems : ((schema.known .bodySchema).get? "items").bind (·.textAt? "$ref") =
      (schema.get? "items").bind (·.textAt? "$ref") := by
    have hkey : Part.bodySchema.entry? "items" = some .bodyItems := rfl
    have hitem : Part.bodyItems.entry? "$ref" = some .value := rfl
    rw [Document.get?_known hkey, Option.bind_map]
    exact congrArg _ (funext (Document.textAt?_known hitem))
  rw [schemaBody, Document.textAt?_known href, hitems, Document.textAt?_known htype, schemaBody]

namespace Operation

variable (map : TypeMap) (shared : List (String × RawParameter))

theorem listedParameter_known (location : String) (document : Document) :
    listedParameter shared location (document.known .parameter) =
      listedParameter shared location document := by
  have hkeys : ∀ key inner, Part.parameterKeys.lookup key = some inner →
      Part.parameter.entry? key = some inner := by
    intro key inner h
    have hkey : key ≠ "$ref" := by
      rintro rfl
      cases h
    rw [Part.entry?, List.lookup_cons, beq_false_of_ne hkey]
    exact h
  have href : Part.parameter.entry? "$ref" = some .value := rfl
  refine Document.read_known (fun entries => ?_) location document
  rw [Document.textIn?_known href]
  split
  · rfl
  · exact RawParameter.ofEntries_known hkeys location entries

theorem listedParameters_known (location : String) (index : Nat) (items : List Document) :
    listedParameters shared location index (knownItems .parameter items) =
      listedParameters shared location index items := by
  induction items generalizing index with
  | nil => rfl
  | cons item rest ih =>
    rw [knownItems, listedParameters, listedParameter_known, listedParameters]
    simp only [ih]

theorem parametersOf_known {part : Part} (h : part.entry? "parameters" = some .parameters)
    (location : String) (entries : List (String × Document)) :
    parametersOf shared location (knownEntries part entries) =
      parametersOf shared location entries := by
  rw [parametersOf, Document.lookup_knownEntries h, parametersOf]
  cases entries.lookup "parameters" with
  | none => rfl
  | some parameters =>
    cases parameters with
    | list items =>
      simp only [Option.map_some, known]
      exact listedParameters_known shared _ 0 items
    | _ => simp [known]

theorem contentSchema?_known (entries : List (String × Document)) :
    contentSchema? (knownEntries .body entries) =
      (contentSchema? entries).map (known .bodySchema) := by
  have hkey : Part.body.entry? "content" = some .content := rfl
  rw [contentSchema?, Document.lookup_knownEntries hkey, Option.bind_map,
    contentSchema?]
  cases entries.lookup "content" with
  | none => rfl
  | some content =>
    have hmedia : (known .content content).entries? =
        content.entries?.map fun entries => entries.map fun entry =>
          (entry.1, entry.2.known .media) := by
      rw [Document.entries?_known]
      exact congrArg (Option.map · _) (funext (Document.knownEntries_of_all fun _ => rfl))
    simp only [Option.bind_some, Function.comp_apply, hmedia]
    cases content.entries? with
    | none => rfl
    | some entries =>
      cases entries with
      | nil => rfl
      | cons first rest => exact Document.get?_known rfl first.2

theorem bodyAt_known (location : String) (document : Document) :
    bodyAt map location (document.known .body) = bodyAt map location document := by
  have href : Part.body.entry? "$ref" = some .value := rfl
  refine Document.read_known (fun entries => ?_) location document
  rw [Document.textIn?_known href, contentSchema?_known]
  cases contentSchema? entries with
  | none => rfl
  | some schema => simp only [Option.map_some, TypeMap.schemaBody_known]

theorem requestOf_known (location : String) (entries : List (String × Document)) :
    requestOf map location (knownEntries .operation entries) = requestOf map location entries := by
  have hkey : Part.operation.entry? "requestBody" = some .body := rfl
  rw [requestOf, Document.lookup_knownEntries hkey, requestOf]
  cases entries.lookup "requestBody" with
  | none => rfl
  | some body => exact bodyAt_known map _ body

theorem responseOf_known (location : String) (entries : List (String × Document)) :
    responseOf map location (knownEntries .operation entries) =
      responseOf map location entries := by
  have hkey : Part.operation.entry? "responses" = some .responses := rfl
  have hresponse : ∀ code, Part.responses.entry? code = some .body := fun _ => rfl
  rw [responseOf, Document.lookup_knownEntries hkey, responseOf]
  cases entries.lookup "responses" with
  | none => rfl
  | some responses =>
    refine Document.read_known (fun entries => ?_) _ responses
    have hfind : ∀ p : String × Document → Bool, (∀ entry, p entry = isSuccess entry.1) →
        (knownEntries .responses entries).find? p =
          (entries.find? p).map fun entry => (entry.1, entry.2.known .body) := by
      intro p hp
      rw [Document.knownEntries_of_all hresponse, List.find?_map]
      refine congrArg (fun q => (entries.find? q).map _) (funext fun entry => ?_)
      exact (hp _).trans (hp entry).symm
    rw [hfind _ fun _ => rfl]
    cases List.find? _ entries with
    | none => rfl
    | some response => exact bodyAt_known map _ response.2

theorem ofEntries_known (item : PathItem) (verb : Verb) (location : String)
    (entries : List (String × Document)) :
    ofEntries map shared item verb location (knownEntries .operation entries) =
      ofEntries map shared item verb location entries := by
  have hname : methodName item.resource verb (knownEntries .operation entries) =
      methodName item.resource verb entries := by
    have hkey : Part.operation.entry? "operationId" = some .value := rfl
    rw [methodName, Document.textIn?_known hkey, methodName]
  rw [ofEntries, parametersOf_known shared rfl, requestOf_known, responseOf_known, hname, ofEntries]

theorem ofDocument_known (item : PathItem) (verb : Verb) (key : String) (document : Document) :
    ofDocument map shared item verb key (document.known .operation) =
      ofDocument map shared item verb key document :=
  Document.read_known (ofEntries_known map shared item verb _) _ document

theorem entry?_of_ofKey? {key : String} {verb : Verb} (h : Verb.ofKey? key = some verb) :
    Part.item.entry? key = some .operation := by
  have hmem : key.toLower ∈ Verb.all.map Verb.key := by
    rw [Verb.ofKey?_eq_some_iff.mp h]
    cases verb <;> decide
  rw [Part.entry?, if_pos hmem]

/-- The operations of a path item are all among the entries that count. -/
theorem verbEntries_known (entries : List (String × Document)) :
    verbEntries (knownEntries .item entries) =
      (verbEntries entries).map fun entry => (entry.1, entry.2.1, entry.2.2.known .operation) := by
  induction entries with
  | nil => rfl
  | cons entry rest ih =>
    obtain ⟨key, document⟩ := entry
    rw [verbEntries] at ih ⊢
    cases hverb : Verb.ofKey? key with
    | some verb =>
      rw [knownEntries, entry?_of_ofKey? hverb]
      simp only [verbEntries, List.filterMap_cons, hverb, Option.map_some, List.map_cons, ih]
    | none =>
      have hskip : ∀ entries : List (String × Document), ∀ value,
          verbEntries ((key, value) :: entries) = verbEntries entries := by
        intro entries value
        simp only [verbEntries, List.filterMap_cons, hverb, Option.map_none]
      rw [hskip, knownEntries]
      split
      · exact (hskip _ _).trans ih
      · exact ih

theorem itemAt_known (path : String) (document : Document) :
    itemAt shared path (document.known .item) =
      (itemAt shared path document).map fun (item, entries) =>
        (item, knownEntries .item entries) := by
  have hkey : Part.item.entry? "parameters" = some .parameters := by decide +kernel
  rw [itemAt, itemAt, Document.entriesAt_known]
  cases document.entriesAt ("paths." ++ path) with
  | error error => rfl
  | ok entries =>
    simp only [Except.map, bind, Except.bind]
    cases splitPath? path with
    | none => rfl
    | some parts =>
      simp only [parametersOf_known shared hkey]
      cases parametersOf shared ("paths." ++ path) entries with
      | error error => rfl
      | ok parameters => rfl

theorem ofItem_known (path : String) (document : Document) :
    ofItem map shared path (document.known .item) = ofItem map shared path document := by
  rw [ofItem, itemAt_known, ofItem]
  cases itemAt shared path document with
  | error error => rfl
  | ok site =>
    obtain ⟨item, entries⟩ := site
    change (verbEntries (knownEntries .item entries)).mapM _ = (verbEntries entries).mapM _
    rw [verbEntries_known, List.mapM_map]
    exact congrArg (List.mapM · (verbEntries entries))
      (funext fun entry => ofDocument_known map shared item entry.1 entry.2.1 entry.2.2)

theorem ofPaths_known (paths : List (String × Document)) :
    ofPaths map shared (knownEntries .paths paths) = ofPaths map shared paths := by
  have hall : ∀ path, Part.paths.entry? path = some .item := fun _ => rfl
  rw [ofPaths, Document.mapM_known hall fun entry => ofItem_known map shared entry.1 entry.2, ofPaths]

end Operation

/-! ## Descriptions -/

namespace Definition

theorem versionOf_known (root : List (String × Document)) :
    versionOf (knownEntries .description root) = versionOf root := by
  have hinfo : Part.description.entry? "info" = some .info := rfl
  have hversion : Part.info.entry? "version" = some .value := rfl
  have hread : ((knownEntries .description root).lookup "info").bind (·.get? "version") =
      ((root.lookup "info").bind (·.get? "version")).map (known .value) := by
    rw [Document.lookup_knownEntries hinfo, Option.bind_map, Option.map_bind]
    exact congrArg _ (funext (Document.get?_known hversion))
  rw [versionOf, hread, versionOf]
  cases (root.lookup "info").bind (·.get? "version") with
  | none => rfl
  | some version => cases version <;> simp only [Option.map_some, known]

theorem operationsOf_known (declarations : Declarations) (root : List (String × Document)) :
    operationsOf declarations (knownEntries .description root) =
      operationsOf declarations root := by
  have hkey : Part.description.entry? "paths" = some .paths := rfl
  rw [operationsOf, Document.lookup_knownEntries hkey, operationsOf]
  cases root.lookup "paths" with
  | none => rfl
  | some paths => exact Document.read_known (Operation.ofPaths_known _ _) _ paths

theorem ofDocument_known (document : Document) :
    ofDocument (document.known .description) = ofDocument document := by
  refine Document.read_known (fun root => ?_) "document" document
  simp only [Declarations.ofEntries_known, operationsOf_known, versionOf_known]

/-- Two descriptions that are the same but for entries that do not count have one result. -/
theorem unread_entries_ignored {document other : Document}
    (h : document.known .description = other.known .description) :
    ofDocument document = ofDocument other :=
  calc ofDocument document
    _ = ofDocument (document.known .description) := (ofDocument_known document).symm
    _ = ofDocument (other.known .description) := congrArg ofDocument h
    _ = ofDocument other := ofDocument_known other

/-- A description with entries that do not count in between those that do, at several depths. -/
theorem unread_entries_ignored_catalog :
    let plain : Document := .map
      [("components", .map [("schemas", .map [("Order", .map [("properties", .map
          [("key", .map [("type", .text "string")])])])])]),
        ("paths", .map [("/order", .map [("GET", .map [("responses", .map
          [("200", .map [("content", .map [("application/json", .map
            [("schema", .map [("$ref", .text "#/components/schemas/Order")])])])])])])])])]
    let annotated : Document := .map
      [("openapi", .text "3.0.0"),
        ("components", .map
          [("responses", .list []),
            ("schemas", .map [("Order", .map [("type", .text "object"), ("properties", .map
              [("key", .map [("type", .text "string"), ("example", .map [("type", .null)])])])])])]),
        ("paths", .map [("/order", .map [("summary", .null), ("GET", .map
          [("deprecated", .bool true), ("responses", .map
            [("200", .map [("description", .text ""), ("content", .map [("application/json", .map
              [("example", .int 1), ("schema", .map
                [("$ref", .text "#/components/schemas/Order")])])])])]),
            ("tags", .list [])]),
          ("trace", .map [("parameters", .null)])])])]
    (∃ definition, ofDocument plain = .ok definition) ∧ ofDocument annotated = ofDocument plain := by
  intro plain annotated
  have hread : (ofDocument plain).toOption.isSome = true := by decide +kernel
  have hlower : "GET".toLower = "get" ∧ "summary".toLower = "summary" ∧
      "trace".toLower = "trace" := by decide +kernel
  have hknown : annotated.known .description = plain.known .description := by
    simp [annotated, plain, known, knownEntries, Part.entry?, List.lookup_cons, Verb.all, Verb.key,
      hlower]
  exact ⟨Except.exists_ok_of_isSome hread, unread_entries_ignored hknown⟩

end Definition

end RestModule
