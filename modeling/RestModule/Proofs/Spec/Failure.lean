import RestModule.Proofs.Except
import RestModule.Spec.Import

/-!
# Failures of importing

Importing a description fails with one of three kinds of errors (`Definition.ofText_fails`), and so
does everything it is made of. None of these computations looks at the configuration, at templates
or at the place that is written to. -/

namespace RestModule

open RestModule.Except (Fails)

/-- The errors that importing a description may end with. -/
inductive Error.OfImport : Error → Prop where
  | malformed (location : String) (flaw : Flaw) : OfImport (.malformed location flaw)
  | unresolved (reference location : String) : OfImport (.unresolved reference location)
  | unknownType (token location : String) : OfImport (.unknownType token location)

/-! ## Documents -/

namespace Node

private theorem unreadable_ofImport : unreadable.OfImport := .malformed _ _

mutual

theorem document_fails (location : String) : ∀ node : Node,
    Fails Error.OfImport (node.document location)
  | null | bool _ | int _ | text _ => .ok _
  | float value => by
    unfold document
    split
    · exact .ok _
    · exact .error (.malformed _ _)
  | list items => (documents_fails location 0 items).map
  | map entries => (documentEntries_fails location [] entries).map
  | tagged _ node => document_fails location node
  | broken => .error unreadable_ofImport

theorem documents_fails (location : String) (index : Nat) : ∀ items : List Node,
    Fails Error.OfImport (documents location index items)
  | [] => .ok _
  | item :: rest => by
    unfold documents
    split
    · next e h => exact .error (document_fails _ item e h)
    · exact (documents_fails location (index + 1) rest).map

theorem documentEntries_fails (location : String) (seen : List String) :
    ∀ entries : List (Key × Node), Fails Error.OfImport (documentEntries location seen entries)
  | [] => .ok _
  | (key, value) :: rest => by
    unfold documentEntries
    split
    · exact .error unreadable_ofImport
    · next name _ =>
      dsimp only
      split
      · exact .error (.malformed _ _)
      · split
        · next e h => exact .error (document_fails _ value e h)
        · exact (documentEntries_fails location (name :: seen) rest).map

end

end Node

theorem Reading.document_fails (reading : Reading) : Fails Error.OfImport reading.document := by
  unfold Reading.document
  split
  · next e h => exact .error (Node.document_fails "" reading.node e h)
  · split
    · exact .error (.malformed _ _)
    · split
      · exact .error (.malformed _ _)
      · exact .ok _

namespace Document

theorem parse_fails (text : String) : Fails Error.OfImport (parse text) :=
  Reading.document_fails _

theorem entriesAt_fails (location : String) (document : Document) :
    Fails Error.OfImport (document.entriesAt location) := by
  unfold entriesAt
  split
  · exact .ok _
  · exact .error (.malformed _ _)

end Document

/-! ## Types -/

namespace TypeMap

theorem resolve_fails (map : TypeMap) (reference location : String) :
    Fails Error.OfImport (map.resolve reference location) := by
  unfold resolve
  split
  · split
    · exact .ok _
    · exact .error (.unresolved _ _)
  · exact .error (.unresolved _ _)

theorem javaType_fails (map : TypeMap) (location : String) : ∀ type : SchemaType,
    Fails Error.OfImport (map.javaType location type)
  | .mk token format items => by
    unfold javaType
    split
    · exact (map.resolve_fails token location).map
    · split
      · split
        · next items => exact (javaType_fails map location items).map
        · exact .error (.unknownType _ _)
      · split
        · exact .ok _
        · exact .error (.unknownType _ _)

theorem referenced?_fails (map : TypeMap) (location : String) : ∀ type : SchemaType,
    Fails Error.OfImport (map.referenced? location type)
  | .mk token format items => by
    unfold referenced?
    split
    · exact (map.resolve_fails token location).map
    · split
      · next items => exact referenced?_fails map location items
      · exact .ok _

theorem schemaBody_fails (map : TypeMap) (location : String) (schema : Document) :
    Fails Error.OfImport (map.schemaBody location schema) := by
  unfold schemaBody bodyOf
  split
  · exact (map.resolve_fails _ location).map
  · split
    · exact (map.resolve_fails _ location).map
    · exact .ok _

end TypeMap

namespace SchemaType

theorem keywordAt_fails (location : String) (entries : List (String × Document)) :
    Fails Error.OfImport (keywordAt location entries) := by
  unfold keywordAt
  split
  · exact .ok _
  · split
    · exact .ok _
    · exact .error (.malformed _ _)
  · exact .error (.malformed _ _)
  · exact .error (.malformed _ _)

mutual

theorem ofDocument_fails (location : String) : ∀ document : Document,
    Fails Error.OfImport (ofDocument location document)
  | .map entries => by
    unfold ofDocument
    split
    · exact .ok _
    · split
      · next e h => exact .error (keywordAt_fails location entries e h)
      · dsimp only
        split
        · split
          · exact .ok _
          · next e h => exact .error (itemsOf_fails location entries _ h e rfl)
          · exact .ok _
        · exact .ok _
  | .null | .bool _ | .int _ | .float _ | .text _ | .list _ => .error (.malformed _ _)

theorem itemsOf_fails (location : String) : ∀ (entries : List (String × Document)) result,
    itemsOf location entries = some result → Fails Error.OfImport result
  | [], _, h => by cases h
  | (key, value) :: rest, result, h => by
    unfold itemsOf at h
    split at h
    · cases h
      exact ofDocument_fails _ value
    · exact itemsOf_fails location rest result h

end

end SchemaType

namespace RawParameter

theorem ofEntries_fails (location : String) (entries : List (String × Document)) :
    Fails Error.OfImport (ofEntries location entries) := by
  have htype : Fails Error.OfImport (typeOf location entries) := by
    unfold typeOf
    split
    · exact SchemaType.ofDocument_fails _ _
    · exact .ok _
  unfold ofEntries
  split
  · exact .error (.malformed _ _)
  · exact .error (.malformed _ _)
  · exact htype.map

theorem ofDocument_fails (location : String) (document : Document) :
    Fails Error.OfImport (ofDocument location document) :=
  (document.entriesAt_fails location).bind (ofEntries_fails location)

end RawParameter

/-! ## Components -/

namespace Declarations

theorem propertiesOf_fails (location : String) (schema : Document) :
    Fails Error.OfImport (propertiesOf location schema) := by
  refine (schema.entriesAt_fails location).bind fun entries => ?_
  split
  · exact .ok _
  · refine (Document.entriesAt_fails _ _).bind fun properties => ?_
    exact .mapM (fun property => (SchemaType.ofDocument_fails _ property.2).map) properties

theorem ofEntries_fails (root : List (String × Document)) :
    Fails Error.OfImport (ofEntries root) := by
  have hschemas : ∀ entries, Fails Error.OfImport (schemasOf entries) := by
    intro entries
    unfold schemasOf
    split
    · exact .ok _
    · refine (Document.entriesAt_fails _ _).bind fun schemas => ?_
      exact .mapM (fun schema => (propertiesOf_fails _ schema.2).map) schemas
  have hparameters : ∀ schemas entries, Fails Error.OfImport (parametersOf schemas entries) := by
    intro schemas entries
    unfold parametersOf
    split
    · exact .ok _
    · refine (Document.entriesAt_fails _ _).bind fun parameters => ?_
      refine .mapM (fun parameter => ?_) parameters
      dsimp only
      split
      · exact .error (.malformed _ _)
      · exact (RawParameter.ofDocument_fails _ parameter.2).map
  unfold ofEntries
  split
  · exact .ok _
  · exact (Document.entriesAt_fails _ _).bind fun entries => (hschemas entries).bind fun schemas =>
      (hparameters _ entries).bind fun parameters => .ok _

theorem property_fails (map : TypeMap) (location name : String) (type : SchemaType) :
    Fails Error.OfImport (property map location name type) :=
  (map.javaType_fails location type).map

theorem components_fails (declarations : Declarations) :
    Fails Error.OfImport declarations.components := by
  have hschema : ∀ map name properties,
      Fails Error.OfImport (schemaComponent map name properties) :=
    fun map name properties => (Fails.mapM (fun _ => property_fails map _ _ _) properties).map
  refine (Fails.mapM (fun _ => hschema _ _ _) _).bind fun schemas => ?_
  exact (Fails.mapM (fun _ => (property_fails _ _ _ _).map) _).bind fun parameters => .ok _

end Declarations

/-! ## Operations -/

namespace Operation

theorem listedParameter_fails (shared : List (String × RawParameter)) (location : String)
    (document : Document) : Fails Error.OfImport (listedParameter shared location document) := by
  refine (document.entriesAt_fails location).bind fun entries => ?_
  split
  · split
    · exact .ok _
    · exact .error (.unresolved _ _)
  · exact RawParameter.ofEntries_fails location entries

theorem listedParameters_fails (shared : List (String × RawParameter)) (location : String)
    (index : Nat) (items : List Document) :
    Fails Error.OfImport (listedParameters shared location index items) := by
  induction items generalizing index with
  | nil => exact .ok _
  | cons item rest ih =>
    exact (listedParameter_fails shared _ item).bind fun first =>
      (ih (index + 1)).bind fun more => .ok _

theorem parametersOf_fails (shared : List (String × RawParameter)) (location : String)
    (entries : List (String × Document)) :
    Fails Error.OfImport (parametersOf shared location entries) := by
  unfold parametersOf
  dsimp only
  split
  · exact .ok _
  · exact listedParameters_fails shared _ 0 _
  · exact .error (.malformed _ _)

theorem placedParameters_fails (map : TypeMap) (location : String) (raws : List RawParameter) :
    Fails Error.OfImport (placedParameters map location raws) := by
  induction raws with
  | nil => exact .ok _
  | cons raw rest ih =>
    have hplaced : ∀ place, Fails Error.OfImport (placedParameter map location raw place) :=
      fun place => (map.javaType_fails _ raw.type).bind fun javaType =>
        (map.referenced?_fails _ raw.type).bind fun model => .ok _
    unfold placedParameters
    split
    · exact ih
    · exact (hplaced _).bind fun first => ih.bind fun more => .ok _

theorem bodyAt_fails (map : TypeMap) (location : String) (document : Document) :
    Fails Error.OfImport (bodyAt map location document) := by
  refine (document.entriesAt_fails location).bind fun entries => ?_
  split
  · exact .error (.unresolved _ _)
  · split
    · exact map.schemaBody_fails location _
    · exact .ok _

theorem requestOf_fails (map : TypeMap) (location : String) (entries : List (String × Document)) :
    Fails Error.OfImport (requestOf map location entries) := by
  unfold requestOf
  split
  · exact bodyAt_fails map _ _
  · exact .ok _

theorem responseOf_fails (map : TypeMap) (location : String) (entries : List (String × Document)) :
    Fails Error.OfImport (responseOf map location entries) := by
  unfold responseOf
  split
  · exact .ok _
  · refine (Document.entriesAt_fails _ _).bind fun responses => ?_
    split
    · exact bodyAt_fails map _ _
    · exact .ok _

theorem ofEntries_fails (map : TypeMap) (shared : List (String × RawParameter)) (item : PathItem)
    (verb : Verb) (location : String) (entries : List (String × Document)) :
    Fails Error.OfImport (ofEntries map shared item verb location entries) :=
  (parametersOf_fails shared location entries).bind fun _ =>
    (placedParameters_fails map location _).bind fun _ =>
      (requestOf_fails map location entries).bind fun _ =>
        (responseOf_fails map location entries).bind fun _ => .ok _

theorem itemAt_fails (shared : List (String × RawParameter)) (path : String) (document : Document) :
    Fails Error.OfImport (itemAt shared path document) := by
  refine (document.entriesAt_fails _).bind fun entries => ?_
  split
  · exact .error (.malformed _ _)
  · exact (parametersOf_fails shared _ entries).bind fun parameters => .ok _

theorem ofPaths_fails (map : TypeMap) (shared : List (String × RawParameter))
    (paths : List (String × Document)) : Fails Error.OfImport (ofPaths map shared paths) := by
  refine (Fails.mapM (fun path => ?_) paths).map
  refine (itemAt_fails shared path.1 path.2).bind fun item => .mapM (fun operation => ?_) _
  exact (Document.entriesAt_fails _ _).bind fun entries =>
    ofEntries_fails map shared item.1 operation.1 _ entries

end Operation

namespace Definition

theorem ofDocument_fails (document : Document) : Fails Error.OfImport (ofDocument document) := by
  refine (document.entriesAt_fails _).bind fun root => ?_
  refine (Declarations.ofEntries_fails root).bind fun declarations => ?_
  refine declarations.components_fails.bind fun components => ?_
  have hoperations : Fails Error.OfImport (operationsOf declarations root) := by
    unfold operationsOf
    split
    · exact .ok _
    · exact (Document.entriesAt_fails _ _).bind fun entries => Operation.ofPaths_fails _ _ entries
  exact hoperations.bind fun operations => .ok _

/-- Importing a description ends with an error of importing, if with any. -/
theorem ofText_fails (text : String) : Fails Error.OfImport (ofText text) :=
  (Document.parse_fails text).bind ofDocument_fails

end Definition

end RestModule
