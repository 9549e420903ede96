import RestModule.Proofs.Spec.Acceptance
import RestModule.Proofs.Spec.Larger
import Mathlib.Data.List.InsertIdx

/-!
# Adding a schema

A description to which a schema with a name of its own is added is imported as before, with one more
component in the place of the schema (`Definition.with_schema`): all that was resolved against the
schemas is resolved alike against the larger set of them. -/

namespace RestModule

open Document (MappingUnder under)
open List (Forall₂)

/-! ## Descriptions with one more schema -/

namespace Document

/-- Entries with those of the mapping under a key edited. A missing mapping is put last. -/
def editUnder (key : String) (edit : List (String × Document) → List (String × Document)) :
    List (String × Document) → List (String × Document)
  | [] => [(key, .map (edit []))]
  | (first, document) :: rest =>
    if key == first then (first, .map (edit (document.entries?.getD []))) :: rest
    else (first, document) :: editUnder key edit rest

/-- The entries of a description with one more schema, which is put into the given place. -/
def withSchema (place : Nat) (name : String) (schema : Document)
    (root : List (String × Document)) : List (String × Document) :=
  editUnder "components" (editUnder "schemas" (·.insertIdx place (name, schema))) root

variable {key other : String} {edit : List (String × Document) → List (String × Document)}

theorem lookup_editUnder (key : String) (edit : List (String × Document) → List (String × Document))
    (entries : List (String × Document)) :
    (editUnder key edit entries).lookup key = some (.map (edit (under key entries))) := by
  induction entries with
  | nil => simp [editUnder, under]
  | cons entry rest ih =>
    obtain ⟨first, document⟩ := entry
    rw [editUnder]
    cases hkey : key == first with
    | true => simp [under, List.lookup_cons, hkey]
    | false => simpa [under, List.lookup_cons, hkey] using ih

theorem lookup_editUnder_of_ne (h : other ≠ key) (entries : List (String × Document)) :
    (editUnder key edit entries).lookup other = entries.lookup other := by
  induction entries with
  | nil => simp [editUnder, List.lookup_cons, beq_false_of_ne h]
  | cons entry rest ih =>
    obtain ⟨first, document⟩ := entry
    rw [editUnder]
    cases hkey : key == first with
    | true =>
      have hother : (other == first) = false := beq_false_of_ne (eq_of_beq hkey ▸ h)
      simp [List.lookup_cons, hother]
    | false => rw [if_neg (by simp), List.lookup_cons, List.lookup_cons, ih]

theorem under_editUnder (key : String) (edit : List (String × Document) → List (String × Document))
    (entries : List (String × Document)) :
    under key (editUnder key edit entries) = edit (under key entries) := by
  rw [under, lookup_editUnder]
  rfl

theorem under_editUnder_of_ne (h : other ≠ key) (entries : List (String × Document)) :
    under other (editUnder key edit entries) = under other entries := by
  rw [under, under, lookup_editUnder_of_ne h]

theorem mappingUnder_editUnder (key : String)
    (edit : List (String × Document) → List (String × Document))
    (entries : List (String × Document)) : MappingUnder key (editUnder key edit entries) := by
  intro document h
  rw [lookup_editUnder] at h
  exact ⟨_, (Option.some.inj h).symm⟩

variable (place : Nat) (name : String) (schema : Document) (root : List (String × Document))

theorem lookup_withSchema (h : key ≠ "components") :
    (withSchema place name schema root).lookup key = root.lookup key :=
  lookup_editUnder_of_ne h root

theorem schemas_withSchema : Grammar.schemas (withSchema place name schema root) =
    (Grammar.schemas root).insertIdx place (name, schema) := by
  rw [Grammar.schemas, withSchema, under_editUnder, under_editUnder]
  rfl

theorem parameters_withSchema :
    Grammar.parameters (withSchema place name schema root) = Grammar.parameters root := by
  rw [Grammar.parameters, withSchema, under_editUnder, under_editUnder_of_ne (by decide)]
  rfl

end Document

/-! ## Declarations -/

private theorem forall₂_insertIdx {α β : Type} {R : α → β → Prop} {xs : List α} {ys : List β}
    {x : α} {y : β} (h : Forall₂ R xs ys) (hnew : R x y) (place : Nat) :
    Forall₂ R (xs.insertIdx place x) (ys.insertIdx place y) := by
  induction h generalizing place with
  | nil =>
    cases place with
    | zero => exact .cons hnew .nil
    | succ place => exact .nil
  | cons hfirst hrest ih =>
    cases place with
    | zero => exact .cons hnew (.cons hfirst hrest)
    | succ place => exact .cons hfirst (ih place)

private theorem mapM_insertIdx {α β : Type} {f : α → Except Error β} {xs : List α} {ys : List β}
    {x : α} {y : β} (h : xs.mapM f = .ok ys) (hnew : f x = .ok y) (place : Nat) :
    (xs.insertIdx place x).mapM f = .ok (ys.insertIdx place y) :=
  Except.mapM_eq_ok_iff.mpr (forall₂_insertIdx (Except.mapM_ok h) hnew place)

private theorem insertIdx_append {α : Type} {xs : List α} {place : Nat} (h : place ≤ xs.length)
    (x : α) (ys : List α) : (xs ++ ys).insertIdx place x = xs.insertIdx place x ++ ys := by
  induction xs generalizing place with
  | nil =>
    rw [Nat.le_zero.mp h]
    rfl
  | cons first rest ih =>
    cases place with
    | zero => rfl
    | succ place => exact congrArg (first :: ·) (ih (Nat.le_of_succ_le_succ h))

namespace Declarations

variable {root : List (String × Document)} {declarations : Declarations} {name : String}
  {schema : Document} {properties : List (String × SchemaType)} {place : Nat}

/-- The declarations with those of one more schema. -/
def withSchema (declarations : Declarations) (place : Nat) (name : String)
    (properties : List (String × SchemaType)) : Declarations :=
  { declarations with schemas := declarations.schemas.insertIdx place (name, properties) }

theorem MadeBy.addition (h : MadeBy root declarations)
    (hfresh : name ∉ declarations.parameters.map (·.1)) (hschema : PropertiesOf schema properties)
    (place : Nat) :
    MadeBy (Document.withSchema place name schema root)
      (declarations.withSchema place name properties) where
  components := Document.mappingUnder_editUnder _ _ _
  schemasUnder := by
    rw [Document.withSchema, Document.under_editUnder]
    exact Document.mappingUnder_editUnder _ _ _
  parametersUnder := by
    intro document hdocument
    rw [Document.withSchema, Document.under_editUnder,
      Document.lookup_editUnder_of_ne (by decide)] at hdocument
    exact h.parametersUnder document hdocument
  schemas := by
    rw [Document.schemas_withSchema]
    exact forall₂_insertIdx h.schemas ⟨rfl, hschema⟩ place
  parameters := by
    rw [Document.parameters_withSchema]
    exact h.parameters
  names := by
    rw [Document.parameters_withSchema, Document.schemas_withSchema, List.map_insertIdx]
    intro parameter hparameter hmem
    rcases List.eq_or_mem_of_mem_insertIdx hmem with heq | hmem
    · rw [h.parameters.keys_eq] at hfresh
      obtain rfl : parameter.1 = name := heq
      exact hfresh (List.mem_map_of_mem hparameter)
    · exact h.names parameter hparameter hmem

theorem schemas_subset_withSchema (declarations : Declarations) (place : Nat) (name : String)
    (properties : List (String × SchemaType)) :
    declarations.typeMap.schemas ⊆ (declarations.withSchema place name properties).typeMap.schemas :=
  List.map_subset _ (List.subset_insertIdx _ _ _)

theorem components_withSchema {components : List Component} {component : Component}
    (h : declarations.components = .ok components) (hplace : place ≤ declarations.schemas.length)
    (hcomponent : schemaComponent (declarations.withSchema place name properties).typeMap name
      properties = .ok component) :
    (declarations.withSchema place name properties).components =
      .ok (components.insertIdx place component) := by
  have hsubset := declarations.schemas_subset_withSchema place name properties
  generalize hmap : (declarations.withSchema place name properties).typeMap = larger
    at hsubset hcomponent
  obtain ⟨schemas, hschemas, h⟩ := Except.bind_ok h
  obtain ⟨parameters, hparameters, h⟩ := Except.bind_ok h
  cases h
  have hread : (declarations.schemas.mapM fun entry =>
      schemaComponent larger entry.1 entry.2) = .ok schemas :=
    Except.Refines.mapM (fun _ => schemaComponent_refines hsubset _ _) _ _ hschemas
  have hread' : (declarations.parameters.mapM fun entry =>
      parameterComponent larger entry.1 entry.2) = .ok parameters :=
    Except.Refines.mapM (fun _ => parameterComponent_refines hsubset _ _) _ _ hparameters
  have hlength : place ≤ schemas.length := (Except.mapM_ok hread).length_eq ▸ hplace
  rw [insertIdx_append hlength, Declarations.components, hmap]
  have hlarger := mapM_insertIdx (x := (name, properties)) hread hcomponent place
  exact Except.bind_eq_ok_iff.mpr ⟨_, hlarger, Except.bind_eq_ok_iff.mpr ⟨_, hread', rfl⟩⟩

end Declarations

/-- A component holds the properties of a schema, with the Java types that a type map gives them. -/
structure Component.Holds (map : TypeMap) (name : String) (entries : List (String × Document))
    (component : Component) : Prop where
  name : component.name = name
  kind : component.isParameter = false
  properties : Forall₂ (fun entry property => property.name = entry.1 ∧
      entry.2.Describes property.type ∧ map.Types property.type property.javaType)
    (under "properties" entries) component.properties

/-- What follows the grammar of schemas is made a component. -/
theorem Grammar.IsSchema.exists_component {root entries : List (String × Document)}
    (h : IsSchema root entries) (name : String) :
    ∃ properties component, Declarations.PropertiesOf (.map entries) properties ∧
      Declarations.schemaComponent (typeMap root) name properties = .ok component ∧
        component.Holds (typeMap root) name entries := by
  obtain ⟨typed, htyped, htypes⟩ := (Keyed.exists_iff
    (R := fun (document : Document) (typed : SchemaType × String) =>
      document.Describes typed.1 ∧ (typeMap root).Types typed.1 typed.2)
    (p := fun typed => (typeMap root).Types typed.1 typed.2)).mpr fun entry hentry => by
      obtain ⟨type, htype, javaType, hjavaType⟩ := h.types entry hentry
      exact ⟨(type, javaType), ⟨htype, hjavaType⟩, hjavaType⟩
  let property (entry : String × SchemaType × String) : Property :=
    { name := entry.1, type := entry.2.1, javaType := entry.2.2 }
  refine ⟨typed.map fun entry => (entry.1, entry.2.1),
    { name, isParameter := false, properties := typed.map property }, ⟨entries, rfl, h.properties, ?_⟩,
    ?_, ⟨rfl, rfl, ?_⟩⟩
  · exact List.forall₂_map_right_iff.mpr (htyped.imp fun _ _ ⟨hkey, htype, _⟩ => ⟨hkey, htype⟩)
  · refine Except.map_eq_ok_iff.mpr ⟨_, Except.mapM_eq_ok_iff.mpr ?_, rfl⟩
    refine List.forall₂_map_left_iff.mpr (List.forall₂_map_right_iff.mpr ?_)
    refine List.forall₂_same.mpr fun entry hentry => ?_
    exact Except.map_eq_ok_iff.mpr ⟨_, htypes entry hentry _, rfl⟩
  · refine List.forall₂_map_right_iff.mpr (htyped.imp ?_)
    rintro entry other ⟨hkey, htype, hjavaType⟩
    exact ⟨hkey.symm, htype, hjavaType⟩

/-! ## Definitions -/

namespace Definition

theorem operationsOf_withSchema {declarations : Declarations} {root : List (String × Document)}
    {operations : List Operation} (h : operationsOf declarations root = .ok operations)
    (place : Nat) (name : String) (schema : Document) (properties : List (String × SchemaType)) :
    operationsOf (declarations.withSchema place name properties)
      (Document.withSchema place name schema root) = .ok operations := by
  have hsubset := declarations.schemas_subset_withSchema place name properties
  unfold operationsOf at h ⊢
  rw [Document.lookup_withSchema place name schema root (by decide)]
  cases hpaths : root.lookup "paths" with
  | none =>
    rw [hpaths] at h
    exact h
  | some paths =>
    rw [hpaths] at h
    have hrefines : Except.Refines
        (paths.entriesAt "paths" >>= Operation.ofPaths declarations.typeMap declarations.parameters)
        (paths.entriesAt "paths" >>=
          Operation.ofPaths (declarations.withSchema place name properties).typeMap
            declarations.parameters) :=
      .bind (.refl _) fun entries => Operation.ofPaths_refines hsubset entries
    exact hrefines operations h

/-- A schema with a name of its own and known types may be added to a description anywhere among
its schemas. The definition gains the component of the schema in that place and stays as it is
otherwise. -/
theorem with_schema {root entries : List (String × Document)} {definition : Definition}
    {name : String} {place : Nat} (h : ofDocument (.map root) = .ok definition)
    (hplace : place ≤ (Grammar.schemas root).length)
    (hname : name ∉ definition.components.map (·.name))
    (hschema : Grammar.IsSchema (Document.withSchema place name (.map entries) root) entries) :
    ∃ component,
      component.Holds (Grammar.typeMap (Document.withSchema place name (.map entries) root)) name
        entries ∧
      ofDocument (.map (Document.withSchema place name (.map entries) root)) =
        .ok { definition with components := definition.components.insertIdx place component } := by
  obtain ⟨_, declarations, components, operations, ⟨⟩, hdeclarations, hcomponents, hoperations,
    rfl⟩ := ofDocument_eq_ok_iff.mp h
  obtain ⟨hnames, -⟩ := Declarations.components_ok hcomponents
  have hmade := Declarations.ofEntries_eq_ok_iff.mp hdeclarations
  obtain ⟨properties, component, hproperties, hcomponent, hholds⟩ := hschema.exists_component name
  have hfresh : name ∉ declarations.parameters.map (·.1) := by
    intro hmem
    rw [hnames] at hname
    exact hname (List.mem_append_right _ hmem)
  have hlarger := hmade.addition hfresh hproperties place
  rw [← hlarger.typeMap_eq] at hcomponent
  have hlength : place ≤ declarations.schemas.length := hmade.schemas.length_eq ▸ hplace
  have hread := Declarations.components_withSchema hcomponents hlength hcomponent
  have hread' := operationsOf_withSchema hoperations place name (.map entries) properties
  have hversion : versionOf (Document.withSchema place name (.map entries) root) =
      versionOf root := by
    rw [versionOf, versionOf, Document.lookup_withSchema place name _ root (by decide)]
  refine ⟨component, hholds, ofDocument_eq_ok_iff.mpr ⟨_, _, _, operations, rfl,
    Declarations.ofEntries_eq_ok_iff.mpr hlarger, hread, hread', ?_⟩⟩
  rw [hversion]

/-- A schema that refers to itself and to another one, between two others. -/
theorem with_schema_line :
    let reference (name : String) : Document := .map [("$ref", .text (schemaReference ++ name))]
    let root : List (String × Document) :=
      [("components", .map
        [("parameters", .map [("page", .map [("name", .text "page"), ("in", .text "query")])]),
          ("schemas", .map [("order", .map []), ("product", .map [])])]),
        ("paths", .map [("/orders", .map [("get", .map [])])])]
    let line : List (String × Document) :=
      [("properties", .map [("next", reference "line"), ("order", reference "order")])]
    ∃ definition component, ofDocument (.map root) = .ok definition ∧
      definition.components.map (·.name) = ["order", "product", "page"] ∧
      component.Holds (Grammar.typeMap (Document.withSchema 1 "line" (.map line) root)) "line"
        line ∧
      ofDocument (.map (Document.withSchema 1 "line" (.map line) root)) =
        .ok { definition with components := definition.components.insertIdx 1 component } := by
  intro reference root line
  have hread : (ofDocument (.map root)).toOption.map
      (fun definition => definition.components.map (·.name)) =
      some ["order", "product", "page"] := by
    decide +kernel
  obtain ⟨definition, h, hnames⟩ := Except.exists_ok_of_map hread
  have htypes : ∀ location,
      (Grammar.typeMap (Document.withSchema 1 "line" (.map line) root)).javaType location
          (.ofToken (schemaReference ++ "line")) = .ok "LineDTO" ∧
        (Grammar.typeMap (Document.withSchema 1 "line" (.map line) root)).javaType location
          (.ofToken (schemaReference ++ "order")) = .ok "OrderDTO" := by
    intro location
    exact ⟨rfl, rfl⟩
  have hline : Grammar.IsSchema (Document.withSchema 1 "line" (.map line) root) line := by
    refine ⟨fun document hdocument => ⟨_, (Option.some.inj hdocument).symm⟩, ?_⟩
    intro property hproperty
    have hcases : property = ("next", reference "line") ∨ property = ("order", reference "order") := by
      simpa [Document.under, line, List.lookup_cons, Document.entries?] using hproperty
    rcases hcases with rfl | rfl
    · exact ⟨_, .reference rfl, _, fun location => (htypes location).1⟩
    · exact ⟨_, .reference rfl, _, fun location => (htypes location).2⟩
  have hfresh : "line" ∉ definition.components.map (·.name) := by
    rw [hnames]
    decide
  have hplace : 1 ≤ (Grammar.schemas root).length := by decide
  obtain ⟨component, hholds, hlarger⟩ := with_schema h hplace hfresh hline
  exact ⟨definition, component, h, hnames, hholds, hlarger⟩

end Definition

end RestModule
