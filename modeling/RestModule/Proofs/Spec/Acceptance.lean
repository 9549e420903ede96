import RestModule.Proofs.Spec.Path
import RestModule.Proofs.Spec.Schema

/-!
# Which descriptions are imported

A description is imported exactly if it follows the grammar (`Definition.imported_iff`). Components
and paths are treated in turn: what their readers make of them, as far as it matters later, and when
they make anything at all. -/

namespace RestModule

open Document (MappingUnder under textIn?)
open List (Forall₂)

theorem exists_of_mem_forall₂ {α β : Type} {R : α → β → Prop} {xs : List α} {ys : List β}
    (h : Forall₂ R xs ys) : ∀ y ∈ ys, ∃ x, R x y := by
  induction h with
  | nil => simp
  | cons hfirst _ ih => exact List.forall_mem_cons.mpr ⟨⟨_, hfirst⟩, ih⟩

/-! ## Components -/

namespace Declarations

/-- The properties that a schema declares. -/
def PropertiesOf (schema : Document) (properties : List (String × SchemaType)) : Prop :=
  ∃ entries, schema = .map entries ∧ MappingUnder "properties" entries ∧
    Keyed Document.Describes (under "properties" entries) properties

/-- The parameter that a document declares. -/
def ParameterOf (document : Document) (raw : RawParameter) : Prop :=
  ∃ entries, document = .map entries ∧ raw.DeclaredBy entries

/-- The declarations that a description makes. -/
structure MadeBy (root : List (String × Document)) (declarations : Declarations) : Prop where
  components : MappingUnder "components" root
  schemasUnder : MappingUnder "schemas" (under "components" root)
  parametersUnder : MappingUnder "parameters" (under "components" root)
  schemas : Keyed PropertiesOf (Grammar.schemas root) declarations.schemas
  parameters : Keyed ParameterOf (Grammar.parameters root) declarations.parameters
  names : ∀ parameter ∈ Grammar.parameters root, parameter.1 ∉ (Grammar.schemas root).map (·.1)

theorem propertiesOf_eq_ok_iff {location : String} {schema : Document}
    {properties : List (String × SchemaType)} :
    propertiesOf location schema = .ok properties ↔ PropertiesOf schema properties := by
  have hproperty : ∀ (entry : String × Document) (property : String × SchemaType),
      (SchemaType.ofDocument (location ++ ".properties" ++ "." ++ entry.1) entry.2).map
        (entry.1, ·) = .ok property ↔
          True ∧ entry.1 = property.1 ∧ entry.2.Describes property.2 := by
    rintro ⟨name, document⟩ ⟨key, type⟩
    simp [Except.map_eq_ok_iff, SchemaType.ofDocument_eq_ok_iff, and_comm]
  rw [propertiesOf, Except.bind_eq_ok_iff]
  refine exists_congr fun entries => and_congr Document.entriesAt_eq_ok_iff ?_
  rw [Document.readUnder_eq_ok_iff (fun document h => by rw [h]) (fun h => by rw [h]; rfl),
    Keyed.mapM_eq_ok_iff hproperty]
  simp

theorem schemasOf_eq_ok_iff {components : List (String × Document)}
    {schemas : List (String × List (String × SchemaType))} :
    schemasOf components = .ok schemas ↔ MappingUnder "schemas" components ∧
      Keyed PropertiesOf (under "schemas" components) schemas := by
  have hschema : ∀ (entry : String × Document) (schema : String × List (String × SchemaType)),
      (propertiesOf ("components.schemas." ++ entry.1) entry.2).map (entry.1, ·) = .ok schema ↔
        True ∧ entry.1 = schema.1 ∧ PropertiesOf entry.2 schema.2 := by
    rintro ⟨name, document⟩ ⟨key, properties⟩
    simp [Except.map_eq_ok_iff, propertiesOf_eq_ok_iff, and_comm]
  rw [Document.readUnder_eq_ok_iff (fun document h => by rw [schemasOf, h])
    (fun h => by rw [schemasOf, h]; rfl), Keyed.mapM_eq_ok_iff hschema]
  simp

theorem parametersOf_eq_ok_iff {schemas : List String} {components : List (String × Document)}
    {parameters : List (String × RawParameter)} :
    parametersOf schemas components = .ok parameters ↔ MappingUnder "parameters" components ∧
      (∀ parameter ∈ under "parameters" components, parameter.1 ∉ schemas) ∧
        Keyed ParameterOf (under "parameters" components) parameters := by
  have hparameter : ∀ (entry : String × Document) (parameter : String × RawParameter),
      (if entry.1 ∈ schemas then
        .error (.malformed ("components.parameters." ++ entry.1) .namedLikeSchema)
      else (RawParameter.ofDocument ("components.parameters." ++ entry.1) entry.2).map
        (entry.1, ·)) = .ok parameter ↔
          entry.1 ∉ schemas ∧ entry.1 = parameter.1 ∧ ParameterOf entry.2 parameter.2 := by
    rintro ⟨name, document⟩ ⟨key, raw⟩
    split
    · next hmem => simp [hmem]
    · next hmem =>
      simp [hmem, Except.map_eq_ok_iff, RawParameter.ofDocument_eq_ok_iff, ParameterOf, and_comm]
  rw [Document.readUnder_eq_ok_iff (fun document h => by rw [parametersOf, h])
    (fun h => by rw [parametersOf, h]; rfl), Keyed.mapM_eq_ok_iff hparameter]

theorem ofEntries_eq_ok_iff {root : List (String × Document)} {declarations : Declarations} :
    ofEntries root = .ok declarations ↔ MadeBy root declarations := by
  rw [Document.readUnder_eq_ok_iff (fun document h => by rw [ofEntries, h])
    (fun h => by rw [ofEntries, h]; rfl), Except.bind_eq_ok_iff]
  simp only [schemasOf_eq_ok_iff, Except.bind_eq_ok_iff, parametersOf_eq_ok_iff]
  constructor
  · rintro ⟨hcomponents, schemas, ⟨hunder, hschemas⟩, parameters, ⟨hunder', hnames, hparameters⟩, h⟩
    cases h
    rw [hschemas.keys_eq] at hnames
    exact ⟨hcomponents, hunder, hunder', hschemas, hparameters, hnames⟩
  · rintro ⟨hcomponents, hunder, hunder', hschemas, hparameters, hnames⟩
    refine ⟨hcomponents, _, ⟨hunder, hschemas⟩, _, ⟨hunder', ?_, hparameters⟩, rfl⟩
    rw [hschemas.keys_eq]
    exact hnames

namespace MadeBy

variable {root : List (String × Document)} {declarations : Declarations}

theorem typeMap_eq (h : MadeBy root declarations) : declarations.typeMap = Grammar.typeMap root :=
  congrArg TypeMap.mk h.schemas.keys_eq

/-- The shared parameters are found by their names. -/
theorem lookup_eq_some_iff (h : MadeBy root declarations) {name : String} {raw : RawParameter} :
    declarations.parameters.lookup name = some raw ↔
      ∃ declared, (Grammar.parameters root).lookup name = some (.map declared) ∧
        raw.DeclaredBy declared := by
  have hlookup := h.parameters.lookup name
  constructor
  · intro hraw
    rw [hraw] at hlookup
    generalize hdocument : (Grammar.parameters root).lookup name = found at hlookup
    cases hlookup with
    | some hvalue =>
      obtain ⟨declared, rfl, hdeclared⟩ := hvalue
      exact ⟨declared, rfl, hdeclared⟩
  · rintro ⟨declared, hdocument, hdeclared⟩
    rw [hdocument] at hlookup
    generalize hraw : declarations.parameters.lookup name = found at hlookup
    cases hlookup with
    | some hvalue =>
      obtain ⟨entries, heq, hother⟩ := hvalue
      cases heq
      rw [hother.unique hdeclared]

end MadeBy

/-- Components are made of declarations if the types in them are known. -/
theorem exists_components_iff {declarations : Declarations} :
    (∃ components, declarations.components = .ok components) ↔
      (∀ schema ∈ declarations.schemas, ∀ property ∈ schema.2,
        declarations.typeMap.Knows property.2) ∧
      ∀ parameter ∈ declarations.parameters, declarations.typeMap.Knows parameter.2.type := by
  have hproperty : ∀ {location name : String} {type : SchemaType},
      (∃ result, property declarations.typeMap location name type = .ok result) ↔
        declarations.typeMap.Knows type :=
    Except.exists_map_ok_iff.trans TypeMap.exists_javaType_iff
  have hschemas : (∃ schemas, (declarations.schemas.mapM fun schema =>
      schemaComponent declarations.typeMap schema.1 schema.2) = .ok schemas) ↔
        ∀ schema ∈ declarations.schemas, ∀ property ∈ schema.2,
          declarations.typeMap.Knows property.2 := by
    refine Except.exists_mapM_ok_iff.trans (forall₂_congr fun schema _ => ?_)
    refine (Except.exists_map_ok_iff.trans Except.exists_mapM_ok_iff).trans ?_
    exact forall₂_congr fun property _ => hproperty
  have hparameters : (∃ parameters, (declarations.parameters.mapM fun parameter =>
      parameterComponent declarations.typeMap parameter.1 parameter.2) = .ok parameters) ↔
        ∀ parameter ∈ declarations.parameters,
          declarations.typeMap.Knows parameter.2.type := by
    refine Except.exists_mapM_ok_iff.trans (forall₂_congr fun parameter _ => ?_)
    exact Except.exists_map_ok_iff.trans hproperty
  rw [← hschemas, ← hparameters]
  constructor
  · rintro ⟨components, h⟩
    obtain ⟨schemas, hread, h⟩ := Except.bind_ok h
    obtain ⟨parameters, hread', -⟩ := Except.bind_ok h
    exact ⟨⟨schemas, hread⟩, parameters, hread'⟩
  · rintro ⟨⟨schemas, hread⟩, parameters, hread'⟩
    exact ⟨_, Except.bind_eq_ok_iff.mpr ⟨_, hread, Except.bind_eq_ok_iff.mpr ⟨_, hread', rfl⟩⟩⟩

theorem exists_propertiesOf_iff {root : List (String × Document)} {document : Document} :
    (∃ properties, PropertiesOf document properties ∧
      ∀ property ∈ properties, (Grammar.typeMap root).Knows property.2) ↔
        ∃ entries, document = .map entries ∧ Grammar.IsSchema root entries := by
  constructor
  · rintro ⟨properties, ⟨entries, rfl, hunder, hkeyed⟩, hknows⟩
    exact ⟨entries, rfl, hunder, Keyed.exists_iff.mp ⟨properties, hkeyed, hknows⟩⟩
  · rintro ⟨entries, rfl, hunder, htypes⟩
    obtain ⟨properties, hkeyed, hknows⟩ := Keyed.exists_iff.mpr htypes
    exact ⟨properties, ⟨entries, rfl, hunder, hkeyed⟩, hknows⟩

theorem exists_parameterOf_iff {root : List (String × Document)} {document : Document} :
    (∃ raw, ParameterOf document raw ∧ (Grammar.typeMap root).Knows raw.type) ↔
      ∃ entries, document = .map entries ∧ Grammar.IsShared root entries := by
  constructor
  · rintro ⟨raw, ⟨entries, rfl, hraw⟩, hknows⟩
    exact ⟨entries, rfl, raw, hraw, hknows⟩
  · rintro ⟨entries, rfl, raw, hraw, hknows⟩
    exact ⟨raw, ⟨entries, rfl, hraw⟩, hknows⟩

/-- The components of a description are read if they follow the grammar. -/
theorem exists_declared_iff {root : List (String × Document)} :
    (∃ declarations, ofEntries root = .ok declarations ∧
      ∃ components, declarations.components = .ok components) ↔ Grammar.Components root := by
  simp only [ofEntries_eq_ok_iff, exists_components_iff]
  constructor
  · rintro ⟨declarations, hmade, hschemas, hparameters⟩
    rw [hmade.typeMap_eq] at hschemas hparameters
    have hshared := (Keyed.exists_iff (p := fun raw => (Grammar.typeMap root).Knows raw.type)).mp
      ⟨_, hmade.parameters, hparameters⟩
    exact
      { components := hmade.components
        schemas := hmade.schemasUnder
        parameters := hmade.parametersUnder
        schema := fun schema hmem =>
          exists_propertiesOf_iff.mp (Keyed.exists_iff.mp ⟨_, hmade.schemas, hschemas⟩ schema hmem)
        parameter := fun parameter hmem =>
          ⟨hmade.names parameter hmem, exists_parameterOf_iff.mp (hshared parameter hmem)⟩ }
  · intro h
    obtain ⟨schemas, hschemas, hknows⟩ := Keyed.exists_iff.mpr fun schema hmem =>
      exists_propertiesOf_iff.mpr (h.schema schema hmem)
    obtain ⟨parameters, hparameters, hknows'⟩ := Keyed.exists_iff.mpr fun parameter hmem =>
      exists_parameterOf_iff.mpr (h.parameter parameter hmem).2
    have hmade : MadeBy root ⟨schemas, parameters⟩ :=
      ⟨h.components, h.schemas, h.parameters, hschemas, hparameters, fun parameter hmem =>
        (h.parameter parameter hmem).1⟩
    refine ⟨_, hmade, ?_⟩
    rw [hmade.typeMap_eq]
    exact ⟨hknows, hknows'⟩

end Declarations

namespace Grammar

/-- The operations among the entries of a path item. -/
def Operations (root entries : List (String × Document)) : Prop :=
  ∀ operation ∈ entries, IsVerb operation.1 →
    ∃ inner, operation.2 = .map inner ∧ (∃ own, Lists root inner own) ∧
      IsOperation root entries inner

/-- A path and its item, with the operations in it. -/
def Item (root : List (String × Document)) (path : String) (document : Document) : Prop :=
  NamesResource path ∧ ∃ entries, document = .map entries ∧
    (∃ inherited, Lists root entries inherited) ∧ Operations root entries

end Grammar

/-! ## Parameters of operations -/

namespace Operation

variable {root : List (String × Document)} {shared : List (String × RawParameter)}

/-- The shared parameters that a description declares. -/
def SharedOf (root : List (String × Document)) (shared : List (String × RawParameter)) : Prop :=
  ∀ {name raw}, shared.lookup name = some raw ↔
    ∃ declared, (Grammar.parameters root).lookup name = some (.map declared) ∧
      raw.DeclaredBy declared

theorem listedParameter_eq_ok_iff (hshared : SharedOf root shared) {location : String}
    {document : Document} {raw : RawParameter} :
    listedParameter shared location document = .ok raw ↔ Grammar.Listed root document raw := by
  constructor
  · intro h
    obtain ⟨entries, hentries, hread⟩ := Except.bind_ok h
    obtain rfl := Document.entriesAt_eq_ok_iff.mp hentries
    split at hread
    · next reference href =>
      split at hread
      · next found hfound =>
        cases hread
        obtain ⟨name, hname, hlookup⟩ := Option.bind_eq_some_iff.mp hfound
        obtain rfl := Text.after?_eq_some_iff.mp hname
        obtain ⟨declared, hdeclared, hraw⟩ := hshared.mp hlookup
        exact .shared href hdeclared hraw
      · cases hread
    · next href => exact .inline href (RawParameter.ofEntries_eq_ok_iff.mp hread)
  · intro h
    refine Except.bind_eq_ok_iff.mpr ?_
    cases h with
    | @shared entries declared name _ href hname hraw =>
      refine ⟨entries, rfl, ?_⟩
      simp only [href, Text.after?_append, Option.bind_some, hshared.mpr ⟨declared, hname, hraw⟩]
    | @inline entries _ href hraw =>
      refine ⟨entries, rfl, ?_⟩
      simp only [href, RawParameter.ofEntries_eq_ok_iff.mpr hraw]

theorem listedParameters_eq_ok_iff (hshared : SharedOf root shared) {location : String}
    {index : Nat} {items : List Document} {raws : List RawParameter} :
    listedParameters shared location index items = .ok raws ↔
      Forall₂ (Grammar.Listed root) items raws := by
  induction items generalizing index raws with
  | nil => simp [listedParameters, eq_comm]
  | cons item rest ih =>
    rw [listedParameters, Except.bind_eq_ok_iff, List.forall₂_cons_left_iff]
    simp only [listedParameter_eq_ok_iff hshared, Except.bind_eq_ok_iff, ih, Except.ok.injEq,
      exists_and_left, @eq_comm _ raws]

theorem parametersOf_eq_ok_iff (hshared : SharedOf root shared) {location : String}
    {entries : List (String × Document)} {raws : List RawParameter} :
    parametersOf shared location entries = .ok raws ↔ Grammar.Lists root entries raws := by
  unfold parametersOf
  constructor
  · intro h
    dsimp only at h
    split at h
    · next hlookup =>
      cases h
      exact .absent hlookup
    · next items hlookup => exact .list hlookup ((listedParameters_eq_ok_iff hshared).mp h)
    · cases h
  · intro h
    cases h with
    | absent hlookup => rw [hlookup]
    | list hlookup hitems =>
      rw [hlookup]
      exact (listedParameters_eq_ok_iff hshared).mpr hitems

theorem unique_of_lists (hshared : SharedOf root shared) {entries : List (String × Document)}
    {raws others : List RawParameter} (h : Grammar.Lists root entries raws)
    (hothers : Grammar.Lists root entries others) : raws = others := by
  have hread : parametersOf shared "" entries = .ok raws := (parametersOf_eq_ok_iff hshared).mpr h
  exact Except.ok.inj (hread.symm.trans ((parametersOf_eq_ok_iff hshared).mpr hothers))

theorem mem_mergeParameters_iff {inherited own : List RawParameter} {raw : RawParameter} :
    raw ∈ mergeParameters inherited own ↔ Grammar.IsEffective inherited own raw := by
  simp [mergeParameters, Grammar.IsEffective, or_comm]

/-- The type of a parameter that is listed has been described. -/
theorem exists_describes_of_lists {entries : List (String × Document)} {raws : List RawParameter}
    (h : Grammar.Lists root entries raws) :
    ∀ raw ∈ raws, ∃ schema : Document, schema.Describes raw.type := by
  intro raw hmem
  cases h with
  | absent _ => cases hmem
  | list _ hitems =>
    obtain ⟨item, hitem⟩ := exists_of_mem_forall₂ hitems raw hmem
    cases hitem with
    | shared _ _ hraw => exact ⟨_, hraw.type⟩
    | inline _ hraw => exact ⟨_, hraw.type⟩

theorem exists_placedParameters_iff {map : TypeMap} {location : String} {raws : List RawParameter}
    (hdescribed : ∀ raw ∈ raws, ∃ schema : Document, schema.Describes raw.type) :
    (∃ placed, placedParameters map location raws = .ok placed) ↔
      ∀ raw ∈ raws, raw.place ≠ none → map.Knows raw.type := by
  induction raws with
  | nil => simp [placedParameters]
  | cons raw rest ih =>
    obtain ⟨⟨schema, hschema⟩, hrest⟩ := List.forall_mem_cons.mp hdescribed
    unfold placedParameters
    rw [List.forall_mem_cons, ← ih hrest]
    split
    · next hplace => simp [hplace]
    · next place hplace =>
      have hplaced : (∃ parameter, placedParameter map location raw place = .ok parameter) ↔
          map.Knows raw.type := by
        constructor
        · rintro ⟨parameter, h⟩
          obtain ⟨javaType, hjavaType, -⟩ := Except.bind_ok h
          exact TypeMap.exists_javaType_iff.mp ⟨javaType, hjavaType⟩
        · intro hknows
          obtain ⟨javaType, hjavaType⟩ := TypeMap.exists_javaType_iff.mpr hknows
          obtain ⟨model, hmodel⟩ := TypeMap.exists_referenced? hschema hknows _
          exact ⟨_, Except.bind_eq_ok_iff.mpr ⟨_, hjavaType,
            Except.bind_eq_ok_iff.mpr ⟨_, hmodel, rfl⟩⟩⟩
      rw [← hplaced]
      constructor
      · rintro ⟨placed, h⟩
        obtain ⟨first, hfirst, h⟩ := Except.bind_ok h
        obtain ⟨more, hmore, -⟩ := Except.bind_ok h
        exact ⟨fun _ => ⟨first, hfirst⟩, more, hmore⟩
      · rintro ⟨hfirst, more, hmore⟩
        obtain ⟨first, hfirst⟩ := hfirst (by simp [hplace])
        exact ⟨_, Except.bind_eq_ok_iff.mpr ⟨_, hfirst, Except.bind_eq_ok_iff.mpr ⟨_, hmore, rfl⟩⟩⟩

/-! ## Bodies of operations -/

theorem contentSchema?_eq_some_iff {entries : List (String × Document)} {schema : Document} :
    contentSchema? entries = some schema ↔
      ∃ key media rest, entries.lookup "content" = some (.map ((key, media) :: rest)) ∧
        media.get? "schema" = some schema := by
  constructor
  · intro h
    unfold contentSchema? at h
    split at h
    · next key media rest hcontent =>
      obtain ⟨content, hlookup, hentries⟩ := Option.bind_eq_some_iff.mp hcontent
      obtain rfl := Document.entries?_eq_some_iff.mp hentries
      exact ⟨key, media, rest, hlookup, h⟩
    · cases h
  · rintro ⟨key, media, rest, hlookup, hschema⟩
    simp [contentSchema?, hlookup, Document.entries?, hschema]

theorem exists_bodyAt_iff {map : TypeMap} {location : String} {document : Document} :
    (∃ body, bodyAt map location document = .ok body) ↔ map.IsBody document := by
  constructor
  · rintro ⟨body, h⟩
    obtain ⟨entries, hentries, hread⟩ := Except.bind_ok h
    obtain rfl := Document.entriesAt_eq_ok_iff.mp hentries
    split at hread
    · cases hread
    · next href =>
      refine ⟨entries, rfl, href, fun key media rest schema hlookup hschema => ?_⟩
      rw [contentSchema?_eq_some_iff.mpr ⟨key, media, rest, hlookup, hschema⟩] at hread
      exact TypeMap.exists_schemaBody_iff.mp ⟨body, hread⟩
  · rintro ⟨entries, rfl, href, hbinds⟩
    simp only [bodyAt, Except.bind_eq_ok_iff, Document.entriesAt_eq_ok_iff, Document.map.injEq,
      exists_eq_left', href]
    split
    · next schema hcontent =>
      obtain ⟨key, media, rest, hlookup, hschema⟩ := contentSchema?_eq_some_iff.mp hcontent
      exact TypeMap.exists_schemaBody_iff.mpr (hbinds key media rest schema hlookup hschema)
    · exact ⟨none, rfl⟩

theorem exists_requestOf_iff {map : TypeMap} {location : String}
    {entries : List (String × Document)} :
    (∃ body, requestOf map location entries = .ok body) ↔
      ∀ body, entries.lookup "requestBody" = some body → map.IsBody body := by
  unfold requestOf
  split
  · next body hlookup => simp [exists_bodyAt_iff, hlookup]
  · next hlookup => simp [hlookup]

theorem exists_responseOf_iff {map : TypeMap} {location : String}
    {entries : List (String × Document)} :
    (∃ body, responseOf map location entries = .ok body) ↔ MappingUnder "responses" entries ∧
      ∀ response, (under "responses" entries).find? (isSuccess ·.1) = some response →
        map.IsBody response.2 := by
  refine (exists_congr fun body => Document.readUnder_eq_ok_iff
    (fun document h => by rw [responseOf, h]) (fun h => by rw [responseOf, h]; rfl)).trans ?_
  rw [exists_and_left]
  refine and_congr Iff.rfl ?_
  split
  · next code response hfind =>
    rw [exists_bodyAt_iff]
    refine ⟨fun h other hother => ?_, fun h => h _ hfind⟩
    cases hfind.symm.trans hother
    exact h
  · next hfind =>
    refine ⟨fun _ other hother => ?_, fun _ => ⟨none, rfl⟩⟩
    cases hfind.symm.trans hother

/-! ## Path items -/

theorem exists_ofEntries_iff (hshared : SharedOf root shared) {item : PathItem} {verb : Verb}
    {location : String} {itemEntries entries : List (String × Document)}
    (hinherited : Grammar.Lists root itemEntries item.parameters) :
    (∃ operation, ofEntries (Grammar.typeMap root) shared item verb location entries =
        .ok operation) ↔
      (∃ own, Grammar.Lists root entries own) ∧ Grammar.IsOperation root itemEntries entries := by
  have hplaced : ∀ {own}, Grammar.Lists root entries own →
      ((∃ placed, placedParameters (Grammar.typeMap root) location
          (mergeParameters item.parameters own) = .ok placed) ↔
        ∀ raw, Grammar.IsEffective item.parameters own raw → raw.place ≠ none →
          (Grammar.typeMap root).Knows raw.type) := by
    intro own hown
    rw [exists_placedParameters_iff]
    · simp only [mem_mergeParameters_iff]
    · intro raw hmem
      rcases mem_mergeParameters_iff.mp hmem with hmem | ⟨hmem, -⟩
      · exact exists_describes_of_lists hown raw hmem
      · exact exists_describes_of_lists hinherited raw hmem
  constructor
  · rintro ⟨operation, h⟩
    obtain ⟨own, hown, h⟩ := Except.bind_ok h
    obtain ⟨placed, hread, h⟩ := Except.bind_ok h
    obtain ⟨request, hrequest, h⟩ := Except.bind_ok h
    obtain ⟨response, hresponse, -⟩ := Except.bind_ok h
    have hown := (parametersOf_eq_ok_iff hshared).mp hown
    obtain ⟨hunder, hresponse⟩ := exists_responseOf_iff.mp ⟨response, hresponse⟩
    refine ⟨⟨own, hown⟩, ?_, exists_requestOf_iff.mp ⟨request, hrequest⟩, hunder, hresponse⟩
    intro inherited other hother hown'
    rw [unique_of_lists hshared hother hinherited, unique_of_lists hshared hown' hown]
    exact (hplaced hown).mp ⟨placed, hread⟩
  · rintro ⟨⟨own, hown⟩, h⟩
    obtain ⟨placed, hread⟩ := (hplaced hown).mpr (h.parameters _ _ hinherited hown)
    obtain ⟨request, hrequest⟩ := exists_requestOf_iff.mpr h.request
    obtain ⟨response, hresponse⟩ := exists_responseOf_iff.mpr ⟨h.responses, h.response⟩
    exact ⟨_, Except.bind_eq_ok_iff.mpr ⟨_, (parametersOf_eq_ok_iff hshared).mpr hown,
      Except.bind_eq_ok_iff.mpr ⟨_, hread, Except.bind_eq_ok_iff.mpr ⟨_, hrequest,
        Except.bind_eq_ok_iff.mpr ⟨_, hresponse, rfl⟩⟩⟩⟩⟩

theorem isSome_splitPath?_iff {path : String} :
    (splitPath? path).isSome = true ↔ NamesResource path := by
  have hname : (splitPath? path).isSome = true ↔ Naming.camelCase (firstSegment path) ≠ "" := by
    rw [Option.isSome_iff_exists]
    constructor
    · rintro ⟨⟨name, rest⟩, h⟩
      obtain ⟨hne, rfl, -⟩ := splitPath?_eq_some_iff.mp h
      exact hne
    · exact fun hne => ⟨_, splitPath?_eq_some_iff.mpr ⟨hne, rfl, rfl⟩⟩
  rw [hname, ne_eq, Naming.camelCase_eq_empty_iff, NamesResource, firstSegment,
    String.toList_ofList]
  simp only [not_forall, Bool.not_eq_false, exists_prop]

theorem mem_verbEntries_iff {entries : List (String × Document)} {verb : Verb} {key : String}
    {document : Document} :
    (verb, key, document) ∈ verbEntries entries ↔
      (key, document) ∈ entries ∧ Verb.ofKey? key = some verb := by
  rw [verbEntries, List.mem_filterMap]
  constructor
  · rintro ⟨⟨name, value⟩, hmem, h⟩
    obtain ⟨found, hfound, heq⟩ := Option.map_eq_some_iff.mp h
    cases heq
    exact ⟨hmem, hfound⟩
  · rintro ⟨hmem, hverb⟩
    exact ⟨(key, document), hmem, by simp [hverb]⟩

/-- The operations of a path item are read if they follow the grammar. -/
theorem exists_operations_iff (hshared : SharedOf root shared) {item : PathItem}
    {entries : List (String × Document)} (hinherited : Grammar.Lists root entries item.parameters) :
    (∃ operations, ((verbEntries entries).mapM fun entry =>
        ofDocument (Grammar.typeMap root) shared item entry.1 entry.2.1 entry.2.2) = .ok operations) ↔
      Grammar.Operations root entries := by
  have hoperation : ∀ {verb : Verb} {key : String} {document : Document},
      (∃ operation, ofDocument (Grammar.typeMap root) shared item verb key document =
          .ok operation) ↔
        ∃ inner, document = .map inner ∧ (∃ own, Grammar.Lists root inner own) ∧
          Grammar.IsOperation root entries inner := by
    intro verb key document
    simp only [ofDocument, Except.bind_eq_ok_iff, Document.entriesAt_eq_ok_iff]
    rw [exists_comm]
    refine exists_congr fun inner => ?_
    rw [exists_and_left, exists_ofEntries_iff hshared hinherited]
  refine Except.exists_mapM_ok_iff.trans ?_
  constructor
  · rintro h ⟨key, document⟩ hmem hverb
    obtain ⟨verb, hverb⟩ := Option.isSome_iff_exists.mp hverb
    exact hoperation.mp (h (verb, key, document) (mem_verbEntries_iff.mpr ⟨hmem, hverb⟩))
  · rintro h ⟨verb, key, document⟩ hentry
    obtain ⟨hmem, hverb⟩ := mem_verbEntries_iff.mp hentry
    exact hoperation.mpr (h (key, document) hmem (Option.isSome_iff_exists.mpr ⟨verb, hverb⟩))

/-- A path item is read if it follows the grammar. -/
theorem exists_ofItem_iff (hshared : SharedOf root shared) {path : String} {document : Document} :
    (∃ operations, ofItem (Grammar.typeMap root) shared path document = .ok operations) ↔
      Grammar.Item root path document := by
  constructor
  · rintro ⟨operations, h⟩
    obtain ⟨⟨item, entries⟩, hitem, hread⟩ := Except.bind_ok h
    obtain ⟨found, hentries, hmade⟩ := Except.bind_ok hitem
    obtain rfl := Document.entriesAt_eq_ok_iff.mp hentries
    split at hmade
    · cases hmade
    · next resource relativePath hsplit =>
      obtain ⟨inherited, hlisted, hmade⟩ := Except.bind_ok hmade
      cases hmade
      have hlisted := (parametersOf_eq_ok_iff hshared).mp hlisted
      exact ⟨isSome_splitPath?_iff.mp (by rw [hsplit]; rfl), _, rfl, ⟨inherited, hlisted⟩,
        (exists_operations_iff hshared hlisted).mp ⟨operations, hread⟩⟩
  · rintro ⟨hname, entries, rfl, ⟨inherited, hinherited⟩, hoperations⟩
    obtain ⟨⟨resource, relativePath⟩, hsplit⟩ :=
      Option.isSome_iff_exists.mp (isSome_splitPath?_iff.mpr hname)
    let item : PathItem := ⟨"paths." ++ path, resource, relativePath, inherited⟩
    have hitem : itemAt shared path (.map entries) = .ok (item, entries) := by
      refine Except.bind_eq_ok_iff.mpr ⟨entries, rfl, ?_⟩
      simp only [hsplit]
      exact Except.bind_eq_ok_iff.mpr ⟨_, (parametersOf_eq_ok_iff hshared).mpr hinherited, rfl⟩
    have hlisted : Grammar.Lists root entries item.parameters := hinherited
    obtain ⟨operations, hread⟩ := (exists_operations_iff hshared hlisted).mpr hoperations
    exact ⟨operations, Except.bind_eq_ok_iff.mpr ⟨_, hitem, hread⟩⟩

end Operation

/-! ## Descriptions -/

namespace Grammar

variable {root : List (String × Document)}

/-- What a description needs, part by part in the order of reading. -/
theorem accepts_iff : Accepts root ↔ Components root ∧ MappingUnder "paths" root ∧
    ∀ item ∈ under "paths" root, Item root item.1 item.2 := by
  constructor
  · intro h
    refine ⟨h.toComponents, h.paths, fun item hitem => ?_⟩
    obtain ⟨hname, entries, heq, houtline⟩ := h.items item hitem
    refine ⟨hname, entries, heq, houtline.parameters, fun operation hmem hverb => ?_⟩
    obtain ⟨inner, hinner, hoperation⟩ := h.operations item hitem entries heq operation hmem hverb
    exact ⟨inner, hinner, houtline.operations operation hmem hverb inner hinner, hoperation⟩
  · rintro ⟨hcomponents, hpaths, hitems⟩
    refine { hcomponents with paths := hpaths, items := fun item hitem => ?_, operations := ?_ }
    · obtain ⟨hname, entries, heq, hinherited, hoperations⟩ := hitems item hitem
      refine ⟨hname, entries, heq, hinherited, fun operation hmem hverb inner hinner => ?_⟩
      obtain ⟨other, hother, hown, -⟩ := hoperations operation hmem hverb
      cases hinner.symm.trans hother
      exact hown
    · intro item hitem entries heq operation hmem hverb
      obtain ⟨-, others, hothers, -, hoperations⟩ := hitems item hitem
      cases heq.symm.trans hothers
      obtain ⟨inner, hinner, -, hoperation⟩ := hoperations operation hmem hverb
      exact ⟨inner, hinner, hoperation⟩

end Grammar

namespace Definition

theorem exists_operationsOf_iff {root : List (String × Document)} {declarations : Declarations}
    (h : declarations.MadeBy root) :
    (∃ operations, operationsOf declarations root = .ok operations) ↔
      MappingUnder "paths" root ∧ ∀ item ∈ under "paths" root,
        Grammar.Item root item.1 item.2 := by
  refine (exists_congr fun operations => Document.readUnder_eq_ok_iff
    (fun document h => by rw [operationsOf, h]) (fun h => by rw [operationsOf, h]; rfl)).trans ?_
  rw [exists_and_left, h.typeMap_eq]
  refine and_congr Iff.rfl ?_
  refine (Except.exists_map_ok_iff.trans Except.exists_mapM_ok_iff).trans ?_
  exact forall₂_congr fun item _ => Operation.exists_ofItem_iff h.lookup_eq_some_iff

/-- A document is imported exactly if it is a mapping that follows the grammar. -/
theorem imported_iff (document : Document) :
    (∃ definition, ofDocument document = .ok definition) ↔
      ∃ root, document = .map root ∧ Grammar.Accepts root := by
  constructor
  · rintro ⟨definition, h⟩
    obtain ⟨root, hroot, hread⟩ := Except.bind_ok h
    obtain rfl := Document.entriesAt_eq_ok_iff.mp hroot
    obtain ⟨declarations, hdeclarations, hread⟩ := Except.bind_ok hread
    obtain ⟨components, hcomponents, hread⟩ := Except.bind_ok hread
    obtain ⟨operations, hoperations, -⟩ := Except.bind_ok hread
    have hmade := Declarations.ofEntries_eq_ok_iff.mp hdeclarations
    exact ⟨root, rfl, Grammar.accepts_iff.mpr
      ⟨Declarations.exists_declared_iff.mp ⟨_, hdeclarations, _, hcomponents⟩,
        (exists_operationsOf_iff hmade).mp ⟨_, hoperations⟩⟩⟩
  · rintro ⟨root, rfl, h⟩
    obtain ⟨hcomponents, hpaths⟩ := Grammar.accepts_iff.mp h
    obtain ⟨declarations, hdeclarations, components, hread⟩ :=
      Declarations.exists_declared_iff.mpr hcomponents
    obtain ⟨operations, hoperations⟩ :=
      (exists_operationsOf_iff (Declarations.ofEntries_eq_ok_iff.mp hdeclarations)).mpr hpaths
    exact ⟨_, Except.bind_eq_ok_iff.mpr ⟨root, rfl, Except.bind_eq_ok_iff.mpr ⟨_, hdeclarations,
      Except.bind_eq_ok_iff.mpr ⟨_, hread, Except.bind_eq_ok_iff.mpr ⟨_, hoperations, rfl⟩⟩⟩⟩⟩

/-- Known components and listable parameters are not enough: an operation has to be a mapping. -/
theorem outline_not_imported :
    Grammar.Outline [("paths", .map [("/a", .map [("get", .int 1)])])] ∧
      ofDocument (.map [("paths", .map [("/a", .map [("get", .int 1)])])]) =
        .error (.malformed "paths./a.get" .notMapping) := by
  refine ⟨?_, by rfl⟩
  refine
    { components := by rintro _ ⟨⟩
      schemas := by rintro _ ⟨⟩
      parameters := by rintro _ ⟨⟩
      schema := by rintro _ ⟨⟩
      parameter := by rintro _ ⟨⟩
      paths := by
        rintro _ ⟨⟩
        exact ⟨_, rfl⟩
      items := ?_ }
  intro item hitem
  obtain rfl : item = ("/a", .map [("get", .int 1)]) := List.mem_singleton.mp hitem
  have hname : NamesResource "/a" := ⟨'a', by decide, by decide⟩
  refine ⟨hname, _, rfl, ⟨[], .absent rfl⟩, fun operation hmem _ inner hinner => ?_⟩
  rw [List.mem_singleton.mp hmem] at hinner
  cases hinner

end Definition

end RestModule
