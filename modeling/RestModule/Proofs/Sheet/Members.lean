import RestModule.Proofs.Sheet.Imports
import RestModule.Proofs.Source.Identifiers
import RestModule.Proofs.Source.Tokens
import RestModule.Proofs.Spec.JavaType

/-!
# The members of a model

The class of a component has for every property a field, a method that returns it and a method that
sets it, and no other members. What stands in the source between the braces of the class is read back
as these members (`Sheet.model_members`), under names that are apart whatever the properties are
called. -/

namespace RestModule

open List (Forall₂)
open Source (IsWord tokens tokens_around tokens_intercalate commentLine)
open Template (slot)

/-! ## Reading -/

/-- A member of a class of data, as its source declares it. -/
inductive Member where
  | field (type name : String)
  /-- A method without parameters that returns a value. -/
  | getter (type name result : String)
  /-- A method with one parameter that assigns a value to a target. -/
  | setter (name type parameter target value : String)

namespace Source

/-- The members of a class, from the tokens after its opening brace to its closing brace. -/
def members? : List String → Option (List Member)
  | ["\x7d"] => some []
  | "private" :: type :: name :: ";" :: rest => (members? rest).map (.field type name :: ·)
  | "public" :: "void" :: name :: "(" :: type :: parameter :: ")" :: "\x7b" ::
      target :: "=" :: value :: ";" :: "\x7d" :: rest =>
    (members? rest).map (.setter name type parameter target value :: ·)
  | "public" :: type :: name :: "(" :: ")" :: "\x7b" ::
      "return" :: result :: ";" :: "\x7d" :: rest =>
    (members? rest).map (.getter type name result :: ·)
  | _ => none

theorem IsWord.of_isName {name : String} (h : Naming.IsName name) (hne : name ≠ "") :
    IsWord name where
  nonempty := hne
  unbroken := by
    have hother : breaks.all (!Naming.isIdentifierPart ·) = true := by decide
    refine List.any_eq_false.mpr fun c hc hbreak => ?_
    have hpart := List.all_eq_true.mp hother c (List.contains_iff_mem.mp hbreak)
    exact h.not_mem (by simpa using hpart) hc

theorem IsWord.of_isLegal {name : String} (h : Naming.IsLegal name) : IsWord name := by
  obtain ⟨first, rest, hname, -⟩ := h.start
  refine .of_isName h.parts ?_
  rintro rfl
  cases hname

theorem IsWord.append {word rest : String} (h : IsWord word)
    (hrest : rest.toList.any isBreak = false) : IsWord (word ++ rest) where
  nonempty := by simp [h.nonempty]
  unbroken := by rw [String.toList_append, List.any_append, h.unbroken, hrest, Bool.false_or]

end Source

/-! ## Sources -/

namespace Sheet

variable (config : Config) (component : Component)

/-- The lines of a model between its imports and the members of its class. -/
def modelOpening : List String :=
  [commentLine, " * @author " ++ config.author, " */", "@Generated(value = \"restmodgen\")",
    "@XmlRootElement", "public class " ++ Naming.modelClass component.name ++ " \x7b"]

/-- The lines of a model from the members of its class on. -/
def modelBody : List String :=
  ["", String.intercalate "\n\n" (component.fields.map (·.accessors)), "",
    Text.joinLines (component.fields.map (·.declaration)), "", "\x7d"]

theorem modelSource_eq : modelSource config component = Text.ofLines
    (modelHeader config component ++ modelOpening config component ++ modelBody component) := by
  have htext : Template.modelText = Text.ofLines (modelTop ++
      [commentLine, Template.authorLine, " */",
        "@Generated(value = \"restmodgen\")", "@XmlRootElement",
        "public class " ++ (slot "MODEL_CLASS" ++ " \x7b"), "", slot "METHODS", "",
        slot "VARIABLES", "", "\x7d"]) := rfl
  rw [modelSource, filled, htext, Template.render_header (render_modelTop ..)]
  set values := [] ++ (model config component).values
  have hplain : ∀ line : String, '$' ∉ line.toList → Template.render line values = line :=
    fun line h => Template.render_plain h values
  have hauthor : Template.render Template.authorLine values = " * @author " ++ config.author :=
    Template.render_authorLine rfl
  have hclass : Template.render ("public class " ++ (slot "MODEL_CLASS" ++ " \x7b")) values =
      "public class " ++ Naming.modelClass component.name ++ " \x7b" := by
    rw [Template.render_around "public class " "MODEL_CLASS" _ rfl, hplain " \x7b" (by decide),
      String.append_assoc]
  have hmethods : Template.render (slot "METHODS") values =
      String.intercalate "\n\n" (component.fields.map (·.accessors)) := Template.render_slot rfl
  have hfields : Template.render (slot "VARIABLES") values =
      Text.joinLines (component.fields.map (·.declaration)) := Template.render_slot rfl
  simp only [List.map_cons, List.map_nil, hauthor, hclass, hmethods, hfields,
    hplain commentLine (by decide), hplain " */" (by decide), hplain "" (by decide),
    hplain "@Generated(value = \"restmodgen\")" (by decide), hplain "@XmlRootElement" (by decide),
    hplain "\x7d" (by decide), modelOpening, modelBody, List.append_assoc, List.cons_append,
    List.nil_append]

end Sheet

/-! ## Types -/

theorem TypeMap.Spells.isWord {map : TypeMap} {type : SchemaType} {javaType : String}
    (h : map.Spells type javaType) : IsWord javaType := by
  cases h with
  | model _ _ _ => exact .of_isLegal (Naming.modelClass_isLegal _)
  | _ => exact .of_isName (by decide) (by decide)

theorem TypeMap.isWord_of_javaType {map : TypeMap} {location : String} {type : SchemaType}
    {javaType : String} (h : map.javaType location type = .ok javaType) : IsWord javaType := by
  obtain ⟨element, hspells, rfl⟩ := javaType_eq_ok_iff.mp h
  have hbrackets : ∀ levels, (brackets levels).toList.any Source.isBreak = false := by
    intro levels
    induction levels with
    | zero => decide
    | succ levels ih =>
      rw [brackets, String.toList_append, List.any_append, ih]
      decide
  exact hspells.isWord.append (hbrackets _)

/-- A component of some description that is imported. -/
def Component.IsImported (component : Component) : Prop :=
  ∃ document definition, Definition.ofDocument document = .ok definition ∧
    component ∈ definition.components

theorem Component.IsImported.isWord {component : Component} (h : component.IsImported) :
    ∀ property ∈ component.properties, IsWord property.javaType := by
  obtain ⟨document, definition, hdefinition, hcomponent⟩ := h
  obtain ⟨_, declarations, _, _, -, -, hcomponents, -, rfl⟩ :=
    Definition.ofDocument_eq_ok_iff.mp hdefinition
  obtain ⟨-, -, htypes⟩ := Declarations.components_ok hcomponents
  intro property hproperty
  exact TypeMap.isWord_of_javaType (htypes component hcomponent property hproperty "")

/-! ## Fields -/

namespace Field

/-- The members of a class that give access to a field. -/
def access (field : Field) : List Member :=
  [.getter field.type field.getter field.member,
    .setter field.setter field.type field.name field.member field.name]

variable {field : Field}

theorem tokens_declaration (htype : IsWord field.type) (hnames : field.IsLegal) :
    tokens field.declaration = ["private", field.type, field.member, ";"] := by
  have hmember := IsWord.of_isLegal hnames.member
  simp only [declaration, String.append_assoc]
  rw [tokens_around "\tprivate " htype (.append (by decide) _),
    tokens_around " " hmember (by decide)]
  rfl

theorem tokens_getterMethod (htype : IsWord field.type) (hnames : field.IsLegal) :
    tokens field.getterMethod =
      ["public", field.type, field.getter, "(", ")", "\x7b", "return", field.member, ";", "\x7d"] := by
  have hmember := IsWord.of_isLegal hnames.member
  have hgetter := IsWord.of_isLegal hnames.getter
  rw [getterMethod, Text.joinLines, tokens_intercalate (by decide) (by decide) (by decide)]
  simp only [String.append_assoc, List.flatMap_cons, List.flatMap_nil]
  rw [tokens_around "\tpublic " htype (.append (by decide) _),
    tokens_around " " hgetter (by decide), tokens_around "\t\treturn " hmember (by decide)]
  rfl

theorem tokens_setterMethod (htype : IsWord field.type) (hnames : field.IsLegal) :
    tokens field.setterMethod =
      ["public", "void", field.setter, "(", field.type, field.name, ")", "\x7b",
        field.member, "=", field.name, ";", "\x7d"] := by
  have hmember := IsWord.of_isLegal hnames.member
  have hsetter := IsWord.of_isLegal hnames.setter
  have hname := IsWord.of_isLegal hnames.parameter
  rw [setterMethod, Text.joinLines, tokens_intercalate (by decide) (by decide) (by decide)]
  simp only [String.append_assoc, List.flatMap_cons, List.flatMap_nil]
  rw [tokens_around "\tpublic void " hsetter (.append (by decide) _),
    tokens_around "(" htype (.append (by decide) _), tokens_around " " hname (by decide),
    tokens_around "\t\t" hmember (.append (by decide) _), tokens_around " = " hname (by decide)]
  rfl

theorem tokens_accessors (field : Field) :
    tokens field.accessors = tokens field.getterMethod ++ tokens field.setterMethod := by
  have hblank : tokens "\n\n" = [] := rfl
  have hends : Source.EndsApart "\n\n" := by decide
  rw [accessors, String.append_assoc, Source.tokens_append_of_beginsApart _ (.append (by decide) _),
    Source.tokens_append_of_endsApart hends, hblank, List.nil_append]

theorem members?_declaration (htype : IsWord field.type) (hnames : field.IsLegal)
    (rest : List String) : Source.members? (tokens field.declaration ++ rest) =
      (Source.members? rest).map ([.field field.type field.member] ++ ·) := by
  rw [tokens_declaration htype hnames]
  simp only [List.cons_append, List.nil_append]
  rw [Source.members?]

theorem members?_accessors (htype : IsWord field.type) (hnames : field.IsLegal)
    (rest : List String) : Source.members? (tokens field.accessors ++ rest) =
      (Source.members? rest).map (field.access ++ ·) := by
  rw [tokens_accessors, tokens_getterMethod htype hnames, tokens_setterMethod htype hnames]
  simp only [List.cons_append, List.nil_append]
  rw [Source.members?, Source.members?, Option.map_map]
  rfl

end Field

/-- Texts that are read as members one by one are read so one after the other. -/
theorem Source.members?_flatMap {fields : List Field} {text : Field → String}
    {read : Field → List Member}
    (h : ∀ field ∈ fields, ∀ rest,
      members? (tokens (text field) ++ rest) = (members? rest).map (read field ++ ·))
    (rest : List String) :
    members? (fields.flatMap (fun field => tokens (text field)) ++ rest) =
      (members? rest).map (fields.flatMap read ++ ·) := by
  induction fields with
  | nil => simp
  | cons field more ih =>
    obtain ⟨hfield, hmore⟩ := List.forall_mem_cons.mp h
    rw [List.flatMap_cons, List.append_assoc, hfield, ih hmore, Option.map_map, List.flatMap_cons]
    simp only [Function.comp_def, List.append_assoc]

/-! ## Components -/

/-- A field is what a property becomes: it has its Java type, and its name as an identifier or a
variant of that. -/
structure Property.Becomes (property : Property) (field : Field) : Prop where
  type : field.type = property.javaType
  name : ∃ k, field.name = Naming.variant (Naming.identifier property.name) k

namespace Component

theorem becomes_fields (component : Component) :
    Forall₂ Property.Becomes component.properties component.fields := by
  have hvariants := Naming.variants_distinctBy Naming.capitalize []
    (component.properties.map fun property => Naming.identifier property.name)
  rw [List.forall₂_map_left_iff] at hvariants
  have hzip : ∀ {properties : List Property} {names : List String},
      Forall₂ (fun property name => ∃ k, name = Naming.variant (Naming.identifier property.name) k)
        properties names → Forall₂ Property.Becomes properties
          (properties.zipWith (fun property name => ⟨name, property.javaType⟩) names) := by
    intro properties names h
    induction h with
    | nil => exact .nil
    | cons hname _ ih => exact .cons ⟨rfl, hname⟩ ih
  exact hzip hvariants

theorem nodup_capitalized (component : Component) :
    ((component.fields.map (·.name)).map Naming.capitalize).Nodup := by
  have hnodup := Naming.nodup_distinctBy Naming.tellsVariants_capitalize .nil
    (component.properties.map fun property => Naming.identifier property.name)
  rwa [List.nil_append, ← component.map_name_fields] at hnodup

/-- The class of a component has a field with its accessors for every property, and nothing else: that
is what its body is read as if the types of the properties are words, as those of imported components
are. -/
structure HasMembers (config : Config) (component : Component) : Prop where
  fields : Forall₂ Property.Becomes component.properties component.fields
  apart : (component.fields.map (·.member)).Nodup
  getters : (component.fields.map (·.getter)).Nodup
  setters : (component.fields.map (·.setter)).Nodup
  source : Sheet.modelSource config component = Text.ofLines
    (Sheet.modelHeader config component ++ Sheet.modelOpening config component
      ++ Sheet.modelBody component)
  typed : component.IsImported → ∀ property ∈ component.properties, IsWord property.javaType
  read : (∀ property ∈ component.properties, IsWord property.javaType) →
    Source.members? (tokens (Text.ofLines (Sheet.modelBody component))) =
      some (component.fields.flatMap Field.access
        ++ component.fields.map fun field => .field field.type field.member)

theorem isWord_fields {component : Component}
    (h : ∀ property ∈ component.properties, IsWord property.javaType) :
    ∀ field ∈ component.fields, IsWord field.type := by
  intro field hfield
  obtain ⟨i, hi⟩ := List.mem_iff_getElem?.mp hfield
  obtain ⟨property, name, hproperty, -, rfl⟩ := List.getElem?_zipWith_eq_some.mp hi
  exact h property (List.mem_of_getElem? hproperty)

/-- What the body of a class is read as, once the types of its fields are words. -/
theorem members?_modelBody {component : Component}
    (h : ∀ field ∈ component.fields, IsWord field.type) :
    Source.members? (tokens (Text.ofLines (Sheet.modelBody component))) =
      some (component.fields.flatMap Field.access
        ++ component.fields.map fun field => .field field.type field.member) := by
  have hnames := component.fields_isLegal
  have haccess := Source.members?_flatMap fun field hfield rest =>
    Field.members?_accessors (h field hfield) (hnames field hfield) rest
  have hdeclared := Source.members?_flatMap fun field hfield rest =>
    Field.members?_declaration (h field hfield) (hnames field hfield) rest
  have hbody : tokens (Text.ofLines (Sheet.modelBody component)) =
      component.fields.flatMap (fun field => tokens field.accessors) ++
        (component.fields.flatMap (fun field => tokens field.declaration) ++ ["\x7d"]) := by
    rw [Source.tokens_ofLines, Sheet.modelBody]
    simp only [List.flatMap_cons, List.flatMap_nil, Text.joinLines]
    rw [tokens_intercalate (by decide) (by decide) (by decide),
      tokens_intercalate (by decide) (by decide) (by decide), List.flatMap_map, List.flatMap_map]
    rfl
  rw [hbody, haccess, hdeclared, Source.members?, List.map_eq_flatMap]
  simp

end Component

namespace Sheet

/-- The model of a component has the members that its properties ask for. -/
theorem model_members (config : Config) (component : Component) :
    component.HasMembers config := by
  have hcapitals := component.nodup_capitalized
  have hprefix : ∀ (start : String) {names : List String}, names.Nodup →
      (names.map (start ++ ·)).Nodup :=
    fun start _ h => h.map fun _ _ heq => (String.append_right_inj start).mp heq
  constructor
  case fields => exact component.becomes_fields
  case apart =>
    have hmembers := hprefix "_" hcapitals.of_map
    rw [List.map_map] at hmembers
    exact hmembers
  case getters =>
    have hgetters := hprefix "get" hcapitals
    rw [List.map_map, List.map_map] at hgetters
    exact hgetters
  case setters =>
    have hsetters := hprefix "set" hcapitals
    rw [List.map_map, List.map_map] at hsetters
    exact hsetters
  case source => exact modelSource_eq config component
  case typed => exact Component.IsImported.isWord
  case read => exact fun h => Component.members?_modelBody (Component.isWord_fields h)

/-- Properties whose names differ in the case of a letter, look like variants, become one identifier
or are reserved. -/
theorem model_members_order :
    let type (name : String) : Document := .map [("type", .text name)]
    let dates : Document := .map [("type", .text "array"),
      ("items", .map [("type", .text "string"), ("format", .text "date")])]
    let document : Document := .map [("components", .map [("schemas", .map
      [("Order", .map [("properties", .map
        [("name", type "string"), ("Name", type "integer"), ("name_1", dates),
          ("first-name", type "string"), ("firstName", type "boolean"), ("class", type "object")])])])])]
    ∃ definition, Definition.ofDocument document = .ok definition ∧
      definition.components.map (·.fields.map fun field => (field.type, field.member)) =
        [[("String", "_name"), ("Long", "_Name_1"), ("Date[]", "_name_1_1"),
          ("String", "_firstName"), ("Boolean", "_firstName_1"), ("Object", "__class")]] ∧
      ∀ component ∈ definition.components, component.HasMembers Launch.shop.config ∧
        Source.members? (tokens (Text.ofLines (modelBody component))) =
          some (component.fields.flatMap Field.access
            ++ component.fields.map fun field => .field field.type field.member) := by
  intro type dates document
  have hread : (Definition.ofDocument document).toOption.map
      (·.components.map (·.fields.map fun field => (field.type, field.member))) =
      some [[("String", "_name"), ("Long", "_Name_1"), ("Date[]", "_name_1_1"),
        ("String", "_firstName"), ("Boolean", "_firstName_1"), ("Object", "__class")]] := by
    decide +kernel
  obtain ⟨definition, h, hfields⟩ := Except.exists_ok_of_map hread
  refine ⟨definition, h, hfields, fun component hcomponent => ?_⟩
  have hmembers := model_members Launch.shop.config component
  exact ⟨hmembers, hmembers.read (hmembers.typed ⟨document, definition, h, hcomponent⟩)⟩

end Sheet

end RestModule
