import RestModule.Proofs.Naming.Camel
import RestModule.Proofs.Naming.Search
import RestModule.Proofs.Sheet.Members

/-!
# Getters that every object has

Every object has a method `getClass` of its own, which no class may declare again. The reserved word
`class` gets an underscore before it becomes the name of a getter, but the word with a capital
letter is not reserved, and of all names it alone keeps that form: a model declares the getter
exactly for a property that is called `Class` (`Sheet.getClass_iff`). -/

namespace RestModule

namespace Naming

/-! ## Capital letters -/

private theorem upper_of_code : ∀ n : Fin 128, isIdentifierStart (.ofNat n) = true →
    isLow (.ofNat n) = false → Text.upperChar (.ofNat n) = [.ofNat n] := by
  decide

/-- A legal name that begins with neither a lower-case letter nor an underscore has its capital
letter already. -/
theorem IsLegal.capitalize_eq {name : String} (h : IsLegal name) (hlow : ¬ BeginsLow name) :
    capitalize name = name := by
  obtain ⟨first, rest, hname, hstart⟩ := h.start
  have hpart : isIdentifierPart first = true := h.parts first (hname ▸ List.mem_cons_self)
  have hfirst : isLow first = false := by
    apply Bool.eq_false_iff.mpr
    intro hfirst
    exact hlow ⟨first, rest, hname, hfirst⟩
  obtain ⟨code, rfl⟩ := exists_code hpart
  apply String.toList_injective
  rw [capitalize, String.toList_ofList, hname, Text.upperFirst, upper_of_code code hstart hfirst,
    List.singleton_append]

/-- A legal name is no capitalized reserved word, unless it has that form itself. -/
theorem IsLegal.eq_of_capitalize {name word : String} (h : IsLegal name)
    (hword : decapitalize word ∈ reserved) (heq : capitalize name = word) : name = word := by
  by_cases hlow : BeginsLow name
  · rw [← heq, decapitalize_capitalize hlow] at hword
    exact absurd hword h.free
  · rwa [h.capitalize_eq hlow] at heq

/-! ## Identifiers -/

/-- What becomes of a name begins low if it is not the name itself. -/
theorem identifier_eq_or_beginsLow (name : String) :
    identifier name = name ∨ BeginsLow (identifier name) := by
  change (if identifierBase name ∈ reserved then "_" ++ identifierBase name
    else identifierBase name) = name ∨ BeginsLow (if identifierBase name ∈ reserved then
      "_" ++ identifierBase name else identifierBase name)
  split
  · exact .inr ⟨'_', _, String.toList_append, rfl⟩
  · unfold identifierBase
    split
    · exact .inl rfl
    · refine .inr ?_
      change BeginsLow (if (camelCase name).isEmpty then "value" else camelCase name)
      split
      · exact ⟨'v', "alue".toList, rfl, rfl⟩
      · next h => exact camelCase_beginsLow (by simpa using h)

/-- Of a reserved word with a capital letter only the word itself is made. -/
theorem capitalize_identifier_iff {name word : String} (hlegal : IsLegal word)
    (hcapital : ¬ BeginsLow word) (hword : decapitalize word ∈ reserved) :
    capitalize (identifier name) = word ↔ name = word := by
  constructor
  · intro h
    have heq := (identifier_isLegal name).eq_of_capitalize hword h
    rcases identifier_eq_or_beginsLow name with hname | hlow
    · rw [← hname, heq]
    · exact absurd (heq ▸ hlow) hcapital
  · rintro rfl
    rw [hlegal.identifier_eq, hlegal.capitalize_eq hcapital]

/-! ## Variants -/

/-- Only a name itself can have a capitalized form without an underscore: its other variants have
one before the number. -/
theorem variant_eq_of_capitalize {name s : String} {k : Nat} (hs : '_' ∉ s.toList)
    (h : capitalize (variant name k) = s) : variant name k = name := by
  cases k with
  | zero => rfl
  | succ k =>
    rw [capitalize_variant, variantMark] at h
    refine absurd ?_ hs
    rw [← h, String.toList_append, String.toList_append]
    exact List.mem_append_right _ (List.mem_append_left _ List.mem_cons_self)

end Naming

open Naming (capitalize identifier)
open Source (tokens)

/-- The accessors without an underscore are those of the identifiers of properties. -/
theorem Component.exists_capitalize_iff (component : Component) {s : String}
    (hs : '_' ∉ s.toList) : (∃ field ∈ component.fields, capitalize field.name = s) ↔
      ∃ property ∈ component.properties, capitalize (identifier property.name) = s := by
  have hsettles := component.settles_fields
  constructor
  · rintro ⟨field, hmem, hfield⟩
    obtain ⟨i, hi, rfl⟩ := List.mem_iff_getElem.mp hmem
    have hproperty : i < component.properties.length := hsettles.length ▸ hi
    obtain ⟨k, hname, -⟩ := hsettles.first i _ _ (List.getElem?_eq_getElem hproperty)
      (List.getElem?_eq_getElem hi)
    rw [hname] at hfield
    rw [Naming.variant_eq_of_capitalize hs hfield] at hfield
    exact ⟨_, List.getElem_mem hproperty, hfield⟩
  · rintro ⟨property, hmem, hproperty⟩
    obtain ⟨i, hi, rfl⟩ := List.mem_iff_getElem.mp hmem
    have hfield : i < component.fields.length := hsettles.length ▸ hi
    obtain ⟨k, hname, -, htaken⟩ := hsettles.first i _ _ (List.getElem?_eq_getElem hi)
      (List.getElem?_eq_getElem hfield)
    cases k with
    | zero => exact ⟨_, List.getElem_mem hfield, by rwa [hname]⟩
    -- the identifier was taken, so an earlier field has the accessor
    | succ k =>
      obtain ⟨earlier, hearlier, heq⟩ := htaken 0 (Nat.succ_pos k)
      exact ⟨earlier, List.mem_of_mem_take hearlier, heq.trans hproperty⟩

namespace Sheet

/-- The members of a model have a getter of some name exactly if one of its fields does. -/
theorem exists_getter_iff {fields : List Field} {name : String} :
    (∃ type result, Member.getter type name result ∈ fields.flatMap Field.access
      ++ fields.map fun field => .field field.type field.member) ↔
      ∃ field ∈ fields, field.getter = name := by
  constructor
  · rintro ⟨type, result, hmem⟩
    rcases List.mem_append.mp hmem with haccess | hdeclared
    · obtain ⟨field, hfield, hmember⟩ := List.mem_flatMap.mp haccess
      rcases List.mem_pair.mp hmember with hgetter | hsetter
      · cases hgetter
        exact ⟨field, hfield, rfl⟩
      · cases hsetter
    · obtain ⟨field, -, hmember⟩ := List.mem_map.mp hdeclared
      cases hmember
  · rintro ⟨field, hfield, rfl⟩
    refine ⟨field.type, field.member, List.mem_append_left _ ?_⟩
    exact List.mem_flatMap.mpr ⟨field, hfield, List.mem_cons_self⟩

/-- The model of a component declares the getter that every object has exactly if a property is
called `Class`. -/
theorem getClass_iff {document : Document} {definition : Definition}
    (h : Definition.ofDocument document = .ok definition) (config : Config)
    {component : Component} (hcomponent : component ∈ definition.components) :
    modelSource config component = Text.ofLines (modelHeader config component
      ++ modelOpening config component ++ modelBody component) ∧
    ∃ members, Source.members? (tokens (Text.ofLines (modelBody component))) = some members ∧
      ((∃ type result, Member.getter type "getClass" result ∈ members) ↔
        ∃ property ∈ component.properties, property.name = "Class") := by
  have htyped : component.IsImported := ⟨document, definition, h, hcomponent⟩
  refine ⟨modelSource_eq config component, _,
    Component.members?_modelBody (Component.isWord_fields htyped.isWord), ?_⟩
  have hmark : '_' ∉ "Class".toList := by decide
  have hlegal : Naming.IsLegal "Class" := ⟨⟨'C', _, rfl, rfl⟩, by decide, by decide⟩
  have hcapital : ¬ Naming.BeginsLow "Class" := by
    rintro ⟨first, rest, hlist, hlow⟩
    cases hlist
    exact absurd hlow (by decide)
  have hgetter (field : Field) : field.getter = "getClass" ↔ capitalize field.name = "Class" := by
    have hname : "getClass" = "get" ++ "Class" := rfl
    rw [hname, Field.getter, String.append_right_inj]
  rw [exists_getter_iff]
  calc (∃ field ∈ component.fields, field.getter = "getClass")
      ↔ ∃ field ∈ component.fields, capitalize field.name = "Class" := by
        simp only [hgetter]
    _ ↔ ∃ property ∈ component.properties, capitalize (identifier property.name) = "Class" :=
        component.exists_capitalize_iff hmark
    _ ↔ ∃ property ∈ component.properties, property.name = "Class" := by
        simp only [Naming.capitalize_identifier_iff hlegal hcapital (by decide)]

/-- Names that differ from `Class` in the case of a letter or in what is no identifier character
become other getters. -/
theorem getClass_iff_order :
    let text : Document := .map [("type", .text "string")]
    let document : Document := .map [("components", .map [("schemas", .map
      [("Order", .map [("properties", .map
        [("class", text), ("-class", text), ("CLASS", text), ("Class_1", text),
          ("Class name", text), ("Class!", text)])])])])]
    ∃ definition, Definition.ofDocument document = .ok definition ∧
      definition.components.map (·.fields.map (·.getter)) =
        [["get_class", "get_class_1", "getCLASS", "getClass_1", "getClassName", "get_class_2"]] ∧
      ∀ component ∈ definition.components,
        modelSource Launch.shop.config component = Text.ofLines
          (modelHeader Launch.shop.config component ++ modelOpening Launch.shop.config component
            ++ modelBody component) ∧
        ∃ members, Source.members? (tokens (Text.ofLines (modelBody component))) = some members ∧
          ¬ ∃ type result, Member.getter type "getClass" result ∈ members := by
  intro text document
  have hread : (Definition.ofDocument document).toOption.map
      (fun definition => (definition.components.map (·.fields.map (·.getter)),
        definition.components.map (·.properties.map (·.name)))) =
      some ([["get_class", "get_class_1", "getCLASS", "getClass_1", "getClassName", "get_class_2"]],
        [["class", "-class", "CLASS", "Class_1", "Class name", "Class!"]]) := by
    decide +kernel
  obtain ⟨definition, h, hnames⟩ := Except.exists_ok_of_map hread
  obtain ⟨hgetters, hproperties⟩ := Prod.mk.inj hnames
  obtain ⟨component, hcomponents, hproperties⟩ := List.map_eq_singleton_iff.mp hproperties
  refine ⟨definition, h, hgetters, fun other hother => ?_⟩
  obtain ⟨hsource, members, hmembers, hiff⟩ := getClass_iff h Launch.shop.config hother
  refine ⟨hsource, members, hmembers, fun hgetter => ?_⟩
  obtain ⟨property, hproperty, hname⟩ := hiff.mp hgetter
  rw [hcomponents, List.mem_singleton] at hother
  have hmem : "Class" ∈ other.properties.map (·.name) := hname ▸ List.mem_map_of_mem hproperty
  rw [hother, hproperties] at hmem
  exact absurd hmem (by decide)

/-- A property called `Class` gives its class a second `getClass`. -/
theorem getClass_declared_product :
    let document : Document := .map [("components", .map [("schemas", .map
      [("Product", .map [("properties", .map [("Class", .map [("type", .text "string")])])])])])]
    ∃ definition, Definition.ofDocument document = .ok definition ∧
      ∃ component ∈ definition.components,
        ∃ members, Source.members? (tokens (Text.ofLines (modelBody component))) = some members ∧
          Member.getter "String" "getClass" "_Class" ∈ members := by
  intro document
  have hread : (Definition.ofDocument document).toOption.map
      (·.components.map (·.fields.map fun field => (field.name, field.type))) =
      some [[("Class", "String")]] := by
    decide +kernel
  obtain ⟨definition, h, hcomponents⟩ := Except.exists_ok_of_map hread
  obtain ⟨component, hcomponents, hfields⟩ := List.map_eq_singleton_iff.mp hcomponents
  obtain ⟨field, hfields, hfield⟩ := List.map_eq_singleton_iff.mp hfields
  have hcomponent : component ∈ definition.components :=
    hcomponents ▸ List.mem_singleton_self component
  have htyped : component.IsImported := ⟨document, definition, h, hcomponent⟩
  refine ⟨definition, h, component, hcomponent, _,
    Component.members?_modelBody (Component.isWord_fields htyped.isWord), ?_⟩
  obtain ⟨name, type⟩ := field
  cases hfield
  rw [hfields]
  exact List.mem_cons_self

end Sheet

end RestModule
