import RestModule.Proofs.Spec.JavaType

/-!
# Where types lead

Three functions walk through the items of a type: one makes its Java type, one finds the declared
schema that it leads to, and one looks for the name of a schema without knowing which are declared.
Each has its own test of what a reference is and of when to go on with the items. On a type that a
schema is read as, which has items in arrays only, all of them end at the innermost type and say the
same of it (`TypeMap.walks_agree`). -/

namespace RestModule

namespace SchemaType

/-- A type that has items in arrays only. -/
inductive Regular : SchemaType → Prop where
  | flat (token : String) (format : Option String) : Regular (.mk token format none)
  | array (format : Option String) {items : SchemaType} (h : Regular items) :
      Regular (.mk "array" format (some items))

theorem Regular.items_innermost {type : SchemaType} (h : type.Regular) :
    type.innermost.items = none := by
  induction h with
  | flat token format => rfl
  | array format h ih => rwa [(innermost_array format _).1]

private theorem array_is_no_reference :
    Text.after? schemaReference "array" = none ∧ isReferenceToken "array" = false := by
  decide

theorem schemaName?_innermost (type : SchemaType) :
    type.schemaName? = type.innermost.schemaName? := by
  induction type using array_induction with
  | flat type h => rw [(innermost_of_isFlat h).1]
  | array format items ih =>
    rw [(innermost_array format items).1, schemaName?, array_is_no_reference.1]
    exact ih

/-- The tokens of the types that lead nowhere. -/
def primitives : List String := ["string", "integer", "number", "boolean", "object"]

end SchemaType

/-- A schema is read as a type that has items in arrays only. -/
theorem Document.Describes.regular {schema : Document} {type : SchemaType}
    (h : schema.Describes type) : type.Regular := by
  induction h with
  | reference _ => exact .flat _ _
  | plain _ _ _ => exact .flat _ _
  | array _ _ _ _ ih => exact .array _ ih

namespace TypeMap

open SchemaType (primitives)

variable {map : TypeMap} {type : SchemaType}

theorem referenced?_innermost (map : TypeMap) (place : String) (type : SchemaType) :
    map.referenced? place type = map.referenced? place type.innermost := by
  induction type using SchemaType.array_induction with
  | flat type h => rw [(SchemaType.innermost_of_isFlat h).1]
  | array format items ih =>
    rw [(SchemaType.innermost_array format items).1, referenced?,
      SchemaType.array_is_no_reference.2, if_neg Bool.false_ne_true]
    exact ih

/-! ## Innermost types -/

/-- What a type without items leads to. -/
inductive Leads (map : TypeMap) : SchemaType → Option String → Prop where
  | nowhere {token : String} (format : Option String) (h : token ∈ primitives) :
      Leads map (.mk token format none) none
  | model {name : String} (format : Option String) (h : name ∈ map.schemas) :
      Leads map (.mk (schemaReference ++ name) format none) (some name)

/-- A type without items that has a Java type is a primitive, or refers to a declared schema whose
class is that type. -/
theorem Spells.leads {javaType : String} (h : map.Spells type javaType)
    (hitems : type.items = none) :
    ∃ target, map.Leads type target ∧ ∀ name ∈ target, javaType = Naming.modelClass name := by
  obtain ⟨token, format, items⟩ := type
  obtain rfl : items = none := hitems
  have hprimitive (hmem : token ∈ primitives) : ∃ target,
      map.Leads (.mk token format none) target ∧
        ∀ name ∈ target, javaType = Naming.modelClass name :=
    ⟨none, .nowhere format hmem, nofun⟩
  cases h with
  | date h =>
    apply hprimitive
    rw [show token = "string" from h.1]
    exact List.mem_cons_self
  | string htoken _ =>
    apply hprimitive
    rw [show token = "string" from htoken]
    exact List.mem_cons_self
  | int32 | integer | float | number | boolean | object => exact hprimitive (by decide)
  | model _ _ h =>
    refine ⟨some _, .model format h, fun name hname => ?_⟩
    rw [Option.mem_some_iff.mp hname]

private theorem primitive_is_no_reference : ∀ token ∈ primitives,
    Text.after? schemaReference token = none ∧ SchemaType.isReferenceToken token = false := by
  decide

private theorem ne_schemaReference {token : String} (h : token ∈ primitives) (name : String) :
    token ≠ schemaReference ++ name := by
  rintro rfl
  have hnone := (primitive_is_no_reference _ h).1
  rw [Text.after?_append] at hnone
  cases hnone

namespace Leads

variable {target : Option String}

theorem schemaName? (h : map.Leads type target) : type.schemaName? = target := by
  cases h with
  | nowhere format h =>
    unfold SchemaType.schemaName?
    rw [(primitive_is_no_reference _ h).1]
  | model format _ =>
    unfold SchemaType.schemaName?
    rw [Text.after?_append]

theorem referenced? (h : map.Leads type target) (place : String) :
    map.referenced? place type = .ok target := by
  cases h with
  | nowhere format h =>
    unfold TypeMap.referenced?
    rw [(primitive_is_no_reference _ h).2, if_neg Bool.false_ne_true]
  | model format h =>
    unfold TypeMap.referenced?
    rw [if_pos (isReferenceToken_schemaReference _), resolve_schemaReference h]
    rfl

theorem eq_some_iff (h : map.Leads type target) {name : String} :
    target = some name ↔ type.token = schemaReference ++ name := by
  cases h with
  | nowhere format h => exact ⟨nofun, fun htoken => absurd htoken (ne_schemaReference h name)⟩
  | model format _ =>
    rw [Option.some_inj]
    exact (String.append_right_inj schemaReference).symm

theorem eq_none_iff (h : map.Leads type target) : target = none ↔ type.token ∈ primitives := by
  cases h with
  | nowhere format h => exact ⟨fun _ => h, fun _ => rfl⟩
  | @model name format _ => exact ⟨nofun, fun hmem => absurd rfl (ne_schemaReference hmem name)⟩

theorem mem_schemas {name : String} (h : map.Leads type (some name)) : name ∈ map.schemas := by
  cases h with
  | model _ h => exact h

end Leads

/-! ## All types -/

/-- The walks over a type with a Java type: they find the same schema or none, by the innermost type
alone, and the Java type is the class of the schema with a pair of brackets for each array. -/
structure WalksAgree (map : TypeMap) (type : SchemaType) (javaType : String) : Prop where
  inmost : type.innermost.items = none
  same : ∀ place, map.referenced? place type = .ok type.schemaName?
  model : ∀ name, type.schemaName? = some name ↔ type.innermost.token = schemaReference ++ name
  known : ∀ name, type.schemaName? = some name →
    name ∈ map.schemas ∧ javaType = Naming.modelClass name ++ brackets type.levels
  primitive : type.schemaName? = none ↔ type.innermost.token ∈ primitives

/-- The walks over the type of a schema agree. -/
theorem walks_agree {schema : Document} {location use javaType : String}
    (hread : SchemaType.ofDocument location schema = .ok type)
    (hmap : map.javaType use type = .ok javaType) : map.WalksAgree type javaType := by
  have hregular := (SchemaType.ofDocument_eq_ok_iff.mp hread).regular
  obtain ⟨element, hspells, rfl⟩ := javaType_eq_ok_iff.mp hmap
  obtain ⟨target, hleads, hclass⟩ := hspells.leads hregular.items_innermost
  have hname : type.schemaName? = target := by
    rw [SchemaType.schemaName?_innermost]
    exact hleads.schemaName?
  refine ⟨hregular.items_innermost, ?same, ?model, ?known, ?primitive⟩
  case same =>
    intro place
    rw [referenced?_innermost, hleads.referenced?, hname]
  case model =>
    intro name
    rw [hname]
    exact hleads.eq_some_iff
  case known =>
    intro name h
    obtain rfl : target = some name := hname.symm.trans h
    exact ⟨hleads.mem_schemas, by rw [hclass name rfl]⟩
  case primitive =>
    rw [hname]
    exact hleads.eq_none_iff

/-- A list of lists that may be null, of a schema whose class is called otherwise. -/
theorem walks_agree_lines :
    let map : TypeMap := ⟨["string", "order-line"]⟩
    let lines : Document := .map [("type", .text "array"),
      ("items", .map [("$ref", .text "#/components/schemas/order-line"), ("type", .text "string")])]
    let schema : Document := .map [("type", .list [.text "null", .text "array"]), ("items", lines)]
    let type : SchemaType := .mk "array" none (some (.mk "array" none
      (some (.ofToken "#/components/schemas/order-line"))))
    SchemaType.ofDocument "schema" schema = .ok type ∧
      map.javaType "here" type = .ok "OrderLineDTO[][]" ∧
      map.WalksAgree type "OrderLineDTO[][]" ∧
      map.referenced? "here" type = .ok (some "order-line") := by
  intro map lines schema type
  have hread : SchemaType.ofDocument "schema" schema = .ok type := rfl
  have hmap : map.javaType "here" type = .ok "OrderLineDTO[][]" := by decide +kernel
  have h := walks_agree hread hmap
  exact ⟨hread, hmap, h, h.same "here"⟩

end TypeMap

end RestModule
