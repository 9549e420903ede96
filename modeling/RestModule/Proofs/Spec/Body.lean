import RestModule.Proofs.Spec.JavaType
import RestModule.Proofs.Spec.Uses

/-!
# The bodies of schemas

A schema is read twice: as a type, where it stands for a property or a parameter, and for the
reference in it, where it stands for a body. The two agree exactly if the schema shows its body
(`TypeMap.schemaBody_follows_iff`). One that does not is an array of references whose `type` is a list
of alternatives, has a reference as its `type`, or a `$ref` that is no reference. -/

namespace RestModule

/-- A type is a body: a reference to a schema, or an array of references to it. -/
inductive SchemaType.IsBody : SchemaType → Body → Prop where
  | reference (model : String) (format : Option String) (items : Option SchemaType) :
      IsBody (.mk (schemaReference ++ model) format items) ⟨model, false⟩
  | array (model : String) (format inner : Option String) (items : Option SchemaType) :
      IsBody (.mk "array" format (some (.mk (schemaReference ++ model) inner items))) ⟨model, true⟩

namespace Document

/-- The text that a schema has where a body is looked for: its own `$ref`, or that of the items of a
plain array. -/
inductive BodyReference (schema : Document) : String → Bool → Prop where
  | own {reference : String} (href : schema.textAt? "$ref" = some reference) :
      BodyReference schema reference false
  | items {reference : String} (href : schema.textAt? "$ref" = none)
      (htype : schema.textAt? "type" = some "array")
      (hitems : (schema.get? "items").bind (·.textAt? "$ref") = some reference) :
      BodyReference schema reference true

/-- A schema of a type shows its body: there is a reference where a body is looked for if the type is
a body, and what is there is a reference. -/
structure ShowsBody (schema : Document) (type : SchemaType) : Prop where
  shown : ∀ body, type.IsBody body → ∃ reference, schema.BodyReference reference body.collection
  reference : ∀ reference collection, schema.BodyReference reference collection →
    ∃ model, reference = schemaReference ++ model

variable {schema : Document} {type : SchemaType}

theorem textAt?_map_eq_some_iff {key value : String} {entries : List (String × Document)} :
    (Document.map entries).textAt? key = some value ↔ entries.lookup key = some (.text value) := by
  simp only [textAt?, get?, Option.bind_eq_some_iff, text?_eq_some_iff, exists_eq_right]

theorem Describes.eq_ofToken {reference : String} (h : schema.Describes type)
    (href : schema.textAt? "$ref" = some reference) : type = .ofToken reference := by
  cases h with
  | reference hother => rw [Option.some.inj (href.symm.trans hother)]
  | plain hnone _ _ => cases href.symm.trans hnone
  | array hnone _ _ _ => cases href.symm.trans hnone

theorem Keyword.eq_of_text {entries : List (String × Document)} {token other : String}
    (h : Keyword entries token) (htype : entries.lookup "type" = some (.text other)) :
    token = other := by
  cases h with
  | text htoken =>
    cases htype.symm.trans htoken
    rfl
  | first hlist _ _ => cases htype.symm.trans hlist

/-- A plain array whose items have a `$ref` is an array of what that says. -/
theorem Describes.eq_array {reference : String} (h : schema.Describes type)
    (href : schema.textAt? "$ref" = none) (htype : schema.textAt? "type" = some "array")
    (hitems : (schema.get? "items").bind (·.textAt? "$ref") = some reference) :
    ∃ format, type = .mk "array" format (some (.ofToken reference)) := by
  obtain ⟨items, hlookup, hreference⟩ := Option.bind_eq_some_iff.mp hitems
  cases h with
  | reference hother => cases href.symm.trans hother
  | plain _ htoken hnone =>
    obtain rfl := htoken.eq_of_text (textAt?_map_eq_some_iff.mp htype)
    cases (hnone rfl).symm.trans hlookup
  | array _ _ hother hinner =>
    cases hother.symm.trans hlookup
    rw [hinner.eq_ofToken hreference]
    exact ⟨_, rfl⟩

/-- Where a body is looked for, a schema of a body has the reference that makes it one. -/
theorem BodyReference.isBody_iff {reference : String} {collection : Bool} {body : Body}
    (h : schema.BodyReference reference collection) (hdescribes : schema.Describes type) :
    type.IsBody body ↔ reference = schemaReference ++ body.model ∧ body.collection = collection := by
  obtain ⟨model, isCollection⟩ := body
  cases h with
  | own href =>
    rw [hdescribes.eq_ofToken href]
    constructor
    · intro h
      cases h
      exact ⟨rfl, rfl⟩
    · rintro ⟨rfl, rfl⟩
      exact .reference model none none
  | items href htype hitems =>
    obtain ⟨format, rfl⟩ := hdescribes.eq_array href htype hitems
    constructor
    · intro h
      generalize htoken : "array" = token at h
      cases h with
      | reference =>
        have hnone : Text.after? schemaReference "array" = none := by decide
        rw [htoken, Text.after?_append] at hnone
        cases hnone
      | array => exact ⟨rfl, rfl⟩
    · rintro ⟨rfl, rfl⟩
      exact .array model format none none

end Document

namespace TypeMap

variable {map : TypeMap} {schema : Document} {type : SchemaType} {location : String}

theorem mem_schemas_of_isBody {javaType : String} {body : Body}
    (hmap : map.javaType location type = .ok javaType) (h : type.IsBody body) :
    body.model ∈ map.schemas := by
  have hreference : ∀ {model : String} {format items javaType},
      map.javaType location (.mk (schemaReference ++ model) format items) = .ok javaType →
        model ∈ map.schemas := by
    intro model format items javaType hmap
    unfold TypeMap.javaType at hmap
    rw [if_pos (isReferenceToken_schemaReference model)] at hmap
    obtain ⟨name, hname, -⟩ := Except.map_ok hmap
    have hafter := after?_of_resolve hname
    rw [Text.after?_append] at hafter
    obtain rfl := Option.some.inj hafter
    exact (resolve_ok hname).1
  cases h with
  | reference => exact hreference hmap
  | array =>
    rw [javaType_array] at hmap
    obtain ⟨inner, hinner, -⟩ := Except.map_ok hmap
    exact hreference hinner

/-- A schema is a body by the reference where a body is looked for. -/
theorem schemaBody_of_bodyReference {reference : String} {collection : Bool}
    (h : schema.BodyReference reference collection) :
    map.schemaBody location schema = map.bodyOf location reference collection := by
  cases h with
  | own href => rw [schemaBody, href]
  | items href htype hitems => simp only [schemaBody, href, htype, hitems]

theorem schemaBody_of_not_bodyReference
    (h : ∀ reference collection, ¬ schema.BodyReference reference collection) :
    map.schemaBody location schema = .ok none := by
  unfold schemaBody
  split
  · next href => exact absurd (.own href) (h _ _)
  · next href =>
    split
    · next htype hitems => exact absurd (.items href htype hitems) (h _ _)
    · rfl

theorem bodyOf_schemaReference {model : String} (h : model ∈ map.schemas) (location : String)
    (collection : Bool) :
    map.bodyOf location (schemaReference ++ model) collection = .ok (some ⟨model, collection⟩) := by
  rw [bodyOf, resolve_schemaReference h]
  rfl

theorem bodyOf_of_ne {reference : String} (h : ∀ model, reference ≠ schemaReference ++ model)
    (location : String) (collection : Bool) :
    map.bodyOf location reference collection = .error (.unresolved reference location) := by
  have hnone : Text.after? schemaReference reference = none := by
    cases hafter : Text.after? schemaReference reference with
    | none => rfl
    | some model => exact absurd (Text.after?_eq_some_iff.mp hafter) (h model)
  rw [bodyOf, resolve, hnone]
  rfl

/-- The body of a schema is the one that its type is. -/
structure FollowsType (map : TypeMap) (location : String) (schema : Document) (type : SchemaType) :
    Prop where
  bound : ∀ body, map.schemaBody location schema = .ok (some body) ↔ type.IsBody body
  unbound : map.schemaBody location schema = .ok none ↔ ∀ body, ¬ type.IsBody body

/-- How a body is read off a schema of a type. -/
structure ReadsBody (map : TypeMap) (location : String) (schema : Document) (type : SchemaType) :
    Prop where
  follows : map.FollowsType location schema type ↔ schema.ShowsBody type
  found : ∀ model collection, schema.BodyReference (schemaReference ++ model) collection →
    type.IsBody ⟨model, collection⟩ ∧
      map.schemaBody location schema = .ok (some ⟨model, collection⟩)
  unresolved : ∀ reference collection, schema.BodyReference reference collection →
    (∀ model, reference ≠ schemaReference ++ model) →
      (∀ body, ¬ type.IsBody body) ∧
        map.schemaBody location schema = .error (.unresolved reference location)
  /-- Where no reference is found there is no body, even if the type is one. -/
  unseen : (∀ reference collection, ¬ schema.BodyReference reference collection) →
    map.schemaBody location schema = .ok none

section Agreement

variable {use javaType : String} (hdescribes : schema.Describes type)
include hdescribes

theorem schemaBody_found (hmap : map.javaType use type = .ok javaType) (location : String)
    {model : String} {collection : Bool}
    (h : schema.BodyReference (schemaReference ++ model) collection) :
    type.IsBody ⟨model, collection⟩ ∧
      map.schemaBody location schema = .ok (some ⟨model, collection⟩) := by
  have hbody : type.IsBody ⟨model, collection⟩ := (h.isBody_iff hdescribes).mpr ⟨rfl, rfl⟩
  refine ⟨hbody, ?_⟩
  rw [schemaBody_of_bodyReference h, bodyOf_schemaReference (mem_schemas_of_isBody hmap hbody)]

theorem schemaBody_unresolved (map : TypeMap) (location : String) {reference : String}
    {collection : Bool} (h : schema.BodyReference reference collection)
    (hne : ∀ model, reference ≠ schemaReference ++ model) :
    (∀ body, ¬ type.IsBody body) ∧
      map.schemaBody location schema = .error (.unresolved reference location) := by
  refine ⟨fun body hbody => hne _ ((h.isBody_iff hdescribes).mp hbody).1, ?_⟩
  rw [schemaBody_of_bodyReference h, bodyOf_of_ne hne]

theorem FollowsType.showsBody (h : map.FollowsType location schema type) : schema.ShowsBody type where
  shown body hbody := by
    by_contra hnone
    have hunseen : map.schemaBody location schema = .ok none := by
      refine schemaBody_of_not_bodyReference fun reference collection href => hnone ⟨reference, ?_⟩
      rwa [((href.isBody_iff hdescribes).mp hbody).2]
    exact h.unbound.mp hunseen body hbody
  reference reference collection href := by
    by_contra hne
    obtain ⟨hno, herror⟩ :=
      schemaBody_unresolved hdescribes map location href (not_exists.mp hne)
    cases herror.symm.trans (h.unbound.mpr hno)

theorem followsType_of_bodyReference (hmap : map.javaType use type = .ok javaType)
    (location : String) {model : String} {collection : Bool}
    (h : schema.BodyReference (schemaReference ++ model) collection) :
    map.FollowsType location schema type := by
  obtain ⟨hbody, hresult⟩ := schemaBody_found hdescribes hmap location h
  have hunique : ∀ body, type.IsBody body ↔ body = ⟨model, collection⟩ := by
    rintro ⟨other, isCollection⟩
    rw [h.isBody_iff hdescribes, Body.mk.injEq, String.append_right_inj, eq_comm (a := model)]
  constructor
  · intro body
    rw [hresult, hunique, Except.ok.injEq, Option.some.injEq, eq_comm]
  · rw [hresult]
    exact ⟨nofun, fun hno => absurd hbody (hno _)⟩

theorem followsType_iff (hmap : map.javaType use type = .ok javaType) (location : String) :
    map.FollowsType location schema type ↔ schema.ShowsBody type := by
  refine ⟨fun h => h.showsBody hdescribes, fun hshows => ?_⟩
  by_cases hseen : ∃ reference collection, schema.BodyReference reference collection
  · obtain ⟨reference, collection, h⟩ := hseen
    obtain ⟨model, rfl⟩ := hshows.reference reference collection h
    exact followsType_of_bodyReference hdescribes hmap location h
  · have hno : ∀ body, ¬ type.IsBody body := fun body hbody => by
      obtain ⟨reference, h⟩ := hshows.shown body hbody
      exact hseen ⟨reference, _, h⟩
    have hresult : map.schemaBody location schema = .ok none :=
      schemaBody_of_not_bodyReference fun reference collection h => hseen ⟨reference, collection, h⟩
    constructor
    · intro body
      rw [hresult]
      exact ⟨nofun, fun hbody => absurd hbody (hno body)⟩
    · exact ⟨fun _ => hno, fun _ => hresult⟩

end Agreement

/-- A schema that is read as a type is read as the same body exactly if it shows its body. -/
theorem schemaBody_follows_iff {place use javaType : String}
    (hread : SchemaType.ofDocument place schema = .ok type)
    (hmap : map.javaType use type = .ok javaType) (location : String) :
    map.ReadsBody location schema type := by
  have hdescribes : schema.Describes type := SchemaType.ofDocument_eq_ok_iff.mp hread
  constructor
  case follows => exact followsType_iff hdescribes hmap location
  case found =>
    intro model collection h
    exact schemaBody_found hdescribes hmap location h
  case unresolved =>
    intro reference collection h hne
    exact schemaBody_unresolved hdescribes map location h hne
  case unseen => exact schemaBody_of_not_bodyReference

/-- A schema of orders, whose own type is given by a document. -/
def ordersOf (keyword : Document) : Document :=
  .map [("type", keyword), ("items", .map [("$ref", .text "#/components/schemas/Order")])]

/-- The type of a list of orders. -/
def ordersType : SchemaType :=
  .mk "array" none (some (.ofToken "#/components/schemas/Order"))

theorem schemaBody_follows_orders :
    let map : TypeMap := ⟨["Order"]⟩
    SchemaType.ofDocument "schema" (ordersOf (.text "array")) = .ok ordersType ∧
      map.javaType "body" ordersType = .ok "OrderDTO[]" ∧
      map.ReadsBody "body" (ordersOf (.text "array")) ordersType ∧
      map.schemaBody "body" (ordersOf (.text "array")) = .ok (some ⟨"Order", true⟩) := by
  intro map
  have hread : SchemaType.ofDocument "schema" (ordersOf (.text "array")) = .ok ordersType := rfl
  have hmap : map.javaType "body" ordersType = .ok "OrderDTO[]" := rfl
  have h := schemaBody_follows_iff hread hmap "body"
  refine ⟨hread, hmap, h, (h.found "Order" true ?_).2⟩
  exact .items rfl rfl rfl

/-- A list of orders that may be null is a list of orders for every other reader, but no body. -/
theorem nullable_orders_unbound :
    let map : TypeMap := ⟨["Order"]⟩
    let nullable := ordersOf (.list [.text "array", .text "null"])
    SchemaType.ofDocument "schema" nullable = .ok ordersType ∧
      map.javaType "body" ordersType = .ok "OrderDTO[]" ∧
      ordersType.IsBody ⟨"Order", true⟩ ∧
      map.schemaBody "body" nullable = .ok none ∧
      ¬ map.FollowsType "body" nullable ordersType := by
  intro map nullable
  have hbody : ordersType.IsBody ⟨"Order", true⟩ := .array "Order" none none none
  have hnone : map.schemaBody "body" nullable = .ok none := rfl
  exact ⟨rfl, rfl, hbody, hnone, fun h => h.unbound.mp hnone _ hbody⟩

end TypeMap

end RestModule
