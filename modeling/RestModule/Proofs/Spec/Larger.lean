import RestModule.Proofs.Except
import RestModule.Spec.Import

/-!
# More schemas

What is read against the schemas that a type map knows is read alike against more of them: a
reference that leads to a schema still leads there, and nothing is read from a reference that leads
nowhere. So every reader refines itself when the type map grows
(`Declarations.schemaComponent_refines`, `Operation.ofPaths_refines`). -/

namespace RestModule

open RestModule.Except (Refines)

variable {map larger : TypeMap}

namespace TypeMap

theorem resolve_refines (h : map.schemas ⊆ larger.schemas) (reference location : String) :
    Refines (map.resolve reference location) (larger.resolve reference location) := by
  intro name hname
  unfold resolve at hname ⊢
  split at hname
  · next found _ =>
    split at hname
    · next hmem => exact (if_pos (h hmem)).trans hname
    · cases hname
  · cases hname

theorem javaType_refines (h : map.schemas ⊆ larger.schemas) (location : String) :
    ∀ type, Refines (map.javaType location type) (larger.javaType location type)
  | .mk token format items => by
    unfold javaType
    split
    · exact (resolve_refines h token location).map _
    · split
      · cases items with
        | none => exact .refl _
        | some items => exact (javaType_refines h location items).map _
      · exact .refl _

theorem referenced?_refines (h : map.schemas ⊆ larger.schemas) (location : String) :
    ∀ type, Refines (map.referenced? location type) (larger.referenced? location type)
  | .mk token format items => by
    unfold referenced?
    split
    · exact (resolve_refines h token location).map _
    · cases items with
      | none => exact .refl _
      | some items => exact referenced?_refines h location items

theorem schemaBody_refines (h : map.schemas ⊆ larger.schemas) (location : String)
    (schema : Document) : Refines (map.schemaBody location schema)
      (larger.schemaBody location schema) := by
  have hbody : ∀ reference collection,
      Refines (map.bodyOf location reference collection)
        (larger.bodyOf location reference collection) :=
    fun reference _ => (resolve_refines h reference location).map _
  unfold schemaBody
  split
  · exact hbody _ _
  · split
    · exact hbody _ _
    · exact .refl _

end TypeMap

/-! ## Components -/

namespace Declarations

theorem property_refines (h : map.schemas ⊆ larger.schemas) (location name : String)
    (type : SchemaType) : Refines (property map location name type)
      (property larger location name type) :=
  (TypeMap.javaType_refines h location type).map _

theorem schemaComponent_refines (h : map.schemas ⊆ larger.schemas) (name : String)
    (properties : List (String × SchemaType)) : Refines (schemaComponent map name properties)
      (schemaComponent larger name properties) :=
  .map (.mapM (fun _ => property_refines h _ _ _) properties) _

theorem parameterComponent_refines (h : map.schemas ⊆ larger.schemas) (name : String)
    (raw : RawParameter) : Refines (parameterComponent map name raw)
      (parameterComponent larger name raw) :=
  (property_refines h _ _ _).map _

end Declarations

/-! ## Operations -/

namespace Operation

variable {shared : List (String × RawParameter)}

theorem placedParameters_refines (h : map.schemas ⊆ larger.schemas) (location : String)
    (raws : List RawParameter) : Refines (placedParameters map location raws)
      (placedParameters larger location raws) := by
  induction raws with
  | nil => exact .refl _
  | cons raw rest ih =>
    unfold placedParameters
    split
    · exact ih
    · refine .bind (.bind ?_ fun _ => .bind ?_ fun _ => .refl _) fun _ => .bind ih fun _ => .refl _
      · exact TypeMap.javaType_refines h _ raw.type
      · exact TypeMap.referenced?_refines h _ raw.type

theorem bodyAt_refines (h : map.schemas ⊆ larger.schemas) (location : String)
    (document : Document) : Refines (bodyAt map location document)
      (bodyAt larger location document) := by
  refine .bind (.refl _) fun _ => ?_
  split
  · exact .refl _
  · split
    · exact TypeMap.schemaBody_refines h location _
    · exact .refl _

theorem requestOf_refines (h : map.schemas ⊆ larger.schemas) (location : String)
    (entries : List (String × Document)) : Refines (requestOf map location entries)
      (requestOf larger location entries) := by
  unfold requestOf
  split
  · exact bodyAt_refines h _ _
  · exact .refl _

theorem responseOf_refines (h : map.schemas ⊆ larger.schemas) (location : String)
    (entries : List (String × Document)) : Refines (responseOf map location entries)
      (responseOf larger location entries) := by
  unfold responseOf
  split
  · exact .refl _
  · refine .bind (.refl _) fun _ => ?_
    split
    · exact bodyAt_refines h _ _
    · exact .refl _

theorem ofEntries_refines (h : map.schemas ⊆ larger.schemas) (item : PathItem) (verb : Verb)
    (location : String) (entries : List (String × Document)) :
    Refines (ofEntries map shared item verb location entries)
      (ofEntries larger shared item verb location entries) :=
  .bind (.refl _) fun _ => .bind (placedParameters_refines h location _) fun _ =>
    .bind (requestOf_refines h location entries) fun _ =>
      .bind (responseOf_refines h location entries) fun _ => .refl _

theorem ofItem_refines (h : map.schemas ⊆ larger.schemas) (path : String) (document : Document) :
    Refines (ofItem map shared path document) (ofItem larger shared path document) :=
  .bind (.refl _) fun read => .mapM
    (fun _ => .bind (.refl _) fun entries => ofEntries_refines h read.1 _ _ entries) _

theorem ofPaths_refines (h : map.schemas ⊆ larger.schemas) (paths : List (String × Document)) :
    Refines (ofPaths map shared paths) (ofPaths larger shared paths) :=
  .map (.mapM (fun _ => ofItem_refines h _ _) paths) _

end Operation

end RestModule
