import RestModule.Proofs.Spec.Mention
import RestModule.Source.Signature
import Mathlib.Data.List.Nodup

/-!
# Routes

The annotations of an interface method say which requests it takes: those of a verb to a path below
the resource. A resource has one route for each operation that the description mentions for it, and
two of them are the same where the description tells the operations apart by nothing but slashes, the
spelling of the first segment or the case of the verb (`Definition.routes_apart_iff`). -/

namespace RestModule

/-! ## Annotations -/

namespace Marker

/-- The verb that an annotation names. -/
def verb? : Marker → Option Verb
  | verb v => some v
  | _ => none

/-- The path that an annotation names. -/
def path? : Marker → Option String
  | path value => some value
  | _ => none

/-- The routes that the annotations of a method declare. -/
def routes (markers : List Marker) : List (Verb × String) :=
  (markers.filterMap verb?).product (markers.filterMap path?)

end Marker

namespace Method

/-- The route of a method. -/
def route (method : Method) : Verb × String :=
  (method.verb, method.relativePath)

theorem filterMap_markers {α : Type} {read : Marker → Option α} {a : α} {method : Method}
    (h : method.ownMarkers.filterMap read = [a]) : method.markers.filterMap read = [a] := by
  have hperm : (method.markers.filterMap read).Perm (method.ownMarkers.filterMap read) :=
    (List.mergeSort_perm _ _).filterMap read
  rw [h] at hperm
  exact hperm.eq_singleton

theorem routes_markers (method : Method) : Marker.routes method.markers = [method.route] := by
  have hverb : method.ownMarkers.filterMap Marker.verb? = [method.verb] := by
    unfold ownMarkers
    cases method.request <;> cases method.response <;> rfl
  have hpath : method.ownMarkers.filterMap Marker.path? = [method.relativePath] := by
    unfold ownMarkers
    cases method.request <;> cases method.response <;> rfl
  rw [Marker.routes, filterMap_markers hverb, filterMap_markers hpath]
  rfl

end Method

/-- The routes that the interface of a resource declares. -/
def Resource.routes (resource : Resource) : List (Verb × String) :=
  resource.methods.flatMap fun method => Marker.routes method.markers

theorem Resource.routes_eq (resource : Resource) :
    resource.routes = resource.methods.map Method.route := by
  rw [routes, List.map_eq_flatMap]
  exact congrArg (List.flatMap · _) (funext Method.routes_markers)

/-! ## Mentions -/

/-- The route of a mention: its key in lower case, and its path below the first segment. -/
def Mention.route (mention : Mention) : String × String :=
  (mention.key.toLower, "/" ++ Operation.belowSegment mention.path)

/-- Two mentions of one resource have the same route. -/
def Mention.SameRoute (a b : Mention) : Prop :=
  a.resource = b.resource ∧ a.route = b.route

instance : DecidableRel Mention.SameRoute :=
  fun _ _ => inferInstanceAs (Decidable (_ ∧ _))

theorem Mention.pairwise_of_nodup {mentions : List Mention}
    (h : (mentions.map fun mention => (mention.resource, mention.route)).Nodup) :
    mentions.Pairwise fun a b => ¬ a.SameRoute b := by
  rw [List.Nodup, List.pairwise_map] at h
  refine h.imp ?_
  rintro a b hne ⟨hresource, hroute⟩
  rw [hresource, hroute] at hne
  exact hne rfl

theorem Verb.key_injective : Function.Injective Verb.key := by
  intro a b h
  cases a <;> cases b <;> first | rfl | exact absurd h (by decide)

/-- The key and path of a route, as mentions have them. -/
def Verb.spelled (route : Verb × String) : String × String :=
  (route.1.key, route.2)

theorem Verb.spelled_injective : Function.Injective Verb.spelled :=
  fun _ _ h => Prod.ext (key_injective (congrArg Prod.fst h)) (congrArg (·.2) h)

theorem Mention.Answers.spelled_route {mention : Mention} {method : Method}
    (h : mention.Answers method) : Verb.spelled method.route = mention.route :=
  Prod.ext h.verb.symm h.relativePath

namespace Resource

theorem spelled_routes {mentions : List Mention} {methods : List Method}
    (h : List.Forall₂ Mention.Answers mentions methods) :
    (methods.map Method.route).map Verb.spelled = mentions.map Mention.route := by
  induction h with
  | nil => rfl
  | cons hfirst _ ih => exact congrArg₂ List.cons hfirst.spelled_route ih

/-- Mentions of different resources never have the same route, so those of each resource may be
looked at on their own. -/
theorem pairwise_sameRoute_iff (mentions : List Mention) :
    (mentions.Pairwise fun a b => ¬ a.SameRoute b) ↔
      ∀ mention ∈ mentions,
        ((mentions.filter (·.resource == mention.resource)).map Mention.route).Nodup := by
  constructor
  · intro h mention _
    have hname : ∀ c ∈ mentions.filter (·.resource == mention.resource),
        c.resource = mention.resource := fun c hc => eq_of_beq (List.mem_filter.mp hc).2
    have hapart := h.filter (·.resource == mention.resource)
    rw [List.Nodup, List.pairwise_map]
    refine hapart.imp_of_mem ?_
    intro a b ha hb hab hroute
    exact hab ⟨(hname a ha).trans (hname b hb).symm, hroute⟩
  · intro h
    rw [List.pairwise_iff_forall_sublist]
    rintro a b hsub ⟨hresource, hroute⟩
    have hmem : a ∈ mentions := hsub.subset List.mem_cons_self
    have hpair : [a, b].filter (·.resource == a.resource) = [a, b] := by
      refine List.filter_eq_self.mpr (List.forall_mem_cons.mpr ⟨beq_self_eq_true _, ?_⟩)
      exact List.forall_mem_singleton.mpr (beq_iff_eq.mpr hresource.symm)
    have hnodup : (([a, b].filter (·.resource == a.resource)).map Mention.route).Nodup :=
      (h a hmem).sublist ((hsub.filter _).map _)
    rw [hpair, List.map_cons, List.map_singleton, List.nodup_cons] at hnodup
    exact hnodup.1 (List.mem_singleton.mpr hroute)

theorem Group.routes_nodup_iff {mentions : List Mention} {resources : List Resource}
    (h : Group mentions resources) :
    (∀ resource ∈ resources, (resource.methods.map Method.route).Nodup) ↔
      mentions.Pairwise fun a b => ¬ a.SameRoute b := by
  rw [pairwise_sameRoute_iff]
  have hroutes : ∀ resource ∈ resources, (resource.methods.map Method.route).Nodup ↔
      ((mentions.filter (·.resource == resource.name)).map Mention.route).Nodup := by
    intro resource hresource
    rw [← spelled_routes (h.methods resource hresource)]
    exact (List.nodup_map_iff Verb.spelled_injective).symm
  constructor
  · intro hnodup mention hmention
    obtain ⟨resource, hresource, hname⟩ := h.complete mention hmention
    rw [← hname]
    exact (hroutes resource hresource).mp (hnodup resource hresource)
  · intro hnodup resource hresource
    rw [hroutes resource hresource]
    -- a resource has a method, and so a mention
    cases hmentions : mentions.filter (·.resource == resource.name) with
    | nil => exact .nil
    | cons mention rest =>
      have hfirst := List.mem_filter.mp (hmentions ▸ List.mem_cons_self :
        mention ∈ mentions.filter (·.resource == resource.name))
      have hall := hnodup mention hfirst.1
      rwa [eq_of_beq hfirst.2, hmentions] at hall

end Resource

namespace Definition

/-- The interface of a resource declares one route for each operation that the description mentions
for the resource. So no two methods of a resource have the same verb and path exactly if no two
mentions have the same route. -/
theorem routes_apart_iff {document : Document} {definition : Definition}
    (h : ofDocument document = .ok definition) :
    (∀ resource ∈ definition.resources,
      resource.routes = resource.methods.map (fun method => (method.verb, method.relativePath)) ∧
        resource.routes.map Verb.spelled =
          (document.mentions.filter (·.resource == resource.name)).map Mention.route) ∧
      ((∀ resource ∈ definition.resources,
          resource.methods.Pairwise fun a b =>
            ¬ (a.verb = b.verb ∧ a.relativePath = b.relativePath)) ↔
        document.mentions.Pairwise fun a b => ¬ a.SameRoute b) := by
  obtain ⟨_, _, _, _, rfl, -, -, hoperations, rfl⟩ := ofDocument_eq_ok_iff.mp h
  have hgroup := Resource.group_of_reads (reads_operationsOf hoperations)
  constructor
  · intro resource hresource
    refine ⟨resource.routes_eq, ?_⟩
    rw [resource.routes_eq]
    exact Resource.spelled_routes (hgroup.methods resource hresource)
  · rw [← hgroup.routes_nodup_iff]
    simp only [List.Nodup, List.pairwise_map, Method.route, ne_eq, Prod.mk.injEq]

/-- Paths and keys that are spelled alike and yet have routes of their own. -/
theorem routes_apart_order :
    let document : Document := .map [("paths", .map
      [("/order", .map [("get", .map []), ("POST", .map [])]),
        ("/Order//", .map [("Get", .map [])]),
        ("/orders", .map [("get", .map [])])])]
    ∃ definition, ofDocument document = .ok definition ∧
      definition.resources.map (fun resource => (resource.name, resource.routes)) =
        [("order", [(.get, "/"), (.post, "/"), (.get, "//")]), ("orders", [(.get, "/")])] ∧
      ∀ resource ∈ definition.resources, resource.methods.Pairwise fun a b =>
        ¬ (a.verb = b.verb ∧ a.relativePath = b.relativePath) := by
  intro document
  have hread : (ofDocument document).toOption.map (fun definition =>
      definition.resources.map fun resource =>
        (resource.name, resource.methods.map Method.route)) =
      some [("order", [(.get, "/"), (.post, "/"), (.get, "//")]), ("orders", [(.get, "/")])] := by
    decide +kernel
  obtain ⟨definition, h, hroutes⟩ := Except.exists_ok_of_map hread
  simp only [← Resource.routes_eq] at hroutes
  have hmentions : document.mentions.map (fun mention => (mention.resource, mention.route)) =
      [("order", "get", "/"), ("order", "post", "/"), ("order", "get", "//"),
        ("orders", "get", "/")] := by
    decide +kernel
  refine ⟨definition, h, hroutes, (routes_apart_iff h).2.mpr ?_⟩
  apply Mention.pairwise_of_nodup
  rw [hmentions]
  decide

/-- A slash at the end of a path leaves no trace: the two operations have one route. -/
theorem route_shared_orders :
    let document : Document := .map [("paths", .map
      [("/orders", .map [("get", .map [])]), ("/orders/", .map [("get", .map [])])])]
    ∃ definition, ofDocument document = .ok definition ∧
      ∃ resource ∈ definition.resources,
        ¬ (resource.methods.Pairwise fun a b =>
          ¬ (a.verb = b.verb ∧ a.relativePath = b.relativePath)) ∧ ¬ resource.routes.Nodup := by
  intro document
  have hread : (ofDocument document).toOption.map (fun definition =>
      definition.resources.map (·.methods.map Method.route)) =
      some [[(.get, "/"), (.get, "/")]] := by
    decide +kernel
  obtain ⟨definition, h, hroutes⟩ := Except.exists_ok_of_map hread
  obtain ⟨resource, hresources, hmethods⟩ := List.map_eq_singleton_iff.mp hroutes
  have hresource : resource ∈ definition.resources := hresources ▸ List.mem_singleton_self resource
  have htwice : ¬ (resource.methods.map Method.route).Nodup := by
    rw [hmethods]
    decide
  refine ⟨definition, h, resource, hresource, fun hapart => htwice ?_, ?_⟩
  · rw [List.Nodup, List.pairwise_map]
    exact hapart.imp fun hab heq => hab (Prod.mk.inj heq)
  · rwa [resource.routes_eq]

end Definition

end RestModule
