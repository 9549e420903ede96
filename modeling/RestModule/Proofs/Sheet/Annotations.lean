import RestModule.Proofs.Sheet.Used
import RestModule.Proofs.Source.Literals
import RestModule.Proofs.Source.Routes

/-!
# The values of annotations

The annotations of an interface take what the description calls things and put it between quotation
marks as it is. So they say what the description says as long as neither the version nor a path nor
the name of a parameter has a character that is special in a literal
(`Definition.annotations_denote_iff`). -/

namespace RestModule

open Source (literal literalValue? units IsPlain)

/-! ## Segments -/

/-- An annotation with a value. -/
structure Label where
  name : String
  value : String
  deriving DecidableEq

/-- The literal of an annotation is well-formed and has its value. -/
def Label.Denotes (label : Label) : Prop :=
  literalValue? (literal label.value) = some (units label.value)

theorem Label.denotes_iff (label : Label) : label.Denotes ↔ IsPlain label.value :=
  Source.literalValue?_literal_iff label.value

/-- A part of a source: an annotation with its value as a literal, or anything else. -/
inductive Segment where
  | labelled (label : Label)
  | other (text : String)

namespace Segment

/-- A segment as it stands in the source. -/
def text : Segment → String
  | labelled label => "@" ++ label.name ++ "(" ++ literal label.value ++ ")"
  | other text => text

def label? : Segment → Option Label
  | labelled label => some label
  | other _ => none

/-- The source that segments make. -/
def source (segments : List Segment) : String :=
  String.join (segments.map text)

/-- The annotations with a value among segments, in order. -/
def labels (segments : List Segment) : List Label :=
  segments.filterMap label?

/-- Segments with a text between them and those that follow. -/
def separated (separator : String) (lists : List (List Segment)) : List Segment :=
  List.intercalate [other separator] lists

theorem source_cons (segment : Segment) (rest : List Segment) :
    source (segment :: rest) = segment.text ++ source rest :=
  String.join_cons

theorem source_append (first second : List Segment) :
    source (first ++ second) = source first ++ source second := by
  rw [source, List.map_append, String.join_append]
  rfl

theorem source_singleton (segment : Segment) : source [segment] = segment.text := by
  rw [source_cons]
  exact String.append_empty

theorem source_flatMap {α : Type} (f : α → List Segment) (xs : List α) :
    source (xs.flatMap f) = String.join (xs.map fun x => source (f x)) := by
  induction xs with
  | nil => rfl
  | cons x rest ih => rw [List.flatMap_cons, source_append, ih, List.map_cons, String.join_cons]

theorem source_separated (separator : String) (lists : List (List Segment)) :
    source (separated separator lists) = String.intercalate separator (lists.map source) := by
  unfold separated
  induction lists with
  | nil => rfl
  | cons first rest ih =>
    cases rest with
    | nil => rw [List.intercalate_singleton, List.map_singleton, String.intercalate_singleton]
    | cons second more =>
      rw [List.intercalate_cons_cons, source_append, source_append, ih, source_singleton]
      exact String.intercalate_cons_cons.symm

theorem labels_append (first second : List Segment) :
    labels (first ++ second) = labels first ++ labels second :=
  List.filterMap_append

theorem labels_flatMap {α : Type} (f : α → List Segment) (xs : List α) :
    labels (xs.flatMap f) = xs.flatMap fun x => labels (f x) :=
  List.filterMap_flatMap

theorem labels_separated (separator : String) (lists : List (List Segment)) :
    labels (separated separator lists) = lists.flatMap labels := by
  unfold separated
  induction lists with
  | nil => rfl
  | cons first rest ih =>
    cases rest with
    | nil => rw [List.intercalate_singleton, List.flatMap_singleton]
    | cons second more =>
      have hseparator : labels [other separator] = [] := rfl
      rw [List.intercalate_cons_cons, labels_append, labels_append, ih, hseparator, List.append_nil]
      rfl

end Segment

/-! ## Arguments -/

/-- The annotation of an argument, with the blank after it. -/
def Origin.segments : Origin → List Segment
  | pathParameter name => [.labelled ⟨"PathParam", name⟩, .other " "]
  | queryParameter name => [.labelled ⟨"QueryParam", name⟩, .other " "]
  | body => []
  | context => [.other "@Context "]

theorem Origin.source_segments (origin : Origin) :
    Segment.source origin.segments = origin.marker := by
  cases origin with
  | pathParameter name | queryParameter name =>
    rw [segments, Segment.source_cons, Segment.source_singleton]
    simp [marker, Segment.text, literal, ← String.toList_inj, String.toList_append]
  | body => rfl
  | context => rfl

/-- The annotation of a parameter. -/
def Parameter.label (place : ParameterPlace) (parameter : Parameter) : Label :=
  ⟨place.markerName, parameter.name⟩

theorem Argument.labels_originOf (place : ParameterPlace) (parameter : Parameter) :
    Segment.labels (originOf place parameter).segments = [parameter.label place] := by
  cases place <;> rfl

/-- An argument as an interface declares it. -/
def Argument.segments (argument : Argument) : List Segment :=
  argument.origin.segments ++ [.other argument.plain]

theorem Argument.source_segments (argument : Argument) :
    Segment.source argument.segments = argument.annotated := by
  rw [segments, Segment.source_append, Origin.source_segments, Segment.source_singleton]
  rfl

theorem Argument.labels_segments (argument : Argument) :
    Segment.labels argument.segments = Segment.labels argument.origin.segments := by
  rw [segments, Segment.labels_append]
  exact List.append_nil _

/-! ## Methods -/

/-- An annotation of a method. -/
def Marker.segment : Marker → Segment
  | path value => .labelled ⟨"Path", value⟩
  | marker => .other marker.text

theorem Marker.text_segment (marker : Marker) : marker.segment.text = marker.text := by
  cases marker with
  | path value =>
    rw [segment, Segment.text, text, literal, ← String.toList_inj]
    simp [String.toList_append]
  | _ => rfl

namespace Method

/-- A method as an interface declares it. -/
def segments (method : Method) : List Segment :=
  method.markers.flatMap (fun marker => [.other "\t", marker.segment, .other "\n"])
    ++ [.other ("\tpublic " ++ method.returnType ++ " " ++ method.name ++ "(\n\t\t\t")]
    ++ Segment.separated ", " (method.arguments.map Argument.segments)
    ++ [.other ")\n\t\tthrows Exception;"]

theorem source_segments (method : Method) :
    Segment.source method.segments = method.interfaceText := by
  have hmarker (marker : Marker) :
      Segment.source [.other "\t", marker.segment, .other "\n"] = "\t" ++ marker.text ++ "\n" := by
    rw [Segment.source_cons, Segment.source_cons, Segment.source_singleton, marker.text_segment,
      ← String.append_assoc]
    rfl
  have hmarkers : Segment.source (method.markers.flatMap fun marker =>
      [.other "\t", marker.segment, .other "\n"]) =
        Text.ofLines (method.markers.map fun marker => "\t" ++ marker.text) := by
    simp only [Segment.source_flatMap, hmarker, Text.ofLines, List.map_map, Function.comp_def]
  have harguments :
      Segment.source (Segment.separated ", " (method.arguments.map Argument.segments)) =
        method.argumentList Argument.annotated := by
    simp only [Segment.source_separated, List.map_map, Function.comp_def, Argument.source_segments]
    rfl
  rw [segments, Segment.source_append, Segment.source_append, Segment.source_append, hmarkers,
    harguments, Segment.source_singleton, Segment.source_singleton, interfaceText,
    ← String.toList_inj]
  -- the same characters, cut into other texts
  simp [Segment.text, Text.joinLines, String.toList_append]

/-- The annotations of a method with a value: that of its path and those of its parameters. -/
def labels (method : Method) : List Label :=
  ⟨"Path", method.relativePath⟩
    :: method.placedParameters.map fun (place, parameter) => parameter.label place

theorem labels_markers (method : Method) :
    Segment.labels (method.markers.flatMap fun marker =>
      [.other "\t", marker.segment, .other "\n"]) = [⟨"Path", method.relativePath⟩] := by
  have hread :
      method.ownMarkers.filterMap (·.segment.label?) = [⟨"Path", method.relativePath⟩] := by
    unfold ownMarkers
    cases method.request <;> cases method.response <;> rfl
  have hmarker (marker : Marker) :
      Segment.labels [.other "\t", marker.segment, .other "\n"] = marker.segment.label?.toList := by
    cases marker <;> rfl
  simp only [Segment.labels_flatMap, hmarker, ← List.filterMap_eq_flatMap_toList,
    filterMap_markers hread]

theorem labels_arguments (method : Method) :
    Segment.labels (Segment.separated ", " (method.arguments.map Argument.segments)) =
      method.placedParameters.map fun (place, parameter) => parameter.label place := by
  have hparameters : method.parameterArguments.flatMap (fun a => Segment.labels a.segments) =
      method.placedParameters.map fun (place, parameter) => parameter.label place := by
    have horigins := congrArg (List.flatMap fun o : Origin => Segment.labels o.segments)
      method.map_origin_parameterArguments
    simp only [List.flatMap_map, Argument.labels_originOf, ← Argument.labels_segments] at horigins
    rw [horigins, List.map_eq_flatMap]
  -- the body, the language and the pagination have no value from the description
  have hfixed : method.fixedArguments.flatMap (fun a => Segment.labels a.segments) = [] := by
    refine List.flatMap_eq_nil_iff.mpr fun argument hargument => ?_
    rw [fixedArguments, List.mem_append, List.mem_append] at hargument
    rcases hargument with (hbody | hlanguage) | hpagination
    · obtain ⟨body, -, rfl⟩ := Option.map_eq_some_iff.mp (Option.mem_toList.mp hbody)
      unfold Argument.ofBody
      split <;> rfl
    · rw [List.mem_singleton.mp hlanguage]
      rfl
    · rw [List.mem_singleton.mp (List.mem_ite_nil_right.mp hpagination).2]
      rfl
  rw [Segment.labels_separated, List.flatMap_map, arguments, List.flatMap_append, hparameters,
    hfixed, List.append_nil]

theorem labels_segments (method : Method) : Segment.labels method.segments = method.labels := by
  rw [segments, Segment.labels_append, Segment.labels_append, Segment.labels_append, labels_markers,
    labels_arguments]
  exact List.append_nil _

end Method

/-! ## Interfaces -/

namespace Resource

variable (config : Config) (version : String) (resource : Resource)

/-- The interface of a resource. -/
def segments : List Segment :=
  [.other (Text.ofLines (Sheet.interfaceHeader config resource
      ++ [Source.commentLine, " * @author " ++ config.author, " */",
        "@Generated(value = \"restmodgen\")"])),
    (resource.marker version).segment,
    .other ("\npublic interface " ++ Naming.interfaceClass resource.name ++ " \x7b\n\n")]
    ++ Segment.separated "\n\n" (resource.methods.map Method.segments)
    ++ [.other "\n\n\x7d\n"]

theorem source_segments :
    Segment.source (resource.segments config version) =
      Sheet.interfaceSource config version resource := by
  have hmethods : Segment.source (Segment.separated "\n\n" (resource.methods.map Method.segments)) =
      String.intercalate "\n\n" (resource.methods.map (·.interfaceText)) := by
    simp only [Segment.source_separated, List.map_map, Function.comp_def, Method.source_segments]
  rw [Sheet.interfaceSource_eq, segments, Segment.source_append, Segment.source_append, hmethods,
    Segment.source_singleton, Segment.source_cons, Segment.source_cons, Segment.source_singleton,
    Marker.text_segment, Sheet.interfaceBody]
  simp only [← Method.interfaceText_eq]
  rw [← String.toList_inj]
  simp [Segment.text, Text.ofLines_append, Text.ofLines_cons, Text.ofLines_nil,
    String.toList_append]

/-- The annotations of an interface with a value: its own, and those of its methods. -/
def labels : List Label :=
  ⟨"Path", "/v" ++ version ++ "/" ++ resource.name⟩ :: resource.methods.flatMap Method.labels

theorem labels_segments :
    Segment.labels (resource.segments config version) = resource.labels version := by
  rw [segments, Segment.labels_append, Segment.labels_append, Segment.labels_separated,
    List.flatMap_map]
  simp only [Method.labels_segments]
  exact List.append_nil _

theorem isPlain_labels_iff (hname : Naming.IsName resource.name) :
    (∀ label ∈ resource.labels version, IsPlain label.value) ↔
      IsPlain version ∧ ∀ method ∈ resource.methods,
        IsPlain method.relativePath ∧ ∀ parameter ∈ method.parameters, IsPlain parameter.name := by
  have hmarker : IsPlain ("/v" ++ version ++ "/" ++ resource.name) ↔ IsPlain version := by
    have hother : Source.special.all (!Naming.isIdentifierPart ·) = true := by decide
    have hplain : IsPlain resource.name := by
      intro c hc hspecial
      have hnot := List.all_eq_true.mp hother c hspecial
      exact hname.not_mem (by simpa using hnot) hc
    have hslash : IsPlain "/v" ∧ IsPlain "/" := by decide
    simp only [Source.isPlain_append_iff, hslash, hplain, true_and, and_true]
  have hmethod (method : Method) : (∀ label ∈ method.labels, IsPlain label.value) ↔
      IsPlain method.relativePath ∧ ∀ parameter ∈ method.parameters, IsPlain parameter.name := by
    rw [Method.labels, List.forall_mem_cons, List.forall_mem_map, ← Method.map_snd_placedParameters,
      List.forall_mem_map]
    rfl
  rw [labels, List.forall_mem_cons, hmarker]
  simp only [List.forall_mem_flatMap, hmethod]

end Resource

namespace Definition

/-- The annotations of an interface with a value are that of the resource and those of its methods
and their parameters. Each denotes what the description has exactly if nothing in that is special in
a literal. -/
theorem annotations_denote_iff {document : Document} {definition : Definition}
    (h : ofDocument document = .ok definition) (config : Config) {resource : Resource}
    (hresource : resource ∈ definition.resources) :
    Sheet.interfaceSource config definition.version resource =
        Segment.source (resource.segments config definition.version) ∧
      Segment.labels (resource.segments config definition.version) =
        ⟨"Path", "/v" ++ definition.version ++ "/" ++ resource.name⟩
          :: resource.methods.flatMap Method.labels ∧
      (∀ label ∈ Segment.labels (resource.segments config definition.version),
        label.Denotes ↔ IsPlain label.value) ∧
      ((∀ label ∈ Segment.labels (resource.segments config definition.version), label.Denotes) ↔
        IsPlain definition.version ∧ ∀ method ∈ resource.methods, IsPlain method.relativePath ∧
          ∀ parameter ∈ method.parameters, IsPlain parameter.name) := by
  have hname := isName_of_ofDocument h resource hresource
  refine ⟨(resource.source_segments config definition.version).symm,
    resource.labels_segments config definition.version, fun label _ => label.denotes_iff, ?_⟩
  rw [resource.labels_segments, ← resource.isPlain_labels_iff _ hname]
  simp only [Label.denotes_iff]

/-- Blanks, apostrophes, placeholders and characters beyond the Basic Multilingual Plane are not
special. -/
theorem annotations_denote_orders :
    let document : Document := .map [("info", .map [("version", .text "2.0 β")]), ("paths", .map
      [("/orders/\x7bid\x7d/😀", .map [("get", .map [("parameters", .list
        [.map [("in", .text "path"), ("name", .text "id"),
            ("schema", .map [("type", .text "integer")])],
          .map [("in", .text "query"), ("name", .text "it's ${METHODS},	isn't it"),
            ("schema", .map [("type", .text "string")])]])])])])]
    ∃ definition, ofDocument document = .ok definition ∧
      ∃ resource ∈ definition.resources,
        Segment.labels (resource.segments Launch.shop.config definition.version) =
          [⟨"Path", "/v2.0 β/orders"⟩, ⟨"Path", "/\x7bid\x7d/😀"⟩, ⟨"PathParam", "id"⟩,
            ⟨"QueryParam", "it's ${METHODS},	isn't it"⟩] ∧
        ∀ label ∈ Segment.labels (resource.segments Launch.shop.config definition.version),
          label.Denotes := by
  intro document
  have hread : (ofDocument document).toOption.map (fun definition =>
      definition.resources.map fun resource => (resource.labels definition.version,
        decide (IsPlain definition.version ∧ ∀ method ∈ resource.methods,
          IsPlain method.relativePath ∧ ∀ parameter ∈ method.parameters, IsPlain parameter.name))) =
      some [([⟨"Path", "/v2.0 β/orders"⟩, ⟨"Path", "/\x7bid\x7d/😀"⟩, ⟨"PathParam", "id"⟩,
        ⟨"QueryParam", "it's ${METHODS},	isn't it"⟩], true)] := by
    decide +kernel
  obtain ⟨definition, h, hresources⟩ := Except.exists_ok_of_map hread
  obtain ⟨resource, hresources, hlabels⟩ := List.map_eq_singleton_iff.mp hresources
  obtain ⟨hlabels, hplain⟩ := Prod.mk.inj hlabels
  have hresource : resource ∈ definition.resources := hresources ▸ List.mem_singleton_self resource
  have hdenote := annotations_denote_iff h Launch.shop.config hresource
  refine ⟨definition, h, resource, hresource, ?_, hdenote.2.2.2.mpr (of_decide_eq_true hplain)⟩
  rw [hdenote.2.1, ← hlabels]
  rfl

/-- A path with a regular expression makes an annotation that is no literal at all. -/
theorem annotation_malformed_orders :
    let document : Document :=
      .map [("paths", .map [("/orders/\x7bid:\\d+\x7d", .map [("get", .map [])])])]
    ∃ definition, ofDocument document = .ok definition ∧
      ∃ resource ∈ definition.resources, ∃ method ∈ resource.methods,
        Sheet.interfaceSource Launch.shop.config definition.version resource =
          Segment.source (resource.segments Launch.shop.config definition.version) ∧
        ⟨"Path", method.relativePath⟩ ∈
          Segment.labels (resource.segments Launch.shop.config definition.version) ∧
        literalValue? (literal method.relativePath) = none := by
  intro document
  have hread : (ofDocument document).toOption.map (fun definition =>
      definition.resources.map (·.methods.map (·.relativePath))) = some [["/\x7bid:\\d+\x7d"]] := by
    decide +kernel
  obtain ⟨definition, h, hresources⟩ := Except.exists_ok_of_map hread
  obtain ⟨resource, hresources, hmethods⟩ := List.map_eq_singleton_iff.mp hresources
  obtain ⟨method, hmethods, hpath⟩ := List.map_eq_singleton_iff.mp hmethods
  have hmethod : method ∈ resource.methods := hmethods ▸ List.mem_singleton_self method
  refine ⟨definition, h, resource, hresources ▸ List.mem_singleton_self resource, method, hmethod,
    (resource.source_segments _ _).symm, ?_, ?_⟩
  · rw [resource.labels_segments]
    exact List.mem_cons_of_mem _ (List.mem_flatMap.mpr ⟨method, hmethod, List.mem_cons_self⟩)
  · rw [hpath]
    decide +kernel

end Definition

end RestModule
