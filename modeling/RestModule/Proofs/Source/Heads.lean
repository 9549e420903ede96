import RestModule.Proofs.FilePath.Parts
import RestModule.Proofs.Naming.Distinct
import RestModule.Proofs.Template.Lines
import RestModule.Sheet.Resource

/-!
# The methods of an interface and of its implementation

The two files of a resource declare methods with the same heads in the same order: what differs are
the annotations that the interface has in front of arguments (`Sheet.implements_interface`). -/

namespace RestModule

open Text (splitAt)

/-- The head of a method: how it is called and what with. -/
structure Head where
  returnType : String
  name : String
  /-- The arguments as they are written. -/
  arguments : List String

namespace Head

/-- A head as it stands in a source. -/
def text (head : Head) : String :=
  Text.joinLines
    ["\tpublic " ++ head.returnType ++ " " ++ head.name ++ "(",
      "\t\t\t" ++ String.intercalate ", " head.arguments ++ ")",
      "\t\tthrows Exception"]

end Head

/-! ## Arguments -/

namespace Argument

/-- The type and the name of an argument as a source has it: its last two words. What stands in front
of them is its annotation. -/
def typeAndName (text : String) : String × String :=
  match (splitAt ' ' text).reverse with
  | name :: type :: _ => (type, name)
  | _ => ("", text)

/-- What stands in front of two words or more, with a blank between, has no part in it. -/
theorem typeAndName_append (first : String) {second : String} (h : ' ' ∈ second.toList) :
    typeAndName (first ++ " " ++ second) = typeAndName second := by
  have hblank : (first ++ " " ++ second).toList = first.toList ++ ' ' :: second.toList := by
    rw [String.toList_append, String.toList_append, List.append_assoc]
    rfl
  have hpieces : splitAt ' ' (first ++ " " ++ second) = splitAt ' ' first ++ splitAt ' ' second := by
    rw [Text.splitAt_append hblank, String.ofList_toList, String.ofList_toList]
  have hlength : 1 < (splitAt ' ' second).reverse.length := by
    obtain ⟨before, after, hsecond⟩ := List.append_of_mem h
    have hbefore := List.length_pos_iff.mpr (Text.splitAt_ne_nil ' ' (.ofList before))
    have hafter := List.length_pos_iff.mpr (Text.splitAt_ne_nil ' ' (.ofList after))
    rw [Text.splitAt_append hsecond, List.length_reverse, List.length_append]
    omega
  unfold typeAndName
  rw [hpieces, List.reverse_append]
  cases hsecond : (splitAt ' ' second).reverse with
  | nil => simp [hsecond] at hlength
  | cons name rest =>
    cases rest with
    | nil => simp [hsecond] at hlength
    | cons type more => rfl

theorem typeAndName_annotated (argument : Argument) :
    typeAndName argument.annotated = typeAndName argument.plain := by
  have hplain : ' ' ∈ argument.plain.toList := by simp [plain, String.toList_append]
  have hmarker : argument.origin.marker = "" ∨ ∃ text, argument.origin.marker = text ++ " " := by
    cases argument.origin with
    | body => exact .inl rfl
    | context => exact .inr ⟨"@Context", rfl⟩
    | pathParameter name =>
      exact .inr ⟨"@PathParam(\"" ++ name ++ "\")", by simp [Origin.marker, String.append_assoc]⟩
    | queryParameter name =>
      exact .inr ⟨"@QueryParam(\"" ++ name ++ "\")", by simp [Origin.marker, String.append_assoc]⟩
  rw [annotated]
  rcases hmarker with h | ⟨text, h⟩
  · rw [h, String.empty_append]
  · rw [h, typeAndName_append text hplain]

example : typeAndName "@QueryParam(\"page-size\") Long pageSize" = ("Long", "pageSize") := by decide

end Argument

namespace Method

/-- The head of a method in the interface. -/
def declared (method : Method) : Head :=
  ⟨method.returnType, method.name, method.arguments.map Argument.annotated⟩

/-- The head of a method in the implementation. -/
def implemented (method : Method) : Head :=
  ⟨method.returnType, method.name, method.arguments.map Argument.plain⟩

/-- A method of the interface: its annotations and its head. -/
theorem interfaceText_eq (method : Method) :
    method.interfaceText = Text.ofLines (method.markers.map fun marker => "\t" ++ marker.text) ++
      method.declared.text ++ ";" := by
  simp [interfaceText, Head.text, declared, argumentList, Text.joinLines, String.append_assoc]

/-- A method of the implementation: its head and its body. -/
theorem implementationText_eq (method : Method) :
    method.implementationText = Text.joinLines
      ["\t@Override", method.implemented.text ++ " \x7b", "", "\t\t" ++ method.stub, "\t\x7d"] := by
  rw [← String.toList_inj]
  simp [implementationText, Head.text, implemented, argumentList, Text.joinLines,
    String.toList_append]

/-- The annotations of the arguments of a method, in order: that of each parameter, none for the
request body, and those of the language and the pagination. -/
def annotations (method : Method) : List String :=
  method.placedParameters.map (fun (place, parameter) => (Argument.originOf place parameter).marker)
    ++ (method.request.map fun _ => "").toList ++ ["@Context "]
    ++ if method.isCollection then ["@Context "] else []

theorem length_parameterNames (method : Method) :
    method.parameterNames.length = method.parameters.length := by
  rw [parameterNames, Naming.length_distinctBy, List.length_map]

theorem map_snd_placedParameters (method : Method) :
    method.placedParameters.map (·.2) = method.parameters := by
  simp [placedParameters, parameters, Function.comp_def]

theorem map_origin_parameterArguments (method : Method) :
    method.parameterArguments.map (·.origin) =
      method.placedParameters.map fun (place, parameter) => Argument.originOf place parameter := by
  refine List.ext_getElem ?_ fun i _ _ => ?_
  · simp [parameterArguments, length_parameterNames, ← map_snd_placedParameters]
  · simp [parameterArguments]

theorem map_marker_arguments (method : Method) :
    method.arguments.map (·.origin.marker) = method.annotations := by
  have hparameters : method.parameterArguments.map (·.origin.marker) =
      method.placedParameters.map
        fun (place, parameter) => (Argument.originOf place parameter).marker := by
    have horigins := congrArg (List.map Origin.marker) method.map_origin_parameterArguments
    rwa [List.map_map, List.map_map] at horigins
  have hbody : (method.request.map Argument.ofBody).toList.map (·.origin.marker) =
      (method.request.map fun _ => "").toList := by
    cases method.request with
    | none => rfl
    | some body =>
      simp only [Option.map_some, Option.toList_some, List.map_cons, List.map_nil, Argument.ofBody]
      split <;> rfl
  rw [arguments, fixedArguments, List.map_append, hparameters, List.map_append, List.map_append,
    hbody, annotations]
  cases method.isCollection <;> simp [Argument.language, Argument.pagination, Origin.marker]

end Method

/-! ## Heads -/

/-- One head is another one without the annotations in front of its arguments. -/
structure Head.Implements (stub declared : Head) (annotations : List String) : Prop where
  returnType : stub.returnType = declared.returnType
  name : stub.name = declared.name
  length : annotations.length = stub.arguments.length
  arguments : declared.arguments = List.zipWith (· ++ ·) annotations stub.arguments
  typesAndNames : stub.arguments.map Argument.typeAndName =
    declared.arguments.map Argument.typeAndName

theorem Method.implements (method : Method) :
    method.implemented.Implements method.declared method.annotations where
  returnType := rfl
  name := rfl
  length := by rw [← map_marker_arguments, List.length_map, implemented, List.length_map]
  arguments := by
    rw [← map_marker_arguments, implemented, List.zipWith_map, List.zipWith_self]
    rfl
  typesAndNames := by
    rw [implemented, declared, List.map_map, List.map_map]
    exact List.map_congr_left fun argument _ => argument.typeAndName_annotated.symm

/-! ## Files -/

namespace Template

/-- The lines with which the templates of resources end. -/
def methodLines : List String := ["$\x7bMETHODS\x7d", "", "\x7d"]

theorem render_methodLines {header : List String} {values : List (String × String)}
    {methods : String} (h : values.lookup "METHODS" = some methods) :
    render (Text.ofLines (header ++ methodLines)) values =
      Text.ofLines (header.map (render · values) ++ [methods, "", "\x7d"]) := by
  have hline : render "$\x7bMETHODS\x7d" values = methods := by
    have hkey : "$\x7bMETHODS\x7d" = "" ++ "$\x7b" ++ "METHODS" ++ "\x7d" ++ "" := by decide
    rw [hkey, render_placeholder (by decide) (by decide) (by decide) (by decide) h,
      String.empty_append, String.append_empty]
  rw [render_ofLines, List.map_append, methodLines, List.map_cons, hline]
  rfl

theorem exists_header_interfaceText :
    ∃ header, interfaceText = Text.ofLines (header ++ methodLines) :=
  ⟨_, congrArg Text.ofLines (List.take_append_drop 14 _).symm⟩

theorem exists_header_implementationText :
    ∃ header, implementationText = Text.ofLines (header ++ methodLines) :=
  ⟨_, congrArg Text.ofLines (List.take_append_drop 20 _).symm⟩

end Template

namespace Sheet

/-- The methods of a sheet are written with a blank line between them. The built-in template puts
them at the end of the file. -/
structure HasMethods (sheet : Sheet) (template : String) (methods : List String) : Prop where
  value : sheet.values.lookup "METHODS" = some (String.intercalate "\n\n" methods)
  file : ∃ header, (sheet.filled [] template).contents =
    Text.ofLines (header ++ [String.intercalate "\n\n" methods, "", "\x7d"])

theorem HasMethods.of_value {sheet : Sheet} {template : String} {methods : List String}
    (htemplate : ∃ header, template = Text.ofLines (header ++ Template.methodLines))
    (h : sheet.values.lookup "METHODS" = some (String.intercalate "\n\n" methods)) :
    sheet.HasMethods template methods where
  value := h
  file := by
    obtain ⟨header, rfl⟩ := htemplate
    exact ⟨_, Template.render_methodLines h⟩

end Sheet

end RestModule
