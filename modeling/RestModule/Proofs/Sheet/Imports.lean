import RestModule.Proofs.Sheet.Class
import RestModule.Proofs.Source.Imports
import RestModule.Proofs.Spec.Names

/-!
# What sources import

The import lines of the sources that the built-in templates make: of the interface and the
implementation of a resource (`Sheet.importLines_interface`, `Sheet.importLines_implementation`), of a
model (`Sheet.importLines_model`) and of the application class (`Sheet.importLines_application`). Each
has one line for every class in a list that depends on the definition and the configuration. -/

namespace RestModule

open Source (commentLine importLines Holds)
open Template (slot)

/-! ## Classes outside the module -/

namespace Import

def generated : Import := ⟨"javax.annotation", "Generated"⟩

def component : Import := ⟨"org.osgi.service.component.annotations", "Component"⟩

def root : Import := ⟨"javax.xml.bind.annotation", "XmlRootElement"⟩

def application : Import := ⟨webCorePackage, "Application"⟩

def utilities : List Import := [⟨"java.util", "Collections"⟩, ⟨"java.util", "Set"⟩]

/-- The JAX-RS classes that interfaces may import. -/
def web : List Import :=
  [⟨webPackage, "Path"⟩, ⟨webCorePackage, "Context"⟩, ⟨webPackage, "PathParam"⟩,
    ⟨webPackage, "QueryParam"⟩, ⟨webPackage, "Consumes"⟩, ⟨webPackage, "Produces"⟩, response]
    ++ Verb.all.map fun verb => ⟨webPackage, verb.name⟩

theorem ofLines_eq_block {imports : List Import} (h : imports ≠ []) :
    Text.ofLines (imports.map line) = block imports ++ "\n" :=
  (Text.joinLines_append_newline (List.map_eq_nil_iff.not.mpr h)).symm

theorem nodup_eraseDups : ∀ imports : List Import, imports.eraseDups.Nodup
  | [] => by simp
  | i :: rest => by
    rw [List.eraseDups_cons, List.nodup_cons, List.mem_eraseDups]
    exact ⟨by simp, nodup_eraseDups _⟩
termination_by imports => imports.length
decreasing_by exact Nat.lt_succ_of_le (List.length_filter_le _ _)

theorem nodup_sorted (imports : List Import) : (sorted imports).Nodup :=
  (List.mergeSort_perm _ _).nodup_iff.mpr (nodup_eraseDups imports)

theorem mem_sorted {imports : List Import} {i : Import} : i ∈ sorted imports ↔ i ∈ imports := by
  rw [sorted, List.mem_mergeSort, List.mem_eraseDups]

end Import

namespace Resource

private theorem web_of_mem_ite {p : Prop} [Decidable p] {i : Import} {first second : List Import}
    (h : i ∈ if p then first else second) (hfirst : first ⊆ Import.web)
    (hsecond : second ⊆ Import.web) : i ∈ Import.web := by
  split at h
  · exact hfirst h
  · exact hsecond h

theorem webImports_subset (resource : Resource) : ∀ i ∈ resource.webImports, i ∈ Import.web := by
  have hverb : ∀ verb : Verb, ⟨Import.webPackage, verb.name⟩ ∈ Import.web := by
    intro verb
    cases verb <;> decide
  have hmethod : ∀ method : Method, ∀ i ∈ method.webImports, i ∈ Import.web := by
    intro method i hi
    simp only [Method.webImports, List.mem_append, List.mem_singleton] at hi
    rcases hi with (((rfl | hi) | hi) | hi) | hi
    · exact hverb method.verb
    · exact web_of_mem_ite hi (by decide) (by decide)
    · exact web_of_mem_ite hi (by decide) (by decide)
    · exact web_of_mem_ite hi (by decide) (by decide)
    · exact web_of_mem_ite hi (by decide) (by decide)
  intro i hi
  rcases List.mem_append.mp (Import.mem_sorted.mp hi) with hi | hi
  · have hfixed : ∀ i ∈ ([⟨Import.webPackage, "Path"⟩, ⟨Import.webCorePackage, "Context"⟩] :
        List Import), i ∈ Import.web := by decide
    exact hfixed i hi
  · obtain ⟨method, -, hi⟩ := List.mem_flatMap.mp hi
    exact hmethod method i hi

theorem webImports_ne_nil (resource : Resource) : resource.webImports ≠ [] := by
  refine List.ne_nil_of_mem (a := ⟨Import.webPackage, "Path"⟩) (Import.mem_sorted.mpr ?_)
  exact List.mem_append_left _ List.mem_cons_self

end Resource

/-! ## Headers -/

theorem Template.render_header {values : List (String × String)} {lines header : List String}
    (hheader : Text.ofLines (lines.map (render · values)) = Text.ofLines header)
    (rest : List String) :
    render (Text.ofLines (lines ++ rest)) values =
      Text.ofLines (header ++ rest.map (render · values)) := by
  rw [render_ofLines, List.map_append, Text.ofLines_append, hheader, ← Text.ofLines_append]

/-- A template whose header renders to other lines makes a source with those lines in front of its
documentation comment. -/
theorem Template.exists_render_eq {text : String} {values : List (String × String)}
    {header : List String} (lines : List String)
    (htext : ∃ rest, text = Text.ofLines (lines ++ commentLine :: rest))
    (hheader : Text.ofLines (lines.map (render · values)) = Text.ofLines header) :
    ∃ rest, render text values = Text.ofLines (header ++ commentLine :: rest) := by
  obtain ⟨rest, rfl⟩ := htext
  have hcomment : render commentLine values = commentLine := render_plain (by decide) values
  refine ⟨rest.map (render · values), ?_⟩
  rw [render_header hheader, List.map_cons, hcomment]

namespace Sheet

/-- What the interface of a resource imports, in order. -/
def interfaceClasses (config : Config) (resource : Resource) : List Import :=
  resource.modelImports config.modelPackage ++ resource.coreImports config.corePackage
    ++ [Import.generated] ++ resource.webImports

def implementationClasses (config : Config) (resource : Resource) : List Import :=
  implementationImports config resource
    ++ (if resource.methods.any (·.response.isNone) then [Import.response] else [])
    ++ [Import.component]

def modelClasses (component : Component) : List Import :=
  (if component.properties.any (needsDate ·.javaType) then [Import.date] else [])
    ++ [Import.generated] ++ [Import.root]

def applicationClasses : List Import :=
  Import.utilities ++ [Import.generated] ++ [Import.application] ++ [Import.component]

/-- The interface of a resource as the built-in template makes it. -/
def interfaceSource (config : Config) (version : String) (resource : Resource) : String :=
  ((interface config version resource).filled [] Template.interfaceText).contents

/-- The implementation of a resource as the built-in template makes it. -/
def implementationSource (config : Config) (version : String) (resource : Resource) : String :=
  ((implementation config version resource).filled [] Template.implementationText).contents

/-- The model of a component as the built-in template makes it. -/
def modelSource (config : Config) (component : Component) : String :=
  ((model config component).filled [] Template.modelText).contents

variable (config : Config) (version : String) (resource : Resource)

/-- The lines of an interface up to its documentation comment. -/
def interfaceHeader : List String :=
  ["package " ++ config.interfacePackage ++ ";"] ++ [""]
    ++ (resource.modelImports config.modelPackage).map Import.line
    ++ (resource.coreImports config.corePackage).map Import.line ++ [""]
    ++ [Import.generated].map Import.line ++ [""] ++ resource.webImports.map Import.line ++ [""]

def implementationHeader : List String :=
  ["package " ++ config.implementationPackage ++ ";"] ++ [""]
    ++ (implementationImports config resource).map Import.line ++ [""]
    ++ (if resource.methods.any (·.response.isNone) then [Import.response.line, ""] else [])
    ++ [Import.component].map Import.line ++ [""]

def modelHeader (component : Component) : List String :=
  ["package " ++ config.modelPackage ++ ";"] ++ [""]
    ++ (if component.properties.any (needsDate ·.javaType) then [Import.date.line, ""] else [])
    ++ [Import.generated].map Import.line ++ [""] ++ [Import.root].map Import.line ++ [""]

def applicationHeader : List String :=
  ["package " ++ config.apiPackage ++ ";"] ++ [""] ++ Import.utilities.map Import.line ++ [""]
    ++ [Import.generated].map Import.line ++ [""] ++ [Import.application].map Import.line ++ [""]
    ++ [Import.component].map Import.line ++ [""]

/-- The lines of the template of interfaces up to its documentation comment. -/
def interfaceTop : List String :=
  [Template.packageLine, "", slot "MODEL_IMPORT_STATEMENTS" ++ slot "CORE_IMPORT_STATEMENTS",
    Import.generated.line, "", slot "MODEL_IMPORT_STATEMENTS_JAVAX", ""]

def implementationTop : List String :=
  [Template.packageLine, "", slot "IMPORT_STATEMENTS", "",
    slot "MODEL_IMPORT_STATEMENTS_JAVAX" ++ Import.component.line, ""]

def modelTop : List String :=
  [Template.packageLine, "", slot "IMPORTS" ++ Import.generated.line, "", Import.root.line, ""]

private theorem render_fixed {values : List (String × String)} (line : String)
    (h : '$' ∉ line.toList) : Template.render line values = line :=
  Template.render_plain h values

theorem render_interfaceTop :
    Text.ofLines (interfaceTop.map
      (Template.render · ([] ++ (interface config version resource).values))) =
      Text.ofLines (interfaceHeader config resource) := by
  set values := [] ++ (interface config version resource).values
  have hpackage : Template.render Template.packageLine values =
      "package " ++ config.interfacePackage ++ ";" := Template.render_packageLine rfl
  have hclasses : Template.render
      (slot "MODEL_IMPORT_STATEMENTS" ++ slot "CORE_IMPORT_STATEMENTS") values =
      Import.lines (resource.modelImports config.modelPackage) ++
        Import.lines (resource.coreImports config.corePackage) := by
    rw [Template.render_slot_append rfl, Template.render_slot rfl]
  have hweb : Template.render (slot "MODEL_IMPORT_STATEMENTS_JAVAX") values =
      Import.block resource.webImports := Template.render_slot rfl
  have hblock := Import.ofLines_eq_block resource.webImports_ne_nil
  simp only [interfaceTop, List.map_cons, List.map_nil, hpackage, hclasses, hweb,
    render_fixed "" (by decide), render_fixed Import.generated.line (by decide), interfaceHeader,
    Text.ofLines_append, Text.ofLines_cons, Text.ofLines_nil, Import.lines, hblock,
    String.append_assoc, String.empty_append]

theorem render_implementationTop :
    Text.ofLines (implementationTop.map
      (Template.render · ([] ++ (implementation config version resource).values))) =
      Text.ofLines (implementationHeader config resource) := by
  set values := [] ++ (implementation config version resource).values
  have hpackage : Template.render Template.packageLine values =
      "package " ++ config.implementationPackage ++ ";" := Template.render_packageLine rfl
  have hclasses : Template.render (slot "IMPORT_STATEMENTS") values =
      Import.block (implementationImports config resource) := Template.render_slot rfl
  have hweb : Template.render (slot "MODEL_IMPORT_STATEMENTS_JAVAX" ++ Import.component.line)
      values = implementationWebImports resource ++ Import.component.line := by
    rw [Template.render_slot_append rfl, render_fixed Import.component.line (by decide)]
  have hblock : Text.ofLines ((implementationImports config resource).map Import.line) =
      Import.block (implementationImports config resource) ++ "\n" :=
    Import.ofLines_eq_block (by simp [implementationImports])
  simp only [implementationTop, List.map_cons, List.map_nil, hpackage, hclasses, hweb,
    render_fixed "" (by decide), implementationHeader, Text.ofLines_append, Text.ofLines_cons,
    Text.ofLines_nil, hblock, implementationWebImports, String.append_assoc, String.empty_append]
  split <;> simp [Text.ofLines_cons, Text.ofLines_nil, String.append_assoc]

theorem exists_interfaceSource_eq : ∃ rest, interfaceSource config version resource =
    Text.ofLines (interfaceHeader config resource ++ commentLine :: rest) :=
  Template.exists_render_eq interfaceTop ⟨_, rfl⟩ (render_interfaceTop ..)

theorem exists_implementationSource_eq : ∃ rest, implementationSource config version resource =
    Text.ofLines (implementationHeader config resource ++ commentLine :: rest) :=
  Template.exists_render_eq implementationTop ⟨_, rfl⟩ (render_implementationTop ..)

theorem render_modelTop (component : Component) :
    Text.ofLines (modelTop.map (Template.render · ([] ++ (model config component).values))) =
      Text.ofLines (modelHeader config component) := by
  set values := [] ++ (model config component).values
  have hpackage : Template.render Template.packageLine values =
      "package " ++ config.modelPackage ++ ";" := Template.render_packageLine rfl
  have hdate : Template.render (slot "IMPORTS" ++ Import.generated.line) values =
      modelImports component ++ Import.generated.line := by
    rw [Template.render_slot_append rfl, render_fixed Import.generated.line (by decide)]
  simp only [modelTop, List.map_cons, List.map_nil, hpackage, hdate, render_fixed "" (by decide),
    render_fixed Import.root.line (by decide), modelHeader, modelImports, Text.ofLines_append,
    Text.ofLines_cons, Text.ofLines_nil, String.append_assoc, String.empty_append]
  split <;> simp [Text.ofLines_cons, Text.ofLines_nil, String.append_assoc]

theorem exists_modelSource_eq (component : Component) : ∃ rest, modelSource config component =
    Text.ofLines (modelHeader config component ++ commentLine :: rest) :=
  Template.exists_render_eq modelTop ⟨_, rfl⟩ (render_modelTop ..)

theorem exists_applicationSource_eq (resources : List Resource)
    {inserted : List (String × String)}
    (hinserted : inserted.map (·.1) = (application config resources).insertions.map (·.1)) :
    ∃ rest, ((application config resources).filled inserted Template.applicationText).contents =
      Text.ofLines (applicationHeader config ++ commentLine :: rest) := by
  apply Template.exists_render_eq (Template.packageLine :: (applicationHeader config).tail) ⟨_, rfl⟩
  set values := inserted ++ (application config resources).values
  have hpackage : Template.render Template.packageLine values =
      "package " ++ config.apiPackage ++ ";" := by
    -- what is inserted stands for another placeholder
    apply Template.render_packageLine
    apply (lookup_inserted hinserted _).trans rfl
    simp only [application]
    split <;> decide
  have hplain : ∀ line ∈ (applicationHeader config).tail, '$' ∉ line.toList := by
    simp only [applicationHeader, List.cons_append, List.nil_append, List.tail_cons]
    decide
  have hfixed : ∀ line ∈ (applicationHeader config).tail, Template.render line values = line :=
    fun line hline => render_fixed line (hplain line hline)
  rw [List.map_cons, hpackage, List.map_congr_left hfixed, List.map_id']
  rfl

end Sheet

/-! ## Import lines -/

theorem Naming.newline_not_mem_of_isPackage {package : String} (h : isPackage package = true) :
    '\n' ∉ package.toList := by
  intro hmem
  have hpieces : '\n' ∈ (Text.pieces (· == '.') package.toList).flatten := by
    rw [Text.flatten_pieces, List.mem_filter]
    exact ⟨hmem, by decide⟩
  obtain ⟨piece, hpiece, hmem⟩ := List.mem_flatten.mp hpieces
  have hidentifier := List.all_eq_true.mp h (.ofList piece) (List.mem_map_of_mem hpiece)
  have hname : '\n' ∉ (String.ofList piece).toList :=
    (IsName.of_isIdentifier hidentifier).1.not_mem (by decide)
  exact hname (by rwa [String.toList_ofList])

/-- The packages of a configuration that breaks no rule fit on a line. -/
theorem Config.newline_not_mem_of_validate {config : Config} (h : config.validate = .ok ()) :
    ∀ package ∈ [config.apiPackage, config.modelPackage, config.corePackage,
      config.interfacePackage, config.implementationPackage], '\n' ∉ package.toList := by
  have hpackages : ∀ package ∈ config.packages.map (·.2), '\n' ∉ package.toList := by
    intro package hpackage
    obtain ⟨entry, hentry, rfl⟩ := List.mem_map.mp hpackage
    exact Naming.newline_not_mem_of_isPackage ((valid_of_validate h).1 entry hentry)
  simp only [packages, List.map_cons, List.map_nil, List.forall_mem_cons] at hpackages ⊢
  obtain ⟨hapi, hcore, hmodel, hinterface, himplementation, hnil⟩ := hpackages
  exact ⟨hapi, hmodel, hcore, hinterface, himplementation, hnil⟩

theorem Import.isPlain_of_mem_web : ∀ i ∈ Import.web, i.IsPlain := by
  decide

namespace Resource

open Import (IsPlain)

variable {resource : Resource}

theorem isPlain_modelImports {package : String} (h : '\n' ∉ package.toList) :
    ∀ i ∈ resource.modelImports package, i.IsPlain := by
  intro i hi
  obtain ⟨model, -, rfl⟩ := List.mem_map.mp hi
  exact ⟨h, Naming.modelClass_isName model⟩

theorem isPlain_coreImports {package : String} (h : '\n' ∉ package.toList) :
    ∀ i ∈ resource.coreImports package, i.IsPlain := by
  have hplain : ∀ part name : String, '\n' ∉ part.toList → Naming.IsName name →
      IsPlain ⟨package ++ part, name⟩ := by
    intro part name hpart hname
    refine ⟨?_, hname⟩
    rw [String.toList_append, List.mem_append, not_or]
    exact ⟨h, hpart⟩
  intro i hi
  rcases List.mem_cons.mp hi with rfl | hi
  · exact hplain _ _ (by decide) (by decide)
  · split at hi
    · simp only [List.mem_cons, List.not_mem_nil, or_false] at hi
      rcases hi with rfl | rfl <;> exact hplain _ _ (by decide) (by decide)
    · cases hi

end Resource

namespace Sheet

variable {config : Config} (version : String) {resource : Resource}

theorem holds_interfaceHeader (hconfig : config.validate = .ok ()) :
    Holds (interfaceHeader config resource) (interfaceClasses config resource) := by
  have hpackage := Config.newline_not_mem_of_validate hconfig
  have hmodels := resource.isPlain_modelImports (hpackage config.modelPackage (by simp))
  have hcore := resource.isPlain_coreImports (hpackage config.corePackage (by simp))
  have hweb : ∀ i ∈ resource.webImports, i.IsPlain :=
    fun i hi => Import.isPlain_of_mem_web i (resource.webImports_subset i hi)
  have hgenerated : Holds ([Import.generated].map Import.line) [Import.generated] :=
    .of_import (by decide)
  have h := (Holds.package (hpackage config.interfacePackage (by simp)))
    |>.append .empty |>.append (.of_imports hmodels) |>.append (.of_imports hcore)
    |>.append .empty |>.append hgenerated |>.append .empty
    |>.append (.of_imports hweb) |>.append .empty
  simp only [List.nil_append, List.append_nil] at h
  exact h

theorem holds_implementationHeader (hconfig : config.validate = .ok ())
    (hresource : Naming.IsName resource.name) :
    Holds (implementationHeader config resource) (implementationClasses config resource) := by
  have hpackage := Config.newline_not_mem_of_validate hconfig
  have hclasses : ∀ i ∈ implementationImports config resource, i.IsPlain := by
    refine List.forall_mem_append.mpr ⟨List.forall_mem_append.mpr ⟨?_, ?_⟩, ?_⟩
    · exact resource.isPlain_modelImports (hpackage config.modelPackage (by simp))
    · exact resource.isPlain_coreImports (hpackage config.corePackage (by simp))
    · intro i hi
      rw [List.mem_singleton.mp hi]
      exact ⟨hpackage config.interfacePackage (by simp), Naming.interfaceClass_isName hresource⟩
  have hresponse : Holds [Import.response.line, ""] [Import.response] :=
    .append (.of_import (by decide)) .empty
  have hcomponent : Holds ([Import.component].map Import.line) [Import.component] :=
    .of_import (by decide)
  have h := (Holds.package (hpackage config.implementationPackage (by simp)))
    |>.append .empty |>.append (.of_imports hclasses) |>.append .empty
    |>.append (hresponse.of_condition (resource.methods.any (·.response.isNone) = true))
    |>.append hcomponent |>.append .empty
  simp only [List.nil_append, List.append_nil] at h
  exact h

theorem holds_modelHeader (hconfig : config.validate = .ok ()) (component : Component) :
    Holds (modelHeader config component) (modelClasses component) := by
  have hpackage := Config.newline_not_mem_of_validate hconfig
  have hdate : Holds [Import.date.line, ""] [Import.date] :=
    .append (.of_import (by decide)) .empty
  have hgenerated : Holds ([Import.generated].map Import.line) [Import.generated] :=
    .of_import (by decide)
  have hroot : Holds ([Import.root].map Import.line) [Import.root] := .of_import (by decide)
  have h := (Holds.package (hpackage config.modelPackage (by simp)))
    |>.append .empty
    |>.append (hdate.of_condition (component.properties.any (needsDate ·.javaType) = true))
    |>.append hgenerated |>.append .empty |>.append hroot |>.append .empty
  simp only [List.nil_append, List.append_nil] at h
  exact h

theorem holds_applicationHeader (hconfig : config.validate = .ok ()) :
    Holds (applicationHeader config) applicationClasses := by
  have hpackage := Config.newline_not_mem_of_validate hconfig
  have hutilities : Holds (Import.utilities.map Import.line) Import.utilities :=
    .of_imports (by decide)
  have hfixed : ∀ i ∈ [Import.generated, Import.application, Import.component],
      Holds ([i].map Import.line) [i] := by
    have hplain : ∀ i ∈ [Import.generated, Import.application, Import.component], i.IsPlain := by
      decide
    exact fun i hi => .of_import (hplain i hi)
  have h := (Holds.package (hpackage config.apiPackage (by simp)))
    |>.append .empty |>.append hutilities |>.append .empty
    |>.append (hfixed Import.generated (by simp)) |>.append .empty
    |>.append (hfixed Import.application (by simp)) |>.append .empty
    |>.append (hfixed Import.component (by simp)) |>.append .empty
  simp only [List.nil_append, List.append_nil] at h
  exact h

theorem importLines_interface (hconfig : config.validate = .ok ()) :
    importLines (interfaceSource config version resource) =
      (interfaceClasses config resource).map Import.line := by
  obtain ⟨rest, hsource⟩ := exists_interfaceSource_eq config version resource
  rw [hsource, (holds_interfaceHeader hconfig).importLines_eq]

theorem importLines_implementation (hconfig : config.validate = .ok ())
    (hresource : Naming.IsName resource.name) :
    importLines (implementationSource config version resource) =
      (implementationClasses config resource).map Import.line := by
  obtain ⟨rest, hsource⟩ := exists_implementationSource_eq config version resource
  rw [hsource, (holds_implementationHeader hconfig hresource).importLines_eq]

theorem importLines_model (hconfig : config.validate = .ok ()) (component : Component) :
    importLines (modelSource config component) = (modelClasses component).map Import.line := by
  obtain ⟨rest, hsource⟩ := exists_modelSource_eq config component
  rw [hsource, (holds_modelHeader hconfig component).importLines_eq]

/-- The import lines of an application class, whatever is inserted for its authentication. -/
theorem importLines_application (hconfig : config.validate = .ok ()) (resources : List Resource)
    {inserted : List (String × String)}
    (hinserted : inserted.map (·.1) = (application config resources).insertions.map (·.1)) :
    importLines
        ((application config resources).filled inserted Template.applicationText).contents =
      applicationClasses.map Import.line := by
  obtain ⟨rest, hsource⟩ := exists_applicationSource_eq config resources hinserted
  rw [hsource, (holds_applicationHeader hconfig).importLines_eq]

end Sheet

end RestModule
