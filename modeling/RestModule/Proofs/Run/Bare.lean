import RestModule.Proofs.Run.Containment
import RestModule.Proofs.Run.Stages
import RestModule.Proofs.Sheet.Bare

/-!
# Runs leave no placeholder

With the built-in templates, a run over bare names, paths and values writes bare contents only, so that
no placeholder is left in any of them (`Run.writes_bare`). -/

namespace RestModule

open Text (IsBare)

/-! ## Definitions -/

/-- The version, the names and the paths of a definition are bare. -/
structure Definition.HasBareNames (definition : Definition) : Prop where
  version : IsBare definition.version
  resources : ∀ resource ∈ definition.resources, IsBare resource.name
  methods : ∀ resource ∈ definition.resources, ∀ method ∈ resource.methods,
    IsBare method.name ∧ IsBare method.relativePath ∧
      ∀ parameter ∈ method.parameters, IsBare parameter.name
  models : ∀ component ∈ definition.models, IsBare component.name ∧
    ∀ property ∈ component.properties, IsBare property.name

namespace Definition

instance (definition : Definition) : Decidable definition.HasBareNames :=
  decidable_of_iff
    (IsBare definition.version ∧
      (∀ resource ∈ definition.resources, IsBare resource.name ∧ ∀ method ∈ resource.methods,
        IsBare method.name ∧ IsBare method.relativePath ∧
          ∀ parameter ∈ method.parameters, IsBare parameter.name) ∧
      ∀ component ∈ definition.models, IsBare component.name ∧
        ∀ property ∈ component.properties, IsBare property.name)
    ⟨fun ⟨hversion, hresources, hmodels⟩ => ⟨hversion, fun resource h => (hresources resource h).1,
        fun resource h => (hresources resource h).2, hmodels⟩,
      fun h => ⟨h.version, fun resource hmem => ⟨h.resources resource hmem, h.methods resource hmem⟩,
        h.models⟩⟩

variable {text : String} {definition : Definition} {config : Config}

theorem isBare_of_types (h : definition.HasBareNames) {type : SchemaType} {javaType : String}
    (htypes : definition.typeMap.Types type javaType) : IsBare javaType := by
  refine TypeMap.isBare_of_javaType (fun name hname => ?_) (htypes "")
  obtain ⟨component, hcomponent, rfl⟩ := List.mem_map.mp hname
  exact (h.models component hcomponent).1

section Parts

variable (himport : ofText text = .ok definition) (h : definition.HasBareNames)

include himport h

theorem component_bare {component : Component} (hmem : component ∈ definition.models) :
    component.HasBareParts := by
  obtain ⟨hname, hproperties⟩ := h.models component hmem
  refine ⟨hname, fun property hproperty => ⟨hproperties property hproperty, ?_⟩⟩
  exact isBare_of_types h ((closed_of_ofText himport).properties component
    (List.mem_filter.mp hmem).1 property hproperty)

theorem resource_bare {resource : Resource} (hmem : resource ∈ definition.resources) :
    resource.HasBareParts := by
  have hclosed := closed_of_ofText himport
  refine ⟨Naming.isBareName_iff.mpr ⟨isName_of_ofText himport resource hmem,
    h.resources resource hmem⟩, fun method hmethod => ?_, fun name hname => ?_⟩
  · obtain ⟨hname, hpath, hparameters⟩ := h.methods resource hmem method hmethod
    refine ⟨hname, hpath, fun parameter hparameter => ⟨hparameters parameter hparameter, ?_⟩,
      fun body hbody => ?_⟩
    · exact isBare_of_types h
        (hclosed.parameters resource hmem method hmethod parameter hparameter)
    · obtain ⟨component, hcomponent, hmodel⟩ := hclosed.bodies resource hmem method hmethod body hbody
      rw [← hmodel]
      exact (h.models component hcomponent).1
  · obtain ⟨component, hcomponent, rfl⟩ := hclosed.models resource hmem name hname
    exact (h.models component hcomponent).1

theorem sheets_bare (hconfig : config.HasBareParts) :
    ∀ sheet ∈ definition.sheets config, sheet.IsBare := by
  intro sheet hsheet
  rcases mem_sheets.mp hsheet with
    rfl | rfl | ⟨resource, hresource, rfl | rfl⟩ | ⟨component, hcomponent, rfl⟩ | rfl
  · exact Sheet.bundle_bare hconfig
  · exact Sheet.build_bare
  · exact Sheet.interface_bare hconfig (resource_bare himport h hresource) h.version
  · exact Sheet.implementation_bare hconfig (resource_bare himport h hresource) h.version
  · exact Sheet.model_bare hconfig (component_bare himport h hcomponent)
  · exact Sheet.application_bare hconfig fun resource hresource =>
      (resource_bare himport h hresource).name

end Parts

end Definition

/-! ## Built-in templates -/

namespace Template.Library

variable {τ : Type}

/-- Whatever is found for the name of a built-in template is its text. -/
structure FindsBuiltins (look : FilePath → StateM τ Override) (library : Library) : Prop where
  known : ∀ name text found, builtin? name = some text →
    library.known.lookup name = some found → found = text
  files : ∀ directory name text t found, library.directory = some directory →
    builtin? name = some text → (look (directory.join name) t).1 = .text found → found = text

/-- A look-up sees the files as they are when it begins. -/
theorem load_apply (look : FilePath → StateM τ Override) (library : Library) (name : String) (t : τ) :
    (library.load look name t).1 = library.loading (fun file => (look file t).1) name := by
  unfold load loading
  cases library.known.lookup name with
  | some text => rfl
  | none => cases library.directory <;> rfl

namespace FindsBuiltins

variable {look : FilePath → StateM τ Override} {library : Library} {name text : String}

theorem answer (h : library.FindsBuiltins look) (hname : builtin? name = some text) {t : τ}
    {found : String} (hfound : library.answer (fun file => (look file t).1) name = .ok found) :
    found = text := by
  unfold Library.answer at hfound
  cases hknown : library.known.lookup name with
  | some other =>
    rw [hknown] at hfound
    cases hfound
    exact h.known name text found hname hknown
  | none =>
    have hbuiltin : builtinAnswer name = .ok text := by rw [builtinAnswer, hname]
    rw [hknown] at hfound
    simp only [freshAnswer, hbuiltin] at hfound
    cases hdirectory : library.directory with
    | none =>
      rw [hdirectory] at hfound
      exact (Except.ok.inj hfound).symm
    | some directory =>
      rw [hdirectory] at hfound
      dsimp only at hfound
      split at hfound
      · next other hother =>
        cases hfound
        exact h.files directory name text t found hdirectory hname hother
      · cases hfound
      · exact (Except.ok.inj hfound).symm

theorem of_no_directory (look : FilePath → StateM τ Override) :
    (Library.ofDirectory none).FindsBuiltins look where
  known _ _ _ _ h := nomatch h
  files _ _ _ _ _ h := nomatch h

/-- A look-up finds the built-in text, if any, and so does every look-up after it. -/
theorem load (h : library.FindsBuiltins look) (name : String) (t : τ) :
    (library.load look name t).1.library.FindsBuiltins look ∧
      ∀ text found, builtin? name = some text →
        (library.load look name t).1.result = .ok found → found = text := by
  rw [load_apply]
  refine ⟨⟨fun other text found hother hfound => ?_, ?_⟩, fun text found hname hfound => ?_⟩
  · rw [lookup_loading] at hfound
    split at hfound
    · next heq =>
      subst heq
      cases hanswer : library.answer (fun file => (look file t).1) other with
      | error error =>
        rw [hanswer] at hfound
        cases hfound
      | ok answered =>
        rw [hanswer] at hfound
        cases hfound
        exact h.answer hother hanswer
    · exact h.known other text found hother hfound
  · rw [directory_loading]
    exact h.files
  · rw [result_loading] at hfound
    exact h.answer hname hfound

end FindsBuiltins

end Template.Library

/-! ## Actions -/

/-- The contents that a call writes are bare. -/
def Call.IsBare : Call → Prop
  | createDirectory _ => True
  | write _ contents => Text.IsBare contents

/-- A progress that has written bare contents only and goes on to find the built-in templates. -/
structure Progress.IsBare {τ : Type} (store : Store (StateM τ)) (progress : Progress) : Prop where
  library : progress.library.FindsBuiltins store.look
  calls : ∀ call ∈ Entry.calls progress.journal, call.IsBare

namespace Progress.IsBare

variable {τ : Type} {store : Store (StateM τ)} {progress : Progress} (h : progress.IsBare store)

include h

theorem record (event : Event) : (progress.record (.event event)).IsBare store :=
  ⟨h.library, by simpa [Progress.record, Entry.calls] using h.calls⟩

theorem enter (stage : Stage) : (progress.enter stage).IsBare store :=
  ⟨h.library, by simpa [Progress.enter, Progress.record, Entry.calls] using h.calls⟩

theorem request {call : Call} (hcall : call.IsBare) :
    (progress.record (.call call)).IsBare store := by
  refine ⟨h.library, ?_⟩
  have hcalls : Entry.calls (progress.record (.call call)).journal =
      Entry.calls progress.journal ++ [call] := by
    simp [Progress.record, Entry.calls]
  rw [hcalls]
  exact List.forall_mem_append.mpr ⟨h.calls, List.forall_mem_singleton.mpr hcall⟩

theorem add (outcome : Outcome) : (progress.add outcome).IsBare store := by
  cases outcome <;> exact ⟨h.library, h.calls⟩

end Progress.IsBare

namespace Run

variable {τ : Type} (store : Store (StateM τ))

theorem bare_note (event : Event) :
    Maintains (Progress.IsBare store) (note event : Run (StateM τ) Unit) :=
  .update fun _ h => h.record event

theorem bare_ofExcept {α : Type} (result : Except Error α) :
    Maintains (Progress.IsBare store) (ofExcept result : Run (StateM τ) α) :=
  .ofExcept (fun _ _ _ h => h) fun _ h => h

theorem bare_request {call : Call} (hcall : call.IsBare) (effect : StateM τ (Except Fault Unit)) :
    Maintains (Progress.IsBare store) (request call effect) := by
  refine .bind (.update fun _ h => h.request hcall) fun _ => ?_
  refine .bind (.lift fun _ _ h => h) fun answer => ?_
  cases answer with
  | ok _ => exact .pure fun _ h => h
  | error fault => exact bare_ofExcept store (.error (.output call.path fault))

/-- A template that is looked up is the built-in one. -/
theorem bare_template {name text : String} (hname : Template.builtin? name = some text) :
    Leads (Progress.IsBare store) (template store name)
      (fun found progress => found = text ∧ progress.IsBare store) (Progress.IsBare store) := by
  have hget : Leads (Progress.IsBare store) (MonadState.get : Run (StateM τ) Progress)
      (fun seen progress => seen.library.FindsBuiltins store.look ∧ progress.IsBare store)
      (Progress.IsBare store) :=
    .get fun progress h => ⟨h.library, h⟩
  refine hget.bind fun seen => .of_fact fun hseen => ?_
  have hload : Leads (Progress.IsBare store)
      (liftM (seen.library.load store.look name) : Run (StateM τ) Template.Loading)
      (fun loading progress => (loading.library.FindsBuiltins store.look ∧
        ∀ found, loading.result = .ok found → found = text) ∧ progress.IsBare store)
      (Progress.IsBare store) := by
    refine .answer fun t progress h => ⟨?_, h⟩
    obtain ⟨hlibrary, hfound⟩ := hseen.load name t
    exact ⟨hlibrary, fun found => hfound text found hname⟩
  refine hload.bind fun ⟨result, file, library⟩ => .of_fact fun ⟨hlibrary, hfound⟩ => ?_
  refine .bind (.update fun progress h => show Progress.IsBare store _ from ⟨hlibrary, h.calls⟩)
    fun _ => ?_
  have hresult : Leads (Progress.IsBare store) (ofExcept result : Run (StateM τ) String)
      (fun found progress => found = text ∧ progress.IsBare store) (Progress.IsBare store) :=
    .ofExcept (fun found _ hresult h => ⟨hfound found hresult, h⟩) fun _ h => h
  dsimp only
  split
  · exact (bare_note store _).bind fun _ => hresult
  · exact hresult

theorem names_of_inserted {insertions inserted : List (String × String)}
    (h : List.Forall₂ (fun insertion entry => entry.1 = insertion.1 ∧ IsBare entry.2) insertions
      inserted) :
    inserted.map (·.1) = insertions.map (·.1) ∧ ∀ entry ∈ inserted, IsBare entry.2 := by
  induction h with
  | nil => exact ⟨rfl, List.forall_mem_nil _⟩
  | cons hfirst _ ih =>
    obtain ⟨hname, hbare⟩ := hfirst
    refine ⟨?_, List.forall_mem_cons.mpr ⟨hbare, ih.2⟩⟩
    rw [List.map_cons, List.map_cons, hname, ih.1]

/-- The file of a sheet with bare texts is bare. -/
theorem bare_render {sheet : Sheet} (hsheet : sheet.IsBare) :
    Leads (Progress.IsBare store) (sheet.render (template store))
      (fun file progress => IsBare file.contents ∧ progress.IsBare store)
      (Progress.IsBare store) := by
  have hinsertions : Leads (Progress.IsBare store)
      (sheet.insertions.mapM fun insertion =>
        return (insertion.1, ← template store insertion.2) : Run (StateM τ) (List (String × String)))
      (fun inserted progress => List.Forall₂
        (fun insertion entry => entry.1 = insertion.1 ∧ IsBare entry.2) sheet.insertions inserted ∧
          progress.IsBare store) (Progress.IsBare store) := by
    refine .mapM fun insertion hinsertion => ?_
    obtain ⟨text, htext, hbare⟩ := hsheet.insertions insertion hinsertion
    refine (bare_template store htext).bind fun found => .of_fact fun hfound => ?_
    subst hfound
    exact .pure fun _ h => ⟨⟨rfl, hbare⟩, h⟩
  obtain ⟨text, htext, hfilled⟩ := hsheet.template
  refine hinsertions.bind fun inserted => .of_fact fun hinserted => ?_
  refine (bare_template store htext).bind fun found => .of_fact fun hfound => ?_
  subst hfound
  obtain ⟨hnames, hvalues⟩ := names_of_inserted hinserted
  refine .pure fun _ h => ⟨Template.isBare_render ?_ ?_, h⟩
  · rwa [List.map_append, hnames, ← List.map_append]
  · exact List.forall_mem_append.mpr ⟨hvalues, hsheet.values⟩

theorem bare_place {file : Rendered} (hfile : IsBare file.contents) (config : Config) :
    Maintains (Progress.IsBare store) (place store config file) := by
  refine .bind (.lift fun _ _ h => h) fun kept => ?_
  cases kept with
  | true => exact (bare_note store _).bind fun _ => .pure fun _ h => h
  | false =>
    have hcall : Call.IsBare (.write file.path file.contents) := hfile
    have hwrite := (bare_request store hcall (store.write file.path file.contents)).bind fun _ =>
      (bare_note store (.wrote file.path)).bind fun _ =>
        (.pure fun _ h => h : Maintains (Progress.IsBare store)
          (Pure.pure (Outcome.written file.path) : Run (StateM τ) Outcome))
    cases hparent : file.path.parent? with
    | none => exact hwrite
    | some directory =>
      have hdirectory : Call.IsBare (.createDirectory directory) := trivial
      exact (bare_request store hdirectory _).bind fun _ => hwrite

theorem bare_step (config : Config) {step : Step}
    (hsheet : ∀ sheet, step.sheet? = some sheet → sheet.IsBare) :
    Maintains (Progress.IsBare store) (Run.step store config step) := by
  cases step with
  | enter stage => exact .update fun _ h => h.enter stage
  | announce component => exact bare_note store _
  | directory path =>
    refine .bind (.lift fun _ _ h => h) fun known => ?_
    cases known with
    | true => exact .pure fun _ h => h
    | false =>
      have hcall : Call.IsBare (.createDirectory path) := trivial
      exact (bare_request store hcall _).bind fun _ => bare_note store _
  | file sheet =>
    refine (bare_render store (hsheet sheet rfl)).bind fun file => .of_fact fun hfile => ?_
    exact (bare_place store hfile config).bind fun outcome => .update fun _ h => h.add outcome

variable {store} {config : Config} {source : StateM τ (Except Error String)}

theorem bare_body (hconfig : config.HasBareParts)
    (hsource : ∀ t text definition, (source t).1 = .ok text →
      Definition.ofText text = .ok definition → definition.HasBareNames) :
    Maintains (Progress.IsBare store) (body store config source) := by
  refine (bare_ofExcept store _).bind fun _ => .bind (.update fun _ h => h.enter _) fun _ => ?_
  have hfetch : Leads (Progress.IsBare store) (liftM source : Run (StateM τ) (Except Error String))
      (fun fetched progress => (∀ text definition, fetched = .ok text →
        Definition.ofText text = .ok definition → definition.HasBareNames) ∧ progress.IsBare store)
      (Progress.IsBare store) :=
    .answer fun t _ h => ⟨hsource t, h⟩
  refine hfetch.bind fun fetched => .of_fact fun hfetched => ?_
  have htext : Leads (Progress.IsBare store) (ofExcept fetched : Run (StateM τ) String)
      (fun text progress => fetched = .ok text ∧ progress.IsBare store) (Progress.IsBare store) :=
    .ofExcept (fun _ _ hresult h => ⟨hresult, h⟩) fun _ h => h
  refine htext.bind fun text => .of_fact fun htext => ?_
  have himport : Leads (Progress.IsBare store) (importText text : Run (StateM τ) Definition)
      (fun definition progress => Definition.ofText text = .ok definition ∧ progress.IsBare store)
      (Progress.IsBare store) := by
    refine .bind (Maintains.forM (fun _ => bare_note store _) _) fun _ => ?_
    have hread : Leads (Progress.IsBare store)
        (ofExcept (Definition.ofText text) : Run (StateM τ) Definition)
        (fun definition progress => Definition.ofText text = .ok definition ∧
          progress.IsBare store) (Progress.IsBare store) :=
      .ofExcept (fun _ _ hresult h => ⟨hresult, h⟩) fun _ h => h
    refine hread.bind fun definition => .of_fact fun hdefinition => ?_
    exact (bare_note store _).bind fun _ => .pure fun _ h => ⟨hdefinition, h⟩
  refine himport.bind fun definition => .of_fact fun hdefinition => ?_
  have hsteps : Maintains (Progress.IsBare store) (steps store config (definition.plan config)) := by
    refine Leads.forM fun step hstep => bare_step store config fun sheet hsheet => ?_
    refine Definition.sheets_bare hdefinition (hfetched text definition htext hdefinition) hconfig
      sheet ?_
    rw [← Definition.filterMap_plan]
    exact List.mem_filterMap.mpr ⟨step, hstep, hsheet⟩
  exact hsteps.bind fun _ => .bind (.get fun _ h => h) fun progress => .pure fun _ h => h

/-- A run fetches its description once, from the state that it begins in. -/
theorem exec_body_source (progress : Progress) (t : τ) :
    exec (body store config source) progress t =
      exec (body store config fun _ => source t) progress t := by
  unfold body
  rw [exec_bind, exec_bind]
  cases config.validate with
  | error error => rfl
  | ok _ => rfl

/-- In every run that looks up the built-in templates, over bare values and a definition with bare
names, whatever it writes is free of dollar signs: no placeholder is left. -/
theorem writes_bare (store : Store (StateM τ)) (library : Template.Library) (config : Config)
    (source : StateM τ (Except Error String)) (t : τ)
    (hlibrary : library.FindsBuiltins store.look) (hconfig : config.HasBareParts)
    (hsource : ∀ text definition, (source t).1 = .ok text →
      Definition.ofText text = .ok definition → definition.HasBareNames) :
    ∀ path contents, .write path contents ∈
      Entry.calls (generate store library config source t).1.progress.journal →
        '$' ∉ contents.toList := by
  intro path contents hcall
  rw [generate_eq_exec] at hcall
  dsimp only at hcall
  rw [Launch.calls_close, exec_body_source] at hcall
  have hbody : Maintains (Progress.IsBare store) (body store config fun _ => source t) :=
    bare_body hconfig fun _ => hsource
  have hends := hbody (.ofLibrary library) t ⟨hlibrary, fun _ h => nomatch h⟩
  have hprogress : (exec (body store config fun _ => source t) (.ofLibrary library)
      t).progress.IsBare store := by
    split at hends <;> exact hends
  exact hprogress.calls _ hcall

/-- A store on which the bundle descriptor cannot be written. -/
def unwritable : Memory :=
  { Memory.empty with failing := some "bnd.bnd" }

/-- A run over the shop that stops at the bundle descriptor. -/
def shopStopped : Finished :=
  (generate Memory.store (.ofDirectory none) Launch.shop.config (pure (.ok Launch.shop.text))
    unwritable).1

/-- The bundle descriptor of the shop. -/
def shopBundle : String :=
  "Bundle-Name: Shop REST\nBundle-SymbolicName: org.shop.rest\nBundle-Version: 1.0.0\n"
    ++ "Liferay-Require-SchemaVersion: 1.0.0\n"

theorem writes_bare_shop :
    (∃ definition, Definition.ofText Launch.shop.text = .ok definition ∧
        definition.HasBareNames) ∧
      .write ⟨"shop-rest/bnd.bnd"⟩ shopBundle ∈ Entry.calls shopStopped.progress.journal ∧
        '$' ∉ shopBundle.toList := by
  have hread : (Definition.ofText Launch.shop.text).toOption.any (decide ·.HasBareNames) = true := by
    decide +kernel
  have hbare : ∀ definition, Definition.ofText Launch.shop.text = .ok definition →
      definition.HasBareNames := by
    intro definition h
    rw [h] at hread
    exact of_decide_eq_true hread
  obtain ⟨definition, hdefinition⟩ :=
    Except.exists_ok_of_isSome (x := Definition.ofText Launch.shop.text) (by decide +kernel)
  have hconfig : Launch.shop.config.HasBareParts := by
    constructor <;> decide
  have hcall : .write ⟨"shop-rest/bnd.bnd"⟩ shopBundle ∈
      Entry.calls shopStopped.progress.journal := by
    decide +kernel
  have hwrites := writes_bare Memory.store (.ofDirectory none) Launch.shop.config
    (pure (.ok Launch.shop.text)) unwritable (.of_no_directory _) hconfig
    fun text definition htext => by
      cases htext
      exact hbare definition
  refine ⟨⟨definition, hdefinition, hbare definition hdefinition⟩, hcall,
    hwrites ⟨"shop-rest/bnd.bnd"⟩ shopBundle ?_⟩
  rw [shopStopped] at hcall
  exact hcall

end Run

end RestModule
