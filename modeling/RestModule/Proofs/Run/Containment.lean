import RestModule.Proofs.Run.Course
import RestModule.Proofs.Sheet.Place

/-!
# Runs stay in the output directory

Whatever a run is given and whatever its store answers, each of its calls is for a path within the
output directory (`Run.calls_within_output`). The calls of an action are looked at one action at a
time (`Run.CallsOnly`), so that it does not matter where a run stops. -/

namespace RestModule

namespace Run

variable {τ α β γ : Type}

/-- An action ends with a value from some progress and state. -/
def Yields (action : Run (StateM τ) α) (a : α) : Prop :=
  ∃ progress t, (exec action progress t).result = .ok a

theorem Yields.of_bind {action : Run (StateM τ) α} {next : α → Run (StateM τ) β} {b : β}
    (h : Yields (action >>= next) b) : ∃ a, Yields action a ∧ Yields (next a) b := by
  obtain ⟨progress, t, h⟩ := h
  rw [exec_bind] at h
  split at h
  · next a ha => exact ⟨a, ⟨progress, t, ha⟩, _, _, h⟩
  · cases h

theorem Yields.of_pure {a b : α} (h : Yields (Pure.pure a : Run (StateM τ) α) b) : a = b := by
  obtain ⟨progress, t, h⟩ := h
  exact Except.ok.inj h

theorem Yields.of_ofExcept {result : Except Error α} {a : α}
    (h : Yields (ofExcept result : Run (StateM τ) α) a) : result = .ok a := by
  obtain ⟨progress, t, h⟩ := h
  rwa [exec_ofExcept] at h

/-- Every call that an action makes has a property. -/
def CallsOnly (p : Call → Prop) (action : Run (StateM τ) α) : Prop :=
  ∀ progress t, (∀ call ∈ Entry.calls progress.journal, p call) →
    ∀ call ∈ Entry.calls (exec action progress t).progress.journal, p call

namespace CallsOnly

variable {p : Call → Prop}

theorem pure (a : α) : CallsOnly p (Pure.pure a : Run (StateM τ) α) :=
  fun _ _ h => h

theorem get : CallsOnly p (MonadState.get : Run (StateM τ) Progress) :=
  fun _ _ h => h

theorem ofExcept (result : Except Error α) :
    CallsOnly p (Run.ofExcept result : Run (StateM τ) α) := by
  intro progress t h
  rw [exec_ofExcept]
  exact h

theorem lift (effect : StateM τ α) : CallsOnly p (liftM effect : Run (StateM τ) α) :=
  fun _ _ h => h

/-- An update of the progress that records no call. -/
theorem update {f : Progress → Progress}
    (hf : ∀ progress, Entry.calls (f progress).journal = Entry.calls progress.journal) :
    CallsOnly p (modify f : Run (StateM τ) Unit) := by
  intro progress t h
  rw [exec_modify, hf]
  exact h

theorem bind {action : Run (StateM τ) α} {next : α → Run (StateM τ) β} (h : CallsOnly p action)
    (hnext : ∀ a, Yields action a → CallsOnly p (next a)) : CallsOnly p (action >>= next) := by
  intro progress t hbefore
  have hafter := h progress t hbefore
  rw [exec_bind]
  split
  · next a ha => exact hnext a ⟨progress, t, ha⟩ _ _ hafter
  · exact hafter

theorem mapM {action : γ → Run (StateM τ) α} (h : ∀ x, CallsOnly p (action x)) (xs : List γ) :
    CallsOnly p (xs.mapM action) := by
  induction xs with
  | nil => exact pure []
  | cons x rest ih =>
    rw [List.mapM_cons]
    exact (h x).bind fun a _ => ih.bind fun as _ => pure (a :: as)

theorem forM {action : γ → Run (StateM τ) PUnit} {xs : List γ}
    (h : ∀ x ∈ xs, CallsOnly p (action x)) : CallsOnly p (xs.forM action) := by
  induction xs with
  | nil => exact pure PUnit.unit
  | cons x rest ih =>
    obtain ⟨hx, hrest⟩ := List.forall_mem_cons.mp h
    exact hx.bind fun _ _ => ih hrest

/-! ### The actions of a run -/

theorem note (event : Event) : CallsOnly p (Run.note event : Run (StateM τ) Unit) :=
  update fun progress => by simp [Progress.record, Entry.calls]

theorem enter (stage : Stage) : CallsOnly p (Run.enter stage : Run (StateM τ) Unit) :=
  update fun progress => by simp [Progress.enter, Progress.record, Entry.calls]

/-- A call to the store is the one that the action is for. -/
theorem request {call : Call} (h : p call) (effect : StateM τ (Except Fault Unit)) :
    CallsOnly p (Run.request call effect) := by
  have hrecord : CallsOnly p (modify (Progress.record (.call call)) : Run (StateM τ) Unit) := by
    intro progress t hbefore
    have hcalls : Entry.calls (progress.record (.call call)).journal =
        Entry.calls progress.journal ++ [call] := by
      simp [Progress.record, Entry.calls]
    rw [exec_modify, hcalls]
    exact List.forall_mem_append.mpr ⟨hbefore, List.forall_mem_singleton.mpr h⟩
  refine hrecord.bind fun _ _ => (lift effect).bind fun answer _ => ?_
  cases answer with
  | ok _ => exact pure ()
  | error fault => exact ofExcept (.error _)

theorem template (store : Store (StateM τ)) (name : String) :
    CallsOnly p (Run.template store name) := by
  refine get.bind fun progress _ => (lift _).bind fun loading _ => ?_
  refine (update (f := fun progress => { progress with library := loading.library })
    fun _ => rfl).bind fun _ _ => ?_
  dsimp only
  split
  · exact (note _).bind fun _ _ => ofExcept _
  · exact ofExcept _

theorem render (store : Store (StateM τ)) (sheet : Sheet) :
    CallsOnly p (sheet.render (Run.template store)) := by
  refine (mapM (fun insertion => ?_) sheet.insertions).bind fun inserted _ => ?_
  · exact (template store insertion.2).bind fun text _ => pure (insertion.1, text)
  · exact (template store sheet.template).bind fun text _ => pure (sheet.filled inserted text)

theorem place {file : Rendered} (store : Store (StateM τ)) (config : Config)
    (h : ∀ call ∈ file.calls, p call) : CallsOnly p (Run.place store config file) := by
  refine (lift _).bind fun kept _ => ?_
  cases kept with
  | true => exact (note _).bind fun _ _ => pure _
  | false =>
    have hwrite : CallsOnly p _ :=
      (request (h (.write file.path file.contents) (List.mem_append_right _ List.mem_cons_self))
        (store.write file.path file.contents)).bind fun _ _ =>
          (note (.wrote file.path)).bind fun _ _ => pure (Outcome.written file.path)
    unfold Rendered.calls at h
    cases hparent : file.path.parent? with
    | none => exact hwrite
    | some directory =>
      rw [hparent] at h
      exact (request (h _ List.mem_cons_self) _).bind fun _ _ => hwrite

end CallsOnly

/-- A file that comes of a sheet goes where the sheet says. -/
theorem Yields.path_eq {store : Store (StateM τ)} {sheet : Sheet} {file : Rendered}
    (h : Yields (sheet.render (Run.template store)) file) : file.path = sheet.path := by
  obtain ⟨inserted, -, h⟩ := h.of_bind
  obtain ⟨text, -, h⟩ := h.of_bind
  rw [← h.of_pure]
  rfl

/-! ## The output directory -/

/-- A call for a path within a directory. -/
def CallWithin (directory : FilePath) (call : Call) : Prop :=
  call.path.IsWithin directory

variable {config : Config}

theorem within_directory {names : List String} (h : IsDirectories names) :
    (config.directory names).IsWithin config.outputPath := by
  have hinner : ∀ name ∈ names, FilePath.IsInner name :=
    fun name hname => (h name hname).1.isInner (h name hname).2
  exact ⟨names, Config.components_directory fun name hname => (hinner name hname).1, hinner⟩

/-- The calls for the file of a sheet that lies in the module. -/
theorem within_of_lies {sheet : Sheet} {file : Rendered} {names : List String} {name : String}
    (h : sheet.Lies config names name) (hpath : file.path = sheet.path) :
    ∀ call ∈ file.calls, CallWithin config.outputPath call := by
  intro call hcall
  unfold Rendered.calls at hcall
  rw [hpath] at hcall
  rcases List.mem_append.mp hcall with hcall | hcall
  · obtain ⟨directory, hparent, rfl⟩ := Option.map_eq_some_iff.mp (Option.mem_toList.mp hcall)
    exact ⟨names, h.components_parent hparent,
      fun part hpart => h.isInner part (List.mem_append_left _ hpart)⟩
  · rw [List.mem_singleton.mp hcall]
    exact ⟨names ++ [name], h.components, h.isInner⟩

/-- A step of a plan whose directories and sheets lie in the module. -/
theorem callsOnly_step {store : Store (StateM τ)} {step : Step}
    (hdirectory : ∀ path, step = .directory path → path.IsWithin config.outputPath)
    (hsheet : ∀ sheet, step.sheet? = some sheet → ∃ names name, sheet.Lies config names name) :
    CallsOnly (CallWithin config.outputPath) (Run.step store config step) := by
  cases step with
  | enter stage => exact .enter stage
  | announce component => exact .note _
  | directory path =>
    refine (CallsOnly.lift _).bind fun known _ => ?_
    cases known with
    | true => exact .pure ()
    | false =>
      have hcall : CallWithin config.outputPath (.createDirectory path) := hdirectory path rfl
      exact (CallsOnly.request hcall _).bind fun _ _ => .note _
  | file sheet =>
    obtain ⟨names, name, hlies⟩ := hsheet sheet rfl
    refine (CallsOnly.render store sheet).bind fun file hfile => ?_
    refine (CallsOnly.place store config (within_of_lies hlies hfile.path_eq)).bind
      fun outcome _ => .update fun progress => ?_
    cases outcome <;> rfl

/-- Every step of the plan of an imported definition keeps to the module. -/
theorem callsOnly_plan {store : Store (StateM τ)} {text : String} {definition : Definition}
    (hconfig : config.validate = .ok ()) (htext : Definition.ofText text = .ok definition) :
    ∀ step ∈ definition.plan config,
      CallsOnly (CallWithin config.outputPath) (Run.step store config step) := by
  intro step hstep
  refine callsOnly_step (fun path heq => ?_) fun sheet hsheet => ?_
  · subst heq
    rw [Definition.plan_eq, Config.planDirectories_eq, Config.roots_eq] at hstep
    have hnames : ∀ names ∈ [[], ["src", "main", "java"], ["src", "main", "resources"]],
        IsDirectories names := by
      unfold IsDirectories
      decide
    rcases List.mem_append.mp hstep with hstep | hstep
    · simp only [List.mem_cons, reduceCtorEq, false_or, List.mem_map] at hstep
      obtain ⟨path, ⟨names, hmem, rfl⟩, heq⟩ := hstep
      cases heq
      exact within_directory (hnames names (by simpa using hmem))
    · cases Definition.isDirectory_of_mem_work hstep
  · refine Definition.exists_lies hconfig htext ?_
    rw [← Definition.filterMap_plan]
    exact List.mem_filterMap.mpr ⟨step, hstep, hsheet⟩

theorem Yields.of_importText {text : String} {definition : Definition}
    (h : Yields (importText text : Run (StateM τ) Definition) definition) :
    Definition.ofText text = .ok definition := by
  obtain ⟨_, -, h⟩ := h.of_bind
  obtain ⟨found, hfound, h⟩ := h.of_bind
  obtain ⟨_, -, h⟩ := h.of_bind
  rw [← h.of_pure]
  exact hfound.of_ofExcept

theorem callsOnly_body (store : Store (StateM τ)) (config : Config)
    (source : StateM τ (Except Error String)) :
    CallsOnly (CallWithin config.outputPath) (Run.body store config source) := by
  refine (CallsOnly.ofExcept _).bind fun _ hconfig => (CallsOnly.enter _).bind fun _ _ => ?_
  refine (CallsOnly.lift _).bind fun fetched _ => (CallsOnly.ofExcept _).bind fun text _ => ?_
  have himport : CallsOnly (CallWithin config.outputPath)
      (importText text : Run (StateM τ) Definition) :=
    (CallsOnly.forM fun _ _ => .note _).bind fun _ _ => (CallsOnly.ofExcept _).bind
      fun definition _ => (CallsOnly.note _).bind fun _ _ => .pure definition
  refine himport.bind fun definition hdefinition => ?_
  refine (CallsOnly.forM (callsOnly_plan hconfig.of_ofExcept hdefinition.of_importText)).bind
    fun _ _ => CallsOnly.get.bind fun progress _ => .pure _

/-- Every call of a run, completed or stopped, is for a path within the output directory: its
components are those of the output path and then parts none of which is empty, `.` or `..` or has a
slash in it. -/
theorem calls_within_output (store : Store (StateM τ)) (library : Template.Library)
    (config : Config) (source : StateM τ (Except Error String)) (t : τ) :
    ∀ call ∈ Entry.calls (generate store library config source t).1.progress.journal,
      ∃ parts, call.path.components = config.outputPath.components ++ parts ∧
        ∀ part ∈ parts, '/' ∉ part.toList ∧ part ≠ "" ∧ part ≠ "." ∧ part ≠ ".." := by
  intro call hcall
  rw [generate_eq_exec] at hcall
  dsimp only at hcall
  rw [Launch.calls_close] at hcall
  obtain ⟨parts, hparts, hinner⟩ := callsOnly_body store config source (.ofLibrary library) t
    (fun call hcall => nomatch hcall) call hcall
  refine ⟨parts, hparts, fun part hpart => ?_⟩
  obtain ⟨⟨hslash, hidle⟩, hup⟩ := hinner part hpart
  simp only [FilePath.isIdle, Bool.or_eq_false_iff, beq_eq_false_iff_ne, ne_eq] at hidle
  exact ⟨hslash, hidle.1, hidle.2, hup⟩

/-- Plain templates in memory. -/
def plainTemplates : Memory :=
  { Memory.empty with
    overrides :=
      [(⟨"templates/bnd.bnd.tpl"⟩, .text "bundle"), (⟨"templates/build.gradle.tpl"⟩, .text "build"),
        (⟨"templates/Model.java.tpl"⟩, .text "model"),
        (⟨"templates/Application.java.tpl"⟩, .text "application")] }

/-- A description with a schema that is named like a path. -/
def climbing : String :=
  "\x7b\"components\": \x7b\"schemas\": \x7b\"../../etc\": \x7b\x7d\x7d\x7d\x7d"

theorem calls_within_output_climbing :
    Call.write ⟨"out/src/main/java/model/EtcDTO.java"⟩ "model" ∈
        Entry.calls (generate Memory.store (.ofDirectory (some ⟨"templates"⟩)) Launch.plainConfig
          (pure (.ok climbing)) plainTemplates).1.progress.journal ∧
      ∃ parts, (Call.write ⟨"out/src/main/java/model/EtcDTO.java"⟩ "model").path.components =
          Launch.plainConfig.outputPath.components ++ parts ∧
        ∀ part ∈ parts, '/' ∉ part.toList ∧ part ≠ "" ∧ part ≠ "." ∧ part ≠ ".." := by
  have hcall : Call.write ⟨"out/src/main/java/model/EtcDTO.java"⟩ "model" ∈
      Entry.calls (generate Memory.store (.ofDirectory (some ⟨"templates"⟩)) Launch.plainConfig
        (pure (.ok climbing)) plainTemplates).1.progress.journal := by
    decide +kernel
  exact ⟨hcall, calls_within_output _ _ _ _ _ _ hcall⟩

end Run

end RestModule
