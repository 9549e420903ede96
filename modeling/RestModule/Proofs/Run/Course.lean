import RestModule.Proofs.Run.Intent

/-!
# The course of a run

The intent of every action of a run, up to that of the whole run (`Launch.intent`). It is computed
from the launch and from what the file system answers; apart from it, a run is decided by the first
of its calls that fails (`Launch.run_follows`). -/

namespace RestModule

/-- Whether a file is left as it is at a state. -/
def FileSystem.keeps {σ : Type} (fs : FileSystem σ) (config : Config) (s : σ) (file : Rendered) :
    Bool :=
  !file.protection.isLifted config && fs.has s file.path

namespace Rendered

/-- The calls that write a file. -/
def calls (file : Rendered) : List Call :=
  (file.path.parent?.map .createDirectory).toList ++ [.write file.path file.contents]

/-- What becomes of a file that is kept. -/
def kept (file : Rendered) : Kept := ⟨file.path, file.protection⟩

end Rendered

namespace Launch

variable {σ : Type} (launch : Launch) (fs : FileSystem σ)

/-- The intent for a file. -/
def placing (s : σ) (file : Rendered) : Intent Outcome :=
  if fs.keeps launch.config s file then .ending (.ok (.skipped file.kept))
  else ⟨file.calls, [], .ok (.written file.path)⟩

/-- The intent for a sheet. -/
def making (s : σ) (sheet : Sheet) : Intent Unit :=
  (Intent.ending (launch.rendered sheet)).bind fun file =>
    (launch.placing fs s file).bind fun outcome => ⟨[], [outcome], .ok ()⟩

/-- The intent of a step of a plan. -/
def doing (s : σ) : Step → Intent Unit
  | .enter _ | .announce _ => .ending (.ok ())
  | .directory path =>
    if fs.has s path then .ending (.ok ()) else ⟨[.createDirectory path], [], .ok ()⟩
  | .file sheet => launch.making fs s sheet

/-- The intent of the steps of a plan. -/
def course (s : σ) : List Step → Intent Unit
  | [] => .ending (.ok ())
  | step :: rest =>
    (launch.doing fs s step).bind fun () =>
      course (fs.afterAll s (launch.doing fs s step).calls) rest

/-- The definition that a run goes by. -/
def definition : Except Error Definition := do
  launch.config.validate
  Definition.ofText launch.text

/-- The intent of a run, with the definition it goes by as its value. -/
def intent (s : σ) : Intent Definition :=
  (Intent.ending launch.definition).bind fun definition =>
    (launch.course fs s (definition.plan launch.config)).bind fun () => .ending (.ok definition)

/-- The store that a run is made over. -/
abbrev store : Store (StateM (σ × Nat)) :=
  fs.store launch.look launch.faults

end Launch

namespace Intends

variable {σ α β γ : Type} {launch : Launch} {fs : FileSystem σ} {s : σ}

/-- An action without calls and then another one. -/
theorem bind_ending {action : Run (StateM (σ × Nat)) α} {next : α → Run (StateM (σ × Nat)) β}
    {result : Except Error α} {more : α → Except Error β}
    (h : Intends launch fs s action (.ending result))
    (hnext : ∀ a, result = .ok a → Intends launch fs s (next a) (.ending (more a))) :
    Intends launch fs s (action >>= next) (.ending (result >>= more)) := by
  have hbind : Intends launch fs s (action >>= next)
      ((Intent.ending result).bind fun a => .ending (more a)) := h.bind hnext
  rw [Intent.ending_bind] at hbind
  cases result <;> exact hbind

theorem mapM {action : γ → Run (StateM (σ × Nat)) α} {result : γ → Except Error α}
    (h : ∀ x, Intends launch fs s (action x) (.ending (result x))) (xs : List γ) :
    Intends launch fs s (xs.mapM action) (.ending (xs.mapM result)) := by
  induction xs with
  | nil => exact pure []
  | cons x rest ih =>
    rw [List.mapM_cons, List.mapM_cons]
    exact (h x).bind_ending fun a _ => ih.bind_ending fun as _ => pure (a :: as)

/-- Looking a template up changes neither files nor what other templates are. -/
theorem template (name : String) :
    Intends launch fs s (Run.template (launch.store fs) name) (.ending (launch.lookUp name)) := by
  refine of_quiet fun progress n hserves => ?_
  have hload : progress.library.load (launch.store fs).look name =
      (Pure.pure (progress.library.loading launch.look name) :
        StateM (σ × Nat) Template.Loading) :=
    Template.Library.load_pure launch.look progress.library name
  have hserves' : launch.Serves (progress.library.loading launch.look name).library := by
    intro other
    rw [Template.Library.answer_loading]
    exact hserves other
  have hresult : (progress.library.loading launch.look name).result = launch.lookUp name := by
    rw [Template.Library.result_loading launch.look progress.library name]
    exact hserves name
  have hpure : ∀ answer : Template.Loading,
      (Pure.pure answer : StateM (σ × Nat) Template.Loading) (s, n) = (answer, (s, n)) :=
    fun _ => rfl
  simp only [Run.template, Run.exec_bind, Run.exec_get, Run.exec_modify, Run.exec_lift, hload,
    hpure]
  generalize progress.library.loading launch.look name = loading at hserves' hresult
  rw [← hresult]
  cases loading.file with
  | none => exact ⟨_, Run.exec_ofExcept .., rfl, by simp, by simp, hserves'⟩
  | some file =>
    refine ⟨Progress.record (.event (.overridden name file))
      { progress with library := loading.library }, ?_, ?_, by simp [Progress.record],
      by simp [Progress.record], hserves'⟩
    · simp [Run.note]
    · simp [Progress.record, Entry.calls]

theorem render (sheet : Sheet) :
    Intends launch fs s (sheet.render (Run.template (launch.store fs)))
      (.ending (launch.rendered sheet)) := by
  refine bind_ending (mapM (fun insertion => ?_) sheet.insertions) fun inserted _ => ?_
  · exact (template insertion.2).bind_ending fun text _ => pure (insertion.1, text)
  · exact (template sheet.template).bind_ending fun text _ => pure (sheet.filled inserted text)

theorem place (file : Rendered) :
    Intends launch fs s (Run.place (launch.store fs) launch.config file)
      (launch.placing fs s file) := by
  have hkeeps : ∀ n, (Run.isKept (launch.store fs) launch.config file : StateM (σ × Nat) Bool)
      (s, n) = (fs.keeps launch.config s file, (s, n)) := by
    intro n
    unfold Run.isKept FileSystem.keeps
    cases file.protection.isLifted launch.config <;> rfl
  change Intends launch fs s _ ((Intent.ending (.ok (fs.keeps launch.config s file))).bind
    fun kept => if kept then .ending (.ok (Outcome.skipped file.kept))
      else ⟨file.calls, [], .ok (.written file.path)⟩)
  refine bind (ask hkeeps) fun kept _ => ?_
  cases kept with
  | true => exact (note _).bind_ending fun _ _ => pure _
  | false =>
    have hwrite (t : σ) : Intends launch fs t _ _ :=
      (request (.write file.path file.contents)).bind fun _ _ =>
        (note (.wrote file.path)).bind fun _ _ => pure (Outcome.written file.path)
    unfold Rendered.calls
    cases file.path.parent? with
    | none => exact hwrite _
    | some directory => exact (request _).bind fun _ _ => hwrite _

theorem make (sheet : Sheet) :
    Intends launch fs s (Run.make (launch.store fs) launch.config sheet)
      (launch.making fs s sheet) :=
  (render sheet).bind fun file _ => (place file).bind fun outcome _ => add outcome

theorem ensureDirectory (path : FilePath) :
    Intends launch fs s (Run.ensureDirectory (launch.store fs) path)
      (launch.doing fs s (.directory path)) := by
  change Intends launch fs s _ ((Intent.ending (.ok (fs.has s path))).bind fun known =>
    if known then .ending (.ok ()) else ⟨[.createDirectory path], [], .ok ()⟩)
  refine bind (ask fun _ => rfl) fun known _ => ?_
  cases known with
  | true => exact pure ()
  | false => exact (request _).bind fun _ _ => note _

theorem step (step : Step) :
    Intends launch fs s (Run.step (launch.store fs) launch.config step)
      (launch.doing fs s step) := by
  cases step with
  | enter stage => exact enter stage
  | directory path => exact ensureDirectory path
  | file sheet => exact make sheet
  | announce component => exact note _

theorem steps (plan : List Step) :
    Intends launch fs s (Run.steps (launch.store fs) launch.config plan)
      (launch.course fs s plan) := by
  induction plan generalizing s with
  | nil => exact pure ()
  | cons first rest ih =>
    exact (step first).bind fun _ _ => ih

theorem notes (event : γ → Event) (xs : List γ) :
    Intends launch fs s (xs.forM fun x => Run.note (event x)) (.ending (.ok ())) := by
  induction xs with
  | nil => exact pure ()
  | cons x rest ih => exact (note (event x)).bind_ending fun _ _ => ih

theorem importText (text : String) :
    Intends launch fs s (Run.importText text) (.ending (Definition.ofText text)) := by
  have h : Intends launch fs s (Run.importText text) (.ending (Except.ok () >>= fun _ =>
      Definition.ofText text >>= fun definition => Except.ok () >>= fun _ => .ok definition)) :=
    (notes _ _).bind_ending fun _ _ => (ofExcept _).bind_ending fun definition _ =>
      (note _).bind_ending fun _ _ => pure definition
  cases htext : Definition.ofText text <;> (rw [htext] at h; exact h)

end Intends

/-- The report of a run over a definition in which files became what the outcomes say. -/
def Report.ofOutcomes (outcomes : List Outcome) (definition : Definition) : Report where
  written := outcomes.filterMap (·.written?)
  skipped := outcomes.filterMap (·.skipped?)
  usedModels := definition.usedModels
  unreachable := definition.unreachableModels.map (·.name)

namespace Launch

variable {σ : Type} (launch : Launch) (fs : FileSystem σ)

/-- A run up to the last step of its plan. -/
def working : Run (StateM (σ × Nat)) Definition := do
  Run.ofExcept launch.config.validate
  Run.enter .importing
  let definition ← Run.importText launch.text
  Run.steps (launch.store fs) launch.config (definition.plan launch.config)
  return definition

theorem intends_working (s : σ) :
    Intends launch fs s (launch.working fs) (launch.intent fs s) := by
  have hopening : Intends launch fs s
      (Run.ofExcept launch.config.validate >>= fun _ => Run.enter .importing >>= fun _ =>
        Run.importText launch.text) (.ending launch.definition) :=
    (Intends.ofExcept _).bind_ending fun _ _ => (Intends.enter .importing).bind fun _ _ =>
      Intends.importText launch.text
  have hbind : launch.working fs =
      (Run.ofExcept launch.config.validate >>= fun _ => Run.enter .importing >>= fun _ =>
        Run.importText launch.text) >>= fun definition =>
          Run.steps (launch.store fs) launch.config (definition.plan launch.config) >>= fun _ =>
            pure definition := by
    simp only [working, bind_assoc]
  rw [hbind]
  exact hopening.bind fun definition _ => (Intends.steps _).bind fun _ _ => .pure definition

/-- The body of a run. -/
theorem body_eq :
    Run.body (launch.store fs) launch.config (pure (.ok launch.text)) =
      launch.working fs >>= fun definition => return (← get).report definition := by
  simp only [Run.body, working, bind_assoc, pure_bind]
  rfl

/-- The calls of a run until one of them fails. -/
def attempt (s : σ) : Attempt :=
  .ofCalls launch.faults 0 (launch.intent fs s).calls

theorem calls_close (result : Except Error Report) (progress : Progress) :
    Entry.calls (Run.close result progress).journal = Entry.calls progress.journal := by
  cases result <;> simp [Run.close, Progress.record, Progress.enter, Entry.calls]

private theorem outcomes_close (result : Except Error Report) (progress : Progress) :
    (Run.close result progress).written = progress.written ∧
      (Run.close result progress).skipped = progress.skipped := by
  cases result <;> exact ⟨rfl, rfl⟩

/-- A run makes the calls of its work, and its result is a report on that. -/
private theorem run_working (s : σ) {ending : Ending (σ × Nat) Definition}
    (h : Run.exec (launch.working fs) (.ofLibrary launch.library) (s, 0) = ending) :
    Entry.calls (launch.run fs s).1.progress.journal = Entry.calls ending.progress.journal ∧
      (launch.run fs s).2 = ending.state.1 ∧
      (launch.run fs s).1.result = ending.result.map ending.progress.report ∧
      (launch.run fs s).1.progress.written = ending.progress.written ∧
      (launch.run fs s).1.progress.skipped = ending.progress.skipped := by
  unfold run
  rw [Run.generate_eq_exec, body_eq]
  simp only [Run.exec_bind, Run.exec_get, Run.exec_pure, calls_close, outcomes_close, h]
  obtain ⟨result, progress, state⟩ := ending
  cases result <;> exact ⟨rfl, rfl, rfl, rfl, rfl⟩

/-- A run makes the calls of its intent until one fails. It ends with the fault of that call, or as
the intent says. -/
theorem run_follows (s : σ) :
    Entry.calls (launch.run fs s).1.progress.journal = (launch.attempt fs s).made ∧
      (launch.run fs s).2 = fs.afterAll s (launch.attempt fs s).done ∧
      (launch.run fs s).1.result =
        match (launch.attempt fs s).failed with
        | some (call, fault) => .error (.output call.path fault)
        | none => (launch.intent fs s).result.map (.ofOutcomes (launch.intent fs s).outcomes) := by
  obtain ⟨hcalls, hstate, hresult, -⟩ := launch.run_working fs s rfl
  have h := launch.intends_working fs s (.ofLibrary launch.library) 0 fun _ => rfl
  refine ⟨by rw [hcalls, h.calls]; rfl, by rw [hstate, h.state]; rfl, ?_⟩
  rw [hresult]
  unfold attempt
  cases hfailed : (Attempt.ofCalls launch.faults 0 (launch.intent fs s).calls).failed with
  | some failed =>
    rw [h.failed _ _ hfailed]
    rfl
  | none =>
    have hcompletes := h.completed hfailed
    rw [hcompletes.result]
    refine congrArg (Except.map · _) (funext fun definition => ?_)
    simp only [Progress.report, Report.ofOutcomes, hcompletes.written, hcompletes.skipped]
    rfl

/-- A run none of whose calls fails has kept account of all its outcomes, however it ends. -/
theorem outcomes_of_not_failed {s : σ} (h : (launch.attempt fs s).failed = none) :
    (launch.run fs s).1.progress.written =
        (launch.intent fs s).outcomes.filterMap (·.written?) ∧
      (launch.run fs s).1.progress.skipped =
        (launch.intent fs s).outcomes.filterMap (·.skipped?) := by
  obtain ⟨-, -, -, hwritten, hskipped⟩ := launch.run_working fs s rfl
  have hworking := launch.intends_working fs s (.ofLibrary launch.library) 0 fun _ => rfl
  have hcompletes := hworking.completed h
  rw [hwritten, hskipped, hcompletes.written, hcompletes.skipped]
  exact ⟨List.nil_append _, List.nil_append _⟩

end Launch

end RestModule
