import RestModule.Proofs.Run.Course

/-!
# Runs over files in memory

A run over the store of files in memory is the run of a launch over these files as a file system
(`Memory.generate_eq`): the templates are those that the memory overrides, and calls fail on the
names that it refuses. Neither changes during a run. -/

namespace RestModule

namespace Memory

/-- The launch whose run is a run over a memory. -/
def launch (memory : Memory) (config : Config) (text : String) (library : Template.Library) :
    Launch where
  config
  text
  library
  look := memory.look
  faults _ call := if memory.fails call.path then some .readOnly else none

theorem change_eq (path : FilePath) (update : Memory → Memory) (memory : Memory) :
    change path update memory =
      if memory.fails path then (.error .readOnly, memory) else (.ok (), update memory) := by
  change (if memory.fails path = true then _ else _ : StateM Memory (Except Fault Unit)) memory = _
  split <;> rfl

/-- A memory in which the same names fail and the same templates are overridden. -/
def Agrees (memory later : Memory) : Prop :=
  later.failing = memory.failing ∧ later.overrides = memory.overrides

/-- An action over a memory as a file system ends as one over its own store does. -/
def Simulates {α : Type} (memory : Memory) (action : Run (StateM (Memory × Nat)) α)
    (direct : Run (StateM Memory) α) : Prop :=
  ∀ progress n before, memory.Agrees before →
    ∃ result after count state, memory.Agrees state ∧
      Run.exec action progress (before, n) = ⟨result, after, (state, count)⟩ ∧
      Run.exec direct progress before = ⟨result, after, state⟩

namespace Simulates

variable {α β γ : Type} {memory : Memory}

theorem ofExcept (result : Except Error α) :
    Simulates memory (Run.ofExcept result) (Run.ofExcept result) :=
  fun progress n before hagrees =>
    ⟨result, progress, n, before, hagrees, Run.exec_ofExcept .., Run.exec_ofExcept ..⟩

theorem pure (a : α) : Simulates memory (Pure.pure a) (Pure.pure a) :=
  ofExcept (.ok a)

theorem read : Simulates memory get get :=
  fun progress n before hagrees => ⟨.ok progress, progress, n, before, hagrees, rfl, rfl⟩

theorem update (f : Progress → Progress) : Simulates memory (modify f) (modify f) :=
  fun progress n before hagrees => ⟨.ok ⟨⟩, f progress, n, before, hagrees, rfl, rfl⟩

theorem lift {effect : StateM (Memory × Nat) α} {direct : StateM Memory α}
    (h : ∀ n before, memory.Agrees before →
      ∃ a count state, memory.Agrees state ∧ effect (before, n) = (a, (state, count)) ∧
        direct before = (a, state)) :
    Simulates memory (liftM effect) (liftM direct) := by
  intro progress n before hagrees
  obtain ⟨a, count, state, hstate, heffect, hdirect⟩ := h n before hagrees
  refine ⟨.ok a, progress, count, state, hstate, ?_, ?_⟩
  · rw [Run.exec_lift, heffect]
  · rw [Run.exec_lift, hdirect]

theorem bind {action : Run (StateM (Memory × Nat)) α} {direct : Run (StateM Memory) α}
    {next : α → Run (StateM (Memory × Nat)) β} {directNext : α → Run (StateM Memory) β}
    (h : Simulates memory action direct) (hnext : ∀ a, Simulates memory (next a) (directNext a)) :
    Simulates memory (action >>= next) (direct >>= directNext) := by
  intro progress n before hagrees
  obtain ⟨result, after, count, state, hstate, haction, hdirect⟩ := h progress n before hagrees
  rw [Run.exec_bind, Run.exec_bind, haction, hdirect]
  cases result with
  | error error => exact ⟨.error error, after, count, state, hstate, rfl, rfl⟩
  | ok a => exact hnext a after count state hstate

theorem mapM {action : γ → Run (StateM (Memory × Nat)) α} {direct : γ → Run (StateM Memory) α}
    (h : ∀ x, Simulates memory (action x) (direct x)) (xs : List γ) :
    Simulates memory (xs.mapM action) (xs.mapM direct) := by
  induction xs with
  | nil => exact pure []
  | cons x rest ih =>
    rw [List.mapM_cons, List.mapM_cons]
    exact (h x).bind fun a => ih.bind fun as => pure (a :: as)

theorem forM {action : γ → Run (StateM (Memory × Nat)) PUnit}
    {direct : γ → Run (StateM Memory) PUnit}
    (h : ∀ x, Simulates memory (action x) (direct x)) (xs : List γ) :
    Simulates memory (xs.forM action) (xs.forM direct) := by
  induction xs with
  | nil => exact pure PUnit.unit
  | cons x rest ih => exact (h x).bind fun _ => ih

/-! ### The actions of a run -/

variable {config : Config} {text : String} {library : Template.Library}

variable (config text library) in
theorem request (call : Call) :
    Simulates memory
      (Run.request call (fileSystem.respond (memory.launch config text library).faults call))
      (Run.request call (change call.path (fileSystem.after · call))) := by
  refine (update _).bind fun _ => (lift fun n before hagrees => ?_).bind fun answer => ?_
  · have hfails : before.fails call.path = memory.fails call.path := by
      rw [fails, fails, hagrees.1]
    have hchange := change_eq call.path (fileSystem.after · call) before
    rw [hfails] at hchange
    by_cases hfault : memory.fails call.path = true
    · rw [if_pos hfault] at hchange
      exact ⟨_, n + 1, before, hagrees, by simp only [FileSystem.respond, launch, if_pos hfault],
        hchange⟩
    · rw [if_neg hfault] at hchange
      refine ⟨_, n + 1, fileSystem.after before call, ?_, ?_, hchange⟩
      · cases call <;> exact hagrees
      · simp only [FileSystem.respond, launch, if_neg hfault]
  · cases answer with
    | ok _ => exact pure ()
    | error fault => exact ofExcept (.error _)

variable (memory config text library) in
/-- The store of the launch. -/
private abbrev tracked : Store (StateM (Memory × Nat)) :=
  (memory.launch config text library).store fileSystem

theorem note (event : Event) : Simulates memory (Run.note event) (Run.note event) :=
  update _

theorem template (name : String) :
    Simulates memory (Run.template (tracked memory config text library) name)
      (Run.template store name) := by
  refine read.bind fun progress => ?_
  refine (lift fun n before hagrees => ?_).bind fun loading => (update _).bind fun _ => ?_
  · have hlook : before.look = memory.look := by
      funext path
      rw [look, look, hagrees.2]
    refine ⟨progress.library.loading before.look name, n, before, hagrees, ?_, ?_⟩
    · rw [hlook]
      exact congrFun (Template.Library.load_pure memory.look progress.library name) (before, n)
    · unfold Template.Library.loading Template.Library.load
      cases progress.library.known.lookup name with
      | some text => rfl
      | none => cases progress.library.directory <;> rfl
  · split
    · exact (note _).bind fun _ => ofExcept _
    · exact ofExcept _

theorem render (sheet : Sheet) :
    Simulates memory (sheet.render (Run.template (tracked memory config text library)))
      (sheet.render (Run.template store)) := by
  refine (mapM (fun insertion => ?_) sheet.insertions).bind fun inserted => ?_
  · exact (template insertion.2).bind fun text => pure (insertion.1, text)
  · exact (template sheet.template).bind fun text => pure (sheet.filled inserted text)

theorem place (file : Rendered) :
    Simulates memory (Run.place (tracked memory config text library) config file)
      (Run.place store config file) := by
  refine (lift fun n before hagrees => ?_).bind fun kept => ?_
  · refine ⟨fileSystem.keeps config before file, n, before, hagrees, ?_, ?_⟩ <;>
    · unfold Run.isKept FileSystem.keeps
      cases file.protection.isLifted config <;> rfl
  · cases kept with
    | true => exact (note _).bind fun _ => pure _
    | false =>
      have hwrite : Simulates memory _ _ :=
        (request config text library (.write file.path file.contents)).bind fun _ =>
          (note (.wrote file.path)).bind fun _ => pure (Outcome.written file.path)
      cases file.path.parent? with
      | none => exact hwrite
      | some directory => exact (request _ _ _ (.createDirectory directory)).bind fun _ => hwrite

theorem ensureDirectory (path : FilePath) :
    Simulates memory (Run.ensureDirectory (tracked memory config text library) path)
      (Run.ensureDirectory store path) := by
  refine (lift fun n before hagrees => ⟨before.has path, n, before, hagrees, rfl, rfl⟩).bind
    fun known => ?_
  cases known with
  | true => exact pure ()
  | false => exact (request _ _ _ (.createDirectory path)).bind fun _ => note _

theorem step (step : Step) :
    Simulates memory (Run.step (tracked memory config text library) config step)
      (Run.step store config step) := by
  cases step with
  | enter stage => exact update _
  | directory path => exact ensureDirectory path
  | file sheet => exact (render sheet).bind fun file => (place file).bind fun outcome => update _
  | announce component => exact note _

theorem importText (text : String) : Simulates memory (Run.importText text) (Run.importText text) :=
  (forM (fun _ => note _) _).bind fun _ => (ofExcept _).bind fun definition =>
    (note _).bind fun _ => pure definition

variable (config text library) in
theorem body :
    Simulates memory
      (Run.body (tracked memory config text library) config (Pure.pure (.ok text)))
      (Run.body store config (Pure.pure (.ok text))) := by
  refine (ofExcept _).bind fun _ => (update _).bind fun _ => ?_
  refine (lift fun n before hagrees => ⟨_, n, before, hagrees, rfl, rfl⟩).bind fun fetched => ?_
  refine (ofExcept fetched).bind fun text => (importText text).bind fun definition => ?_
  exact (forM step _).bind fun _ => read.bind fun progress => pure (progress.report definition)

end Simulates

/-- A run over a memory is the run of a launch over it as a file system. -/
theorem generate_eq (memory : Memory) (config : Config) (text : String)
    (library : Template.Library) :
    Run.generate store library config (pure (.ok text)) memory =
      (memory.launch config text library).run fileSystem memory := by
  obtain ⟨result, after, count, state, -, htracked, hdirect⟩ :=
    Simulates.body config text library (.ofLibrary library) 0 memory ⟨rfl, rfl⟩
  unfold Launch.run
  rw [Run.generate_eq_exec, hdirect]
  have htracked : Run.generate ((memory.launch config text library).store fileSystem) library config
      (pure (.ok text)) (memory, 0) = (⟨result, Run.close result after⟩, (state, count)) := by
    rw [Run.generate_eq_exec, htracked]
  simp only [launch] at htracked ⊢
  rw [htracked]

end Memory

end RestModule
