import RestModule.Proofs.FilePath.Parts
import RestModule.Proofs.Run.Course

/-!
# Tasks

What a run does to a file system are tasks: directories and files that are made unless they exist,
and files that are written in any case. A state in which tasks have been done is settled: everything
they make is there, and each path holds what was last written to it in any case (`Settled`). Doing
them again leaves such a state as it is (`Settled.alike`). So tasks that were cut off after any of
their calls and are then done from the beginning lead where they would have led at once
(`alike_worked_of_initial`). -/

namespace RestModule

namespace FileSystem

variable {σ : Type} (fs : FileSystem σ)

/-! ## States that are alike -/

/-- A view of the directories of a file system apart from its files. -/
structure Directories where
  isDirectory : σ → FilePath → Bool
  isDirectory_createDirectory : ∀ s directory path,
    isDirectory (fs.after s (.createDirectory directory)) path =
      (isDirectory s path || fs.makes directory path)
  isDirectory_write : ∀ s file contents path,
    isDirectory (fs.after s (.write file contents)) path = isDirectory s path

/-- States with the same files, contents and directories. -/
structure Alike (s t : σ) : Prop where
  read? : ∀ path, fs.read? s path = fs.read? t path
  has : ∀ path, fs.has s path = fs.has t path
  isDirectory : ∀ (view : fs.Directories) path, view.isDirectory s path = view.isDirectory t path

variable {fs} {s t u : σ}

namespace Alike

theorem refl (s : σ) : fs.Alike s s :=
  ⟨fun _ => rfl, fun _ => rfl, fun _ _ => rfl⟩

theorem trans (hst : fs.Alike s t) (htu : fs.Alike t u) : fs.Alike s u :=
  ⟨fun path => (hst.read? path).trans (htu.read? path),
    fun path => (hst.has path).trans (htu.has path),
    fun view path => (hst.isDirectory view path).trans (htu.isDirectory view path)⟩

theorem after (h : fs.Alike s t) (call : Call) : fs.Alike (fs.after s call) (fs.after t call) := by
  cases call with
  | createDirectory directory =>
    refine ⟨fun path => ?_, fun path => ?_, fun view path => ?_⟩
    · rw [fs.read?_createDirectory, fs.read?_createDirectory, h.read?]
    · rw [fs.has_createDirectory, fs.has_createDirectory, h.has]
    · rw [view.isDirectory_createDirectory, view.isDirectory_createDirectory, h.isDirectory]
  | write file contents =>
    refine ⟨fun path => ?_, fun path => ?_, fun view path => ?_⟩
    · rw [fs.read?_write, fs.read?_write, h.read?]
    · rw [fs.has_write, fs.has_write, h.has]
    · rw [view.isDirectory_write, view.isDirectory_write, h.isDirectory]

theorem afterAll (h : fs.Alike s t) (calls : List Call) :
    fs.Alike (fs.afterAll s calls) (fs.afterAll t calls) := by
  induction calls generalizing s t with
  | nil => exact h
  | cons call rest ih => exact ih (h.after call)

end Alike

/-! ## What calls leave -/

theorem has_after {path : FilePath} (h : fs.has s path = true) (call : Call) :
    fs.has (fs.after s call) path = true := by
  cases call with
  | createDirectory directory => rw [fs.has_createDirectory, h, Bool.true_or]
  | write file contents => rw [fs.has_write, h, Bool.true_or]

theorem has_afterAll {path : FilePath} (h : fs.has s path = true) (calls : List Call) :
    fs.has (fs.afterAll s calls) path = true := by
  induction calls generalizing s with
  | nil => exact h
  | cons call rest ih => exact ih (has_after h call)

variable (fs) in
/-- A directory is there with all that creating it makes exist. -/
def Created (s : σ) (directory : FilePath) : Prop :=
  ∀ path, fs.makes directory path = true →
    fs.has s path = true ∧ ∀ view : fs.Directories, view.isDirectory s path = true

theorem created_after (s : σ) (directory : FilePath) :
    fs.Created (fs.after s (.createDirectory directory)) directory := by
  intro path hmakes
  refine ⟨?_, fun view => ?_⟩
  · rw [fs.has_createDirectory, hmakes, Bool.or_true]
  · rw [view.isDirectory_createDirectory, hmakes, Bool.or_true]

namespace Created

variable {directory : FilePath}

theorem after (h : fs.Created s directory) (call : Call) :
    fs.Created (fs.after s call) directory := by
  intro path hmakes
  obtain ⟨hhas, hdirectory⟩ := h path hmakes
  refine ⟨has_after hhas call, fun view => ?_⟩
  cases call with
  | createDirectory other => rw [view.isDirectory_createDirectory, hdirectory, Bool.true_or]
  | write file contents => rw [view.isDirectory_write, hdirectory]

/-- Creating a directory that is there changes nothing. -/
theorem alike (h : fs.Created s directory) :
    fs.Alike (fs.after s (.createDirectory directory)) s := by
  have hor : ∀ {b c : Bool}, (c = true → b = true) → (b || c) = b := by decide
  refine ⟨fun path => ?_, fun path => ?_, fun view path => ?_⟩
  · rw [fs.read?_createDirectory]
  · rw [fs.has_createDirectory, hor fun hmakes => (h path hmakes).1]
  · rw [view.isDirectory_createDirectory, hor fun hmakes => (h path hmakes).2 view]

end Created

/-- The calls that write a file write that one alone. -/
theorem read?_afterAll_calls (s : σ) (file : Rendered) (path : FilePath) :
    fs.read? (fs.afterAll s file.calls) path =
      if path.same file.path then some file.contents else fs.read? s path := by
  unfold Rendered.calls
  cases file.path.parent? with
  | none => exact fs.read?_write ..
  | some directory => exact (fs.read?_write ..).trans (by rw [fs.read?_createDirectory])

theorem has_afterAll_calls (s : σ) (file : Rendered) :
    fs.has (fs.afterAll s file.calls) file.path = true := by
  rw [Rendered.calls, afterAll_append, afterAll_cons, afterAll_nil, fs.has_write,
    FilePath.same_self _, Bool.or_true]

theorem created_afterAll_calls (s : σ) {file : Rendered} {directory : FilePath}
    (h : file.path.parent? = some directory) :
    fs.Created (fs.afterAll s file.calls) directory := by
  rw [Rendered.calls, h]
  exact (created_after s directory).after (.write file.path file.contents)

end FileSystem

/-! ## Tasks -/

/-- A piece of the work on a file system. -/
inductive Task where
  /-- A directory is created unless it exists. -/
  | directory (path : FilePath)
  /-- A file is written unless it exists. -/
  | create (file : Rendered)
  /-- A file is written in any case. -/
  | replace (file : Rendered)

namespace Task

/-- The calls of a task that is not needless. -/
def calls : Task → List Call
  | directory path => [.createDirectory path]
  | create file | replace file => file.calls

/-- The contents of the last file among tasks that is written to a path in any case. -/
def latest? (path : FilePath) : List Task → Option String
  | [] => none
  | replace file :: rest =>
    (latest? path rest).or (if path.same file.path then some file.contents else none)
  | _ :: rest => latest? path rest

end Task

namespace FileSystem

variable {σ : Type} (fs : FileSystem σ)

/-- Whether a task is needless, as what it makes exists. -/
def isDone (s : σ) : Task → Bool
  | .directory path => fs.has s path
  | .create file => fs.has s file.path
  | .replace _ => false

/-- The calls that a task makes at a state. -/
def pending (s : σ) (task : Task) : List Call :=
  if fs.isDone s task then [] else task.calls

/-- The calls that tasks make one after another. -/
def work (s : σ) : List Task → List Call
  | [] => []
  | task :: rest => fs.pending s task ++ work (fs.afterAll s (fs.pending s task)) rest

/-- The state that tasks lead to. -/
def worked (s : σ) (tasks : List Task) : σ :=
  fs.afterAll s (fs.work s tasks)

/-- The state shows that a task has been done. -/
def Made (s : σ) : Task → Prop
  | .directory path => fs.has s path = true
  | .create file => fs.has s file.path = true
  | .replace file => fs.has s file.path = true ∧
    ∀ directory, file.path.parent? = some directory → fs.Created s directory

/-- The state shows that tasks have been done, and which of them wrote a path last in any case. -/
structure Settled (s : σ) (tasks : List Task) : Prop where
  made : ∀ task ∈ tasks, fs.Made s task
  latest : ∀ path contents, Task.latest? path tasks = some contents →
    fs.read? s path = some contents

theorem worked_cons (s : σ) (task : Task) (rest : List Task) :
    fs.worked s (task :: rest) = fs.worked (fs.afterAll s (fs.pending s task)) rest :=
  fs.afterAll_append ..

theorem worked_append (s : σ) (first second : List Task) :
    fs.worked s (first ++ second) = fs.worked (fs.worked s first) second := by
  induction first generalizing s with
  | nil => rfl
  | cons task rest ih => rw [List.cons_append, worked_cons, ih, worked_cons]

variable {fs} {s t : σ}

theorem pending_of_isDone {task : Task} (h : fs.isDone s task = true) : fs.pending s task = [] :=
  if_pos h

theorem pending_of_not_isDone {task : Task} (h : fs.isDone s task = false) :
    fs.pending s task = task.calls := by
  rw [pending, h]
  rfl

theorem Alike.pending_eq (h : fs.Alike s t) (task : Task) :
    fs.pending s task = fs.pending t task := by
  have hdone : fs.isDone s task = fs.isDone t task := by
    cases task with
    | directory path => exact h.has path
    | create file => exact h.has file.path
    | replace file => rfl
  rw [pending, pending, hdone]

/-- Tasks lead from states that are alike to such ones. -/
theorem Alike.worked (h : fs.Alike s t) (tasks : List Task) :
    fs.Alike (fs.worked s tasks) (fs.worked t tasks) := by
  induction tasks generalizing s t with
  | nil => exact h
  | cons task rest ih =>
    rw [worked_cons, worked_cons, ← h.pending_eq]
    exact ih (h.afterAll _)

/-! ## States in which tasks have been done -/

theorem Made.after {task : Task} (h : fs.Made s task) (call : Call) :
    fs.Made (fs.after s call) task := by
  cases task with
  | directory path => exact has_after h call
  | create file => exact has_after h call
  | replace file =>
    obtain ⟨hhas, hcreated⟩ := h
    exact ⟨has_after hhas call, fun directory hparent => (hcreated directory hparent).after call⟩

theorem Made.afterAll {task : Task} (h : fs.Made s task) (calls : List Call) :
    fs.Made (fs.afterAll s calls) task := by
  induction calls generalizing s with
  | nil => exact h
  | cons call rest ih => exact ih (h.after call)

/-- Doing a task makes what it is to make. -/
theorem made_pending (s : σ) (task : Task) :
    fs.Made (fs.afterAll s (fs.pending s task)) task := by
  cases hdone : fs.isDone s task with
  | true =>
    rw [pending_of_isDone hdone]
    cases task with
    | directory path => exact hdone
    | create file => exact hdone
    | replace file => cases hdone
  | false =>
    rw [pending_of_not_isDone hdone]
    cases task with
    | directory path =>
      have h := fs.has_createDirectory s path path
      rw [fs.makes_self, Bool.or_true] at h
      exact h
    | create file => exact has_afterAll_calls s file
    | replace file => exact ⟨has_afterAll_calls s file, fun _ => created_afterAll_calls s⟩

/-- A task that writes no file to an existing path in any case leaves what is there. -/
theorem read?_pending {path : FilePath} {task : Task} (hhas : fs.has s path = true)
    (hlatest : Task.latest? path [task] = none) :
    fs.read? (fs.afterAll s (fs.pending s task)) path = fs.read? s path := by
  cases hdone : fs.isDone s task with
  | true => rw [pending_of_isDone hdone, afterAll_nil]
  | false =>
    rw [pending_of_not_isDone hdone]
    cases task with
    | directory other => exact fs.read?_createDirectory s other path
    | create file =>
      have hother : path.same file.path = false := by
        refine Bool.eq_false_iff.mpr fun hsame => ?_
        rw [fs.has_same hsame] at hhas
        exact Bool.false_ne_true (hdone.symm.trans hhas)
      rw [Task.calls, read?_afterAll_calls, hother]
      rfl
    | replace file =>
      have hother : path.same file.path = false := by
        simpa [Task.latest?] using hlatest
      rw [Task.calls, read?_afterAll_calls, hother]
      rfl

theorem Task.latest?_cons (path : FilePath) (task : Task) (rest : List Task) :
    Task.latest? path (task :: rest) = (Task.latest? path rest).or (Task.latest? path [task]) := by
  cases task <;> simp [Task.latest?]

theorem Task.latest?_concat {path : FilePath} {file : Rendered} (h : path.same file.path = true)
    (tasks : List Task) : Task.latest? path (tasks ++ [.replace file]) = some file.contents := by
  induction tasks with
  | nil => simp [Task.latest?, h]
  | cons task rest ih => rw [List.cons_append, Task.latest?_cons, ih, Option.some_or]

theorem read?_worked {path : FilePath} {tasks : List Task} (hhas : fs.has s path = true)
    (hlatest : Task.latest? path tasks = none) :
    fs.read? (fs.worked s tasks) path = fs.read? s path := by
  induction tasks generalizing s with
  | nil => rfl
  | cons task rest ih =>
    rw [Task.latest?_cons, Option.or_eq_none_iff] at hlatest
    rw [worked_cons, ih (has_afterAll hhas _) hlatest.1, read?_pending hhas hlatest.2]

/-- Tasks that have been done have settled. -/
theorem settled_worked (s : σ) (tasks : List Task) : fs.Settled (fs.worked s tasks) tasks := by
  induction tasks generalizing s with
  | nil => exact ⟨fun _ h => (List.not_mem_nil h).elim, fun _ _ h => nomatch h⟩
  | cons task rest ih =>
    rw [worked_cons]
    have hmade : fs.Made _ task := made_pending s task
    generalize hnext : fs.afterAll s (fs.pending s task) = next at hmade
    refine ⟨fun other hother => ?_, fun path contents hlatest => ?_⟩
    · rcases List.mem_cons.mp hother with rfl | hother
      · exact hmade.afterAll _
      · exact (ih next).made other hother
    · -- a later task that writes the path in any case decides what it holds; if there is none, what
      -- this task writes stays
      rw [Task.latest?_cons] at hlatest
      cases hrest : Task.latest? path rest with
      | some later =>
        rw [hrest] at hlatest
        exact (ih next).latest path contents (hrest.trans hlatest)
      | none =>
        rw [hrest, Option.none_or] at hlatest
        cases task with
        | directory other => cases hlatest
        | create file => cases hlatest
        | replace file =>
          obtain ⟨hsame, hcontents⟩ : path.same file.path = true ∧ file.contents = contents := by
            simpa [Task.latest?] using hlatest
          rw [read?_worked ((fs.has_same hsame).trans hmade.1) hrest, ← hnext,
            pending_of_not_isDone rfl, Task.calls, read?_afterAll_calls, hsame, hcontents]
          rfl

/-! ## Doing tasks again -/

/-- Writing a file whose directory is there comes down to the write. -/
theorem Made.alike_calls {file : Rendered} (h : fs.Made s (.replace file)) :
    fs.Alike (fs.afterAll s file.calls) (fs.after s (.write file.path file.contents)) := by
  unfold Rendered.calls
  cases hparent : file.path.parent? with
  | none => exact .refl _
  | some directory => exact (h.2 directory hparent).alike.after _

/-- A task that has been done is needless, or writes its file in any case. -/
theorem Made.pending_cases {task : Task} (h : fs.Made s task) :
    (fs.pending s task = [] ∧ ∀ path, Task.latest? path [task] = none) ∨
      ∃ file, task = .replace file := by
  cases task with
  | directory path =>
    have hdone : fs.isDone s (.directory path) = true := h
    exact .inl ⟨pending_of_isDone hdone, fun _ => rfl⟩
  | create file =>
    have hdone : fs.isDone s (.create file) = true := h
    exact .inl ⟨pending_of_isDone hdone, fun _ => rfl⟩
  | replace file => exact .inr ⟨file, rfl⟩

/-- What doing a task again may change is the contents of the file it writes in any case. -/
theorem Made.read?_pending {task : Task} (h : fs.Made s task) (path : FilePath) :
    fs.read? (fs.afterAll s (fs.pending s task)) path =
      (Task.latest? path [task]).or (fs.read? s path) := by
  obtain ⟨hpending, hlatest⟩ | ⟨file, rfl⟩ := h.pending_cases
  · rw [hpending, hlatest, Option.none_or, afterAll_nil]
  · rw [pending_of_not_isDone rfl, Task.calls, read?_afterAll_calls]
    cases hsame : path.same file.path <;> simp [Task.latest?, hsame]

theorem Made.has_pending {task : Task} (h : fs.Made s task) (path : FilePath) :
    fs.has (fs.afterAll s (fs.pending s task)) path = fs.has s path := by
  obtain ⟨hpending, -⟩ | ⟨file, rfl⟩ := h.pending_cases
  · rw [hpending, afterAll_nil]
  · rw [pending_of_not_isDone rfl, Task.calls, h.alike_calls.has, fs.has_write]
    cases hsame : path.same file.path with
    | false => rw [Bool.or_false]
    | true => rw [Bool.or_true, fs.has_same hsame, h.1]

theorem Made.isDirectory_pending {task : Task} (h : fs.Made s task) (view : fs.Directories)
    (path : FilePath) :
    view.isDirectory (fs.afterAll s (fs.pending s task)) path = view.isDirectory s path := by
  obtain ⟨hpending, -⟩ | ⟨file, rfl⟩ := h.pending_cases
  · rw [hpending, afterAll_nil]
  · rw [pending_of_not_isDone rfl, Task.calls, h.alike_calls.isDirectory, view.isDirectory_write]

/-- Doing tasks again writes the files that they write in any case, and nothing else. -/
theorem worked_of_made {tasks : List Task} (h : ∀ task ∈ tasks, fs.Made s task) :
    (∀ path, fs.read? (fs.worked s tasks) path =
        (Task.latest? path tasks).or (fs.read? s path)) ∧
      (∀ path, fs.has (fs.worked s tasks) path = fs.has s path) ∧
      ∀ (view : fs.Directories) path,
        view.isDirectory (fs.worked s tasks) path = view.isDirectory s path := by
  induction tasks generalizing s with
  | nil => exact ⟨fun _ => rfl, fun _ => rfl, fun _ _ => rfl⟩
  | cons task rest ih =>
    have hmade := h task List.mem_cons_self
    obtain ⟨hread, hhas, hdirectory⟩ :=
      ih fun other hother => (h other (List.mem_cons_of_mem _ hother)).afterAll (fs.pending s task)
    rw [worked_cons]
    refine ⟨fun path => ?_, fun path => ?_, fun view path => ?_⟩
    · rw [hread, hmade.read?_pending, Task.latest?_cons path task rest, Option.or_assoc]
    · rw [hhas, hmade.has_pending]
    · rw [hdirectory, hmade.isDirectory_pending]

namespace Settled

variable {tasks : List Task}

/-- Tasks that have settled change nothing. -/
theorem alike (h : fs.Settled s tasks) : fs.Alike (fs.worked s tasks) s := by
  obtain ⟨hread, hhas, hdirectory⟩ := worked_of_made h.made
  refine ⟨fun path => ?_, hhas, hdirectory⟩
  rw [hread]
  cases hlatest : Task.latest? path tasks with
  | none => rw [Option.none_or]
  | some contents => rw [Option.some_or, h.latest path contents hlatest]

theorem createDirectory (h : fs.Settled s tasks) (directory : FilePath) :
    fs.Settled (fs.after s (.createDirectory directory)) tasks where
  made task htask := (h.made task htask).after _
  latest path contents hlatest :=
    (fs.read?_createDirectory s directory path).trans (h.latest path contents hlatest)

end Settled

/-! ## Tasks that were cut off -/

variable (fs) in
/-- Calls stop after some tasks, or in the next one between creating the directory of its file and
writing the file. -/
inductive Stops (s : σ) (earlier : List Task) : List Task → List Call → Prop where
  | between (later : List Task) : Stops s earlier later (fs.work s earlier)
  | within {task : Task} {directory : FilePath} {call : Call} (rest : List Task)
    (hpending : fs.pending (fs.worked s earlier) task = [.createDirectory directory, call]) :
    Stops s earlier (task :: rest) (fs.work s earlier ++ [.createDirectory directory])

theorem Stops.cons {task : Task} {earlier later : List Task} {done : List Call}
    (h : fs.Stops (fs.afterAll s (fs.pending s task)) earlier later done) :
    fs.Stops s (task :: earlier) later (fs.pending s task ++ done) := by
  cases h with
  | between => exact .between later
  | within rest hpending =>
    rw [← List.append_assoc]
    exact .within rest (by rw [worked_cons, hpending])

theorem eq_of_initial_singleton {call : Call} {begun : List Call} (h : begun <+: [call]) :
    begun = [] ∨ begun = [call] := by
  rcases List.prefix_cons_iff.mp h with rfl | ⟨more, rfl, hmore⟩
  · exact .inl rfl
  · rw [List.prefix_nil.mp hmore]
    exact .inr rfl

theorem cases_of_initial_calls {file : Rendered} {begun : List Call} (h : begun <+: file.calls) :
    begun = [] ∨ begun = file.calls ∨ ∃ directory call, begun = [.createDirectory directory] ∧
      file.calls = [.createDirectory directory, call] := by
  unfold Rendered.calls at h ⊢
  rcases List.prefix_concat_iff.mp h with heq | hbegun
  · exact .inr (.inl heq)
  · cases hparent : file.path.parent? with
    | none =>
      rw [hparent] at hbegun
      exact .inl (List.prefix_nil.mp hbegun)
    | some directory =>
      rw [hparent] at hbegun
      rcases eq_of_initial_singleton hbegun with heq | heq
      · exact .inl heq
      · exact .inr (.inr ⟨directory, _, heq, rfl⟩)

/-- An initial part of the calls of a task is nothing, everything, or the creation of the directory
of its file. -/
theorem cases_of_initial_pending {task : Task} {begun : List Call}
    (h : begun <+: fs.pending s task) :
    begun = [] ∨ begun = fs.pending s task ∨ ∃ directory call,
      begun = [.createDirectory directory] ∧
        fs.pending s task = [.createDirectory directory, call] := by
  cases hdone : fs.isDone s task with
  | true =>
    rw [pending_of_isDone hdone] at h
    exact .inl (List.prefix_nil.mp h)
  | false =>
    rw [pending_of_not_isDone hdone] at h ⊢
    cases task with
    | directory path =>
      rcases eq_of_initial_singleton h with heq | heq
      · exact .inl heq
      · exact .inr (.inl heq)
    | create file => exact cases_of_initial_calls h
    | replace file => exact cases_of_initial_calls h

theorem exists_stops {tasks : List Task} {done : List Call} (h : done <+: fs.work s tasks) :
    ∃ earlier later, tasks = earlier ++ later ∧ fs.Stops s earlier later done := by
  -- the calls of the first task are either all made or the ones that the cut falls on
  induction tasks generalizing s done with
  | nil =>
    rw [List.prefix_nil.mp h]
    exact ⟨[], [], rfl, .between []⟩
  | cons task rest ih =>
    have hthrough : fs.pending s task <+: done → ∃ earlier later,
        task :: rest = earlier ++ later ∧ fs.Stops s earlier later done := by
      rintro ⟨more, rfl⟩
      obtain ⟨earlier, later, rfl, hstops⟩ := ih ((List.prefix_append_right_inj _).mp h)
      exact ⟨task :: earlier, later, rfl, hstops.cons⟩
    rcases List.prefix_or_prefix_of_prefix h (List.prefix_append _ _) with hbegun | hpending
    · rcases cases_of_initial_pending hbegun with rfl | rfl | ⟨directory, call, rfl, hpending⟩
      · exact ⟨[], task :: rest, rfl, .between _⟩
      · exact hthrough List.prefix_rfl
      · exact ⟨[], task :: rest, rfl, .within rest hpending⟩
    · exact hthrough hpending

variable (fs) in
/-- Creating a directory makes nothing exist but that one and those above it. -/
def MakesAbove : Prop :=
  ∀ directory path, fs.makes directory path = true → path.components <+: directory.components

private theorem parent?_of_calls {file : Rendered} {directory : FilePath} {call : Call}
    (h : file.calls = [.createDirectory directory, call]) :
    file.path.parent? = some directory := by
  unfold Rendered.calls at h
  cases hparent : file.path.parent? with
  | none =>
    rw [hparent] at h
    cases h
  | some other =>
    rw [hparent] at h
    cases h
    rfl

/-- A task that stopped before it wrote its file still has all of its calls to make. -/
theorem pending_createDirectory (hmakes : fs.MakesAbove) {task : Task} {directory : FilePath}
    {call : Call} (h : fs.pending s task = [.createDirectory directory, call]) :
    fs.pending (fs.after s (.createDirectory directory)) task = fs.pending s task := by
  cases hdone : fs.isDone s task with
  | true => cases (pending_of_isDone hdone).symm.trans h
  | false =>
    have hcalls := (pending_of_not_isDone hdone).symm.trans h
    rw [pending_of_not_isDone hdone]
    refine pending_of_not_isDone ?_
    cases task with
    | directory path => cases hcalls
    | replace file => rfl
    | create file =>
      have hparent : file.path.parent? = some directory := parent?_of_calls hcalls
      -- the path of the file has one component more than the directory above it
      have hnew : fs.makes directory file.path = false := by
        refine Bool.eq_false_iff.mpr fun hmade => ?_
        obtain ⟨last, heq⟩ := FilePath.components_parent hparent
        have hlength := (hmakes directory file.path hmade).length_le
        rw [heq, List.length_append, List.length_singleton] at hlength
        omega
      have hhas := fs.has_createDirectory s directory file.path
      rw [hnew, Bool.or_false] at hhas
      exact hhas.trans hdone

/-- Tasks that were cut off after any of their calls and are done again lead where they would have
led at once. -/
theorem alike_worked_of_initial (hmakes : fs.MakesAbove) {tasks : List Task} {done : List Call}
    (h : done <+: fs.work s tasks) :
    fs.Alike (fs.worked (fs.afterAll s done) tasks) (fs.worked s tasks) := by
  obtain ⟨earlier, later, rfl, hstops⟩ := exists_stops h
  have hsettled : fs.Settled _ earlier := settled_worked s earlier
  rw [worked_append, worked_append]
  cases hstops with
  | between => exact hsettled.alike.worked later
  | @within task directory call rest hpending =>
    rw [afterAll_append, ← worked]
    -- doing the earlier tasks again changes nothing, and the cut task then makes the calls it would
    -- have made; the second creation of its directory is without effect
    generalize fs.worked s earlier = before at hsettled hpending
    have hcreated : fs.Created _ directory := created_after before directory
    refine ((hsettled.createDirectory directory).alike.worked (task :: rest)).trans ?_
    rw [worked_cons, worked_cons, pending_createDirectory hmakes hpending, hpending]
    exact (hcreated.alike.after call).worked rest

end FileSystem

end RestModule
