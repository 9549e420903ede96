import RestModule.Proofs.Run.Launch

/-!
# Intents

What an action of a run is to do is its intent: the calls it makes if none of them fails, what then
becomes of files, and the result. An action intends an intent at a state of the file system
(`Intends`) when it makes those calls one after another until one fails, and when it ends as the
intent says unless one did. Intents are composed as actions are (`Intends.bind`), so that what a run
does is read off a computation without effects. -/

namespace RestModule

/-! ## Execution -/

/-- How an action ends. -/
structure Ending (τ α : Type) where
  result : Except Error α
  progress : Progress
  state : τ

namespace Run

variable {τ α β : Type}

/-- Executes an action of a run from a progress and a state. -/
def exec (action : Run (StateM τ) α) (progress : Progress) (t : τ) : Ending τ α :=
  let ((result, progress), t) := action.run.run progress t
  ⟨result, progress, t⟩

@[simp]
theorem exec_pure (a : α) (progress : Progress) (t : τ) :
    exec (pure a) progress t = ⟨.ok a, progress, t⟩ := rfl

@[simp]
theorem exec_get (progress : Progress) (t : τ) :
    exec (get : Run (StateM τ) Progress) progress t = ⟨.ok progress, progress, t⟩ := rfl

@[simp]
theorem exec_modify (f : Progress → Progress) (progress : Progress) (t : τ) :
    exec (modify f : Run (StateM τ) Unit) progress t = ⟨.ok (), f progress, t⟩ := rfl

@[simp]
theorem exec_lift (effect : StateM τ α) (progress : Progress) (t : τ) :
    exec (liftM effect : Run (StateM τ) α) progress t =
      ⟨.ok (effect t).1, progress, (effect t).2⟩ := rfl

@[simp]
theorem exec_ofExcept (result : Except Error α) (progress : Progress) (t : τ) :
    exec (ofExcept result) progress t = ⟨result, progress, t⟩ := by
  cases result <;> rfl

@[simp]
theorem exec_bind (action : Run (StateM τ) α) (next : α → Run (StateM τ) β) (progress : Progress)
    (t : τ) :
    exec (action >>= next) progress t =
      match (exec action progress t).result with
      | .ok a => exec (next a) (exec action progress t).progress (exec action progress t).state
      | .error error =>
        ⟨.error error, (exec action progress t).progress, (exec action progress t).state⟩ := by
  simp only [exec, bind, ExceptT.run, ExceptT.bind, ExceptT.mk, StateT.bind, StateT.run]
  rcases action progress t with ⟨⟨result | result, _⟩, _⟩ <;> rfl

theorem generate_eq_exec (store : Store (StateM τ)) (library : Template.Library) (config : Config)
    (source : StateM τ (Except Error String)) (t : τ) :
    generate store library config source t =
      let ending := exec (body store config source) (.ofLibrary library) t
      (⟨ending.result, close ending.result ending.progress⟩, ending.state) := rfl

end Run

/-! ## Intents -/

/-- What an action is to do unless one of its calls fails. -/
structure Intent (α : Type) where
  calls : List Call
  /-- What becomes of files, in order. -/
  outcomes : List Outcome
  result : Except Error α

namespace Intent

variable {α β : Type}

/-- The intent that does nothing but end with a result. -/
def ending (result : Except Error α) : Intent α := ⟨[], [], result⟩

/-- An intent and then the one that follows from its value. -/
def bind (intent : Intent α) (next : α → Intent β) : Intent β :=
  match intent.result with
  | .ok a =>
    ⟨intent.calls ++ (next a).calls, intent.outcomes ++ (next a).outcomes, (next a).result⟩
  | .error error => ⟨intent.calls, intent.outcomes, .error error⟩

theorem exists_bind_calls (intent : Intent α) (next : α → Intent β) :
    ∃ rest, (intent.bind next).calls = intent.calls ++ rest := by
  unfold bind
  cases intent.result with
  | ok a => exact ⟨(next a).calls, rfl⟩
  | error error => exact ⟨[], by simp⟩

theorem bind_error {intent : Intent α} {next : α → Intent β} {error : Error}
    (h : (intent.bind next).result = .error error) :
    intent.result = .error error ∨ ∃ a, intent.result = .ok a ∧ (next a).result = .error error := by
  unfold bind at h
  split at h
  · next a ha => exact .inr ⟨a, ha, h⟩
  · next e he => exact .inl (he.trans (congrArg _ (Except.error.inj h)))

theorem bind_ok {intent : Intent α} {next : α → Intent β} {b : β}
    (h : (intent.bind next).result = .ok b) :
    ∃ a, intent.result = .ok a ∧ (next a).result = .ok b := by
  unfold bind at h
  split at h
  · next a ha => exact ⟨a, ha, h⟩
  · cases h

theorem calls_bind_of_ok {intent : Intent α} {next : α → Intent β} {a : α}
    (h : intent.result = .ok a) :
    (intent.bind next).calls = intent.calls ++ (next a).calls := by
  rw [bind, h]

theorem calls_bind_ending (intent : Intent α) (result : α → Except Error β) :
    (intent.bind fun a => .ending (result a)).calls = intent.calls := by
  unfold bind
  cases intent.result with
  | ok a => exact List.append_nil _
  | error error => rfl

@[simp]
theorem ending_bind (result : Except Error α) (next : α → Intent β) :
    (ending result).bind next =
      match result with
      | .ok a => next a
      | .error error => ending (.error error) := by
  cases result <;> rfl

end Intent

namespace Outcome

/-- The file that was written. -/
def written? : Outcome → Option FilePath
  | written path => some path
  | skipped _ => none

/-- The file that was left as it is. -/
def skipped? : Outcome → Option Kept
  | written _ => none
  | skipped kept => some kept

end Outcome

/-- Whether the templates of a library answer as those of a launch. -/
def Launch.Serves (launch : Launch) (library : Template.Library) : Prop :=
  ∀ name, library.answer launch.look name = launch.lookUp name

variable {σ α β : Type}

/-- How an action ends when none of its calls has failed; `n` was the number of the first one. -/
structure Completes (launch : Launch) (intent : Intent α) (n : Nat) (before : Progress)
    (ending : Ending (σ × Nat) α) : Prop where
  result : ending.result = intent.result
  number : ending.state.2 = n + intent.calls.length
  written : ending.progress.written = before.written ++ intent.outcomes.filterMap (·.written?)
  skipped : ending.progress.skipped = before.skipped ++ intent.outcomes.filterMap (·.skipped?)
  serves : launch.Serves ending.progress.library

/-- How an action with an intent ends. -/
structure Follows (launch : Launch) (fs : FileSystem σ) (intent : Intent α) (s : σ) (n : Nat)
    (before : Progress) (ending : Ending (σ × Nat) α) : Prop where
  calls : Entry.calls ending.progress.journal =
    Entry.calls before.journal ++ (Attempt.ofCalls launch.faults n intent.calls).made
  state : ending.state.1 = fs.afterAll s (Attempt.ofCalls launch.faults n intent.calls).done
  failed : ∀ call fault,
    (Attempt.ofCalls launch.faults n intent.calls).failed = some (call, fault) →
      ending.result = .error (.output call.path fault)
  completed : (Attempt.ofCalls launch.faults n intent.calls).failed = none →
    Completes launch intent n before ending

/-- An action has an intent at a state. -/
def Intends (launch : Launch) (fs : FileSystem σ) (s : σ) (action : Run (StateM (σ × Nat)) α)
    (intent : Intent α) : Prop :=
  ∀ progress n, launch.Serves progress.library →
    Follows launch fs intent s n progress (Run.exec action progress (s, n))

namespace Intends

variable {launch : Launch} {fs : FileSystem σ} {s : σ}

/-- An action that makes no call. -/
theorem of_quiet {action : Run (StateM (σ × Nat)) α} {outcomes : List Outcome}
    {result : Except Error α}
    (h : ∀ progress n, launch.Serves progress.library →
      ∃ after, Run.exec action progress (s, n) = ⟨result, after, (s, n)⟩ ∧
        Entry.calls after.journal = Entry.calls progress.journal ∧
        after.written = progress.written ++ outcomes.filterMap (·.written?) ∧
        after.skipped = progress.skipped ++ outcomes.filterMap (·.skipped?) ∧
        launch.Serves after.library) :
    Intends launch fs s action ⟨[], outcomes, result⟩ := by
  intro progress n hserves
  obtain ⟨after, heq, hcalls, hwritten, hskipped, hserves⟩ := h progress n hserves
  rw [heq]
  exact
    { calls := by simp [hcalls, Attempt.ofCalls, Attempt.made]
      state := rfl
      failed := by
        rintro call fault ⟨⟩
      completed := fun _ => ⟨rfl, rfl, hwritten, hskipped, hserves⟩ }

theorem pure (a : α) : Intends launch fs s (Pure.pure a) (.ending (.ok a)) :=
  of_quiet fun progress _ hserves => ⟨progress, rfl, rfl, by simp, by simp, hserves⟩

theorem ofExcept (result : Except Error α) :
    Intends launch fs s (Run.ofExcept result) (.ending result) :=
  of_quiet fun progress _ hserves =>
    ⟨progress, Run.exec_ofExcept .., rfl, by simp, by simp, hserves⟩

/-- A question to the store. -/
theorem ask {effect : StateM (σ × Nat) α} {a : α} (h : ∀ n, effect (s, n) = (a, (s, n))) :
    Intends launch fs s (liftM effect) (.ending (.ok a)) :=
  of_quiet fun progress n hserves =>
    ⟨progress, by rw [Run.exec_lift, h], rfl, by simp, by simp, hserves⟩

theorem note (event : Event) : Intends launch fs s (Run.note event) (.ending (.ok ())) :=
  of_quiet fun progress _ hserves =>
    ⟨progress.record (.event event), rfl, by simp [Progress.record, Entry.calls],
      by simp [Progress.record], by simp [Progress.record], hserves⟩

theorem enter (stage : Stage) : Intends launch fs s (Run.enter stage) (.ending (.ok ())) :=
  of_quiet fun progress _ hserves =>
    ⟨progress.enter stage, rfl, by simp [Progress.enter, Progress.record, Entry.calls],
      by simp [Progress.enter, Progress.record], by simp [Progress.enter, Progress.record], hserves⟩

/-- Keeping account of what became of a file. -/
theorem add (outcome : Outcome) :
    Intends launch fs s (modify (·.add outcome)) ⟨[], [outcome], .ok ()⟩ := by
  refine of_quiet fun progress _ hserves => ⟨progress.add outcome, rfl, ?_⟩
  cases outcome with
  | written path => exact ⟨rfl, rfl, by simp [Progress.add, Outcome.skipped?], hserves⟩
  | skipped kept => exact ⟨rfl, by simp [Progress.add, Outcome.written?], rfl, hserves⟩

/-- A call to the store. -/
theorem request (call : Call) :
    Intends launch fs s (Run.request call (fs.respond launch.faults call))
      ⟨[call], [], .ok ()⟩ := by
  intro progress n hserves
  have hcalls : Entry.calls (progress.record (.call call)).journal =
      Entry.calls progress.journal ++ [call] := by
    simp [Progress.record, Entry.calls]
  have hrespond : ∀ answer, fs.respond launch.faults call (s, n) = answer →
      Run.exec (Run.request call (fs.respond launch.faults call)) progress (s, n) =
        ⟨answer.1.mapError (.output call.path), progress.record (.call call), answer.2⟩ := by
    rintro ⟨answer, t⟩ hanswer
    simp only [Run.request, Run.exec_bind, Run.exec_modify, Run.exec_lift, hanswer]
    cases answer <;> rfl
  cases hfault : launch.faults n call with
  | some fault =>
    rw [hrespond _ (by simp only [FileSystem.respond, hfault]; rfl)]
    exact
      { calls := by simp [hcalls, Attempt.ofCalls, Attempt.made, hfault]
        state := by simp [Attempt.ofCalls, hfault]
        failed := by
          simp only [Attempt.ofCalls, hfault]
          rintro _ _ ⟨⟩
          rfl
        completed := by simp [Attempt.ofCalls, hfault] }
  | none =>
    rw [hrespond _ (by simp only [FileSystem.respond, hfault]; rfl)]
    exact
      { calls := by simp [hcalls, Attempt.ofCalls, Attempt.made, hfault]
        state := by simp [Attempt.ofCalls, hfault]
        failed := by simp [Attempt.ofCalls, hfault]
        completed := fun _ =>
          ⟨rfl, rfl, by simp [Progress.record], by simp [Progress.record], hserves⟩ }

/-- A call that fails ends the actions after it, too. -/
private theorem bind_of_failed {intent : Intent α} {more : α → Intent β} {n : Nat} {call : Call}
    {fault : Fault} {before : Progress} {first : Ending (σ × Nat) α}
    (h : Follows launch fs intent s n before first)
    (hfailed : (Attempt.ofCalls launch.faults n intent.calls).failed = some (call, fault)) :
    Follows launch fs (intent.bind more) s n before
      ⟨.error (.output call.path fault), first.progress, first.state⟩ := by
  obtain ⟨rest, hrest⟩ := intent.exists_bind_calls more
  have hsame : Attempt.ofCalls launch.faults n (intent.bind more).calls =
      Attempt.ofCalls launch.faults n intent.calls := by
    rw [hrest, Attempt.ofCalls_append_of_failed (by simp [hfailed])]
  exact
    { calls := by rw [hsame, h.calls]
      state := by rw [hsame, h.state]
      failed := by
        rw [hsame, hfailed]
        rintro _ _ ⟨⟩
        rfl
      completed := by simp [hsame, hfailed] }

/-- An action that completes is followed by the one that its value leads to. -/
private theorem bind_of_completed {intent : Intent α} {next : Intent β} {n : Nat}
    {before : Progress} {first : Ending (σ × Nat) α} {second : Ending (σ × Nat) β}
    (h : Follows launch fs intent s n before first)
    (hdone : (Attempt.ofCalls launch.faults n intent.calls).failed = none)
    (hnext : Follows launch fs next (fs.afterAll s intent.calls) (n + intent.calls.length)
      first.progress second) :
    Follows launch fs
      ⟨intent.calls ++ next.calls, intent.outcomes ++ next.outcomes, next.result⟩ s n before
      second := by
  have hfirst := h.completed hdone
  have happend := Attempt.ofCalls_append_of_done hdone next.calls
  exact
    { calls := by
        rw [hnext.calls, h.calls, happend, Attempt.ofCalls_made_of_failed_eq_none hdone]
        simp [Attempt.made]
      state := by rw [hnext.state, happend, fs.afterAll_append]
      failed := by
        rw [happend]
        exact hnext.failed
      completed := by
        rw [happend]
        intro hdone
        have hsecond := hnext.completed hdone
        exact
          { result := hsecond.result
            number := by rw [hsecond.number, List.length_append, Nat.add_assoc]
            written := by rw [hsecond.written, hfirst.written]; simp
            skipped := by rw [hsecond.skipped, hfirst.skipped]; simp
            serves := hsecond.serves } }

/-- An action and then the one that follows from its value. -/
theorem bind {action : Run (StateM (σ × Nat)) α} {next : α → Run (StateM (σ × Nat)) β}
    {intent : Intent α} {more : α → Intent β} (h : Intends launch fs s action intent)
    (hnext : ∀ a, intent.result = .ok a →
      Intends launch fs (fs.afterAll s intent.calls) (next a) (more a)) :
    Intends launch fs s (action >>= next) (intent.bind more) := by
  intro progress n hserves
  have hfirst := h progress n hserves
  rw [Run.exec_bind]
  generalize Run.exec action progress (s, n) = first at hfirst
  cases hfailed : (Attempt.ofCalls launch.faults n intent.calls).failed with
  | some failed =>
    rw [hfirst.failed _ _ hfailed]
    exact bind_of_failed hfirst hfailed
  | none =>
    have hcompletes := hfirst.completed hfailed
    unfold Intent.bind
    rw [hcompletes.result]
    cases hresult : intent.result with
    | error error =>
      exact
        { calls := hfirst.calls
          state := hfirst.state
          failed := fun _ _ h => absurd (hfailed.symm.trans h) (by simp)
          completed := fun _ => { hcompletes with result := rfl } }
    | ok a =>
      have hstate : first.state = (fs.afterAll s intent.calls, n + intent.calls.length) := by
        rw [← hcompletes.number, ← Attempt.ofCalls_done_of_failed_eq_none hfailed, ← hfirst.state]
      simp only [hstate]
      exact bind_of_completed hfirst hfailed (hnext a hresult _ _ hcompletes.serves)

end Intends

end RestModule
