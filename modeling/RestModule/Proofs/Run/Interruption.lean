import RestModule.Proofs.Run.Course

/-!
# Faults during a run

A call that fails is the last one of its run. So whichever calls fail, a run begins as the run of
the same launch without faults does; it ends with the fault of the first call that fails, and in the
state that the calls before that one led to (`Launch.fault_ends_run`). -/

namespace RestModule

namespace Attempt

variable {faults : Nat → Call → Option Fault} {n : Nat} {calls : List Call}

/-- No call that took effect fails by the schedule. -/
theorem fault_of_done {i : Nat} {call : Call} (h : (ofCalls faults n calls).done[i]? = some call) :
    faults (n + i) call = none := by
  induction calls generalizing n i with
  | nil => cases h
  | cons first rest ih =>
    rw [ofCalls] at h
    split at h
    · cases h
    · next hfirst =>
      cases i with
      | zero =>
        cases h
        exact hfirst
      | succ i =>
        rw [List.getElem?_cons_succ] at h
        have hnext := ih h
        rwa [Nat.add_assoc, Nat.add_comm 1 i] at hnext

/-- The call that failed comes after the ones that took effect, and fails by the schedule. -/
theorem fault_of_failed {call : Call} {fault : Fault}
    (h : (ofCalls faults n calls).failed = some (call, fault)) :
    faults (n + (ofCalls faults n calls).done.length) call = some fault ∧
      (ofCalls faults n calls).done ++ [call] <+: calls := by
  induction calls generalizing n with
  | nil => cases h
  | cons first rest ih =>
    rw [ofCalls] at h ⊢
    split at h
    · next hfirst =>
      cases h
      exact ⟨hfirst, List.cons_prefix_cons.mpr ⟨rfl, List.nil_prefix⟩⟩
    · next hfirst =>
      obtain ⟨hfault, hinitial⟩ := ih h
      simp only [List.length_cons, List.cons_append]
      refine ⟨?_, List.cons_prefix_cons.mpr ⟨rfl, hinitial⟩⟩
      rwa [Nat.add_assoc, Nat.add_comm 1] at hfault

theorem made_initial : (ofCalls faults n calls).made <+: calls := by
  cases hfailed : (ofCalls faults n calls).failed with
  | none => exact ⟨[], by rw [ofCalls_made_of_failed_eq_none hfailed, List.append_nil]⟩
  | some failed =>
    rw [made, hfailed]
    exact (fault_of_failed hfailed).2

/-- A call that was made and fails by the schedule is the last one. -/
theorem failed_of_made {i : Nat} {call : Call} {fault : Fault}
    (h : (ofCalls faults n calls).made[i]? = some call)
    (hfault : faults (n + i) call = some fault) :
    (ofCalls faults n calls).failed = some (call, fault) ∧
      (ofCalls faults n calls).done.length = i := by
  cases hfailed : (ofCalls faults n calls).failed with
  | none =>
    rw [made, hfailed, Option.map_none, Option.toList_none, List.append_nil] at h
    cases (fault_of_done h).symm.trans hfault
  | some failed =>
    obtain ⟨last, lastFault⟩ := failed
    obtain ⟨hlast, -⟩ := fault_of_failed hfailed
    rw [made, hfailed] at h
    -- the calls before the failed one did not fail, and none comes after it
    rcases Nat.lt_trichotomy i (ofCalls faults n calls).done.length with hlt | heq | hgt
    · rw [List.getElem?_append_left hlt] at h
      cases (fault_of_done h).symm.trans hfault
    · subst heq
      rw [List.getElem?_append_right (Nat.le_refl _), Nat.sub_self] at h
      cases h
      cases hlast.symm.trans hfault
      exact ⟨rfl, rfl⟩
    · have hlength : ((ofCalls faults n calls).done ++ [last]).length ≤ i := by
        rw [List.length_append, List.length_singleton]
        exact hgt
      cases (List.getElem?_eq_none hlength).symm.trans h

/-- If no call that was made fails by the schedule, none has failed. -/
theorem failed_eq_none_of_made
    (h : ∀ i call, (ofCalls faults n calls).made[i]? = some call → faults (n + i) call = none) :
    (ofCalls faults n calls).failed = none := by
  cases hfailed : (ofCalls faults n calls).failed with
  | none => rfl
  | some failed =>
    have hmade : (ofCalls faults n calls).made[(ofCalls faults n calls).done.length]? =
        some failed.1 := by
      rw [made, hfailed]
      exact List.getElem?_concat_length
    cases (h _ _ hmade).symm.trans (fault_of_failed hfailed).1

end Attempt

namespace Launch

variable {σ : Type} (launch : Launch) (fs : FileSystem σ)

/-- The launch with no call failing. -/
def faultless : Launch := { launch with faults := fun _ _ => none }

theorem course_faultless (s : σ) (plan : List Step) :
    launch.faultless.course fs s plan = launch.course fs s plan := by
  induction plan generalizing s with
  | nil => rfl
  | cons step rest ih =>
    have hdoing : launch.faultless.doing fs s step = launch.doing fs s step := by
      cases step <;> rfl
    simp only [course, ih, hdoing]

/-- Faults have no part in what a run is to do. -/
theorem intent_faultless (s : σ) : launch.faultless.intent fs s = launch.intent fs s := by
  simp only [intent, course_faultless]
  rfl

/-- A run without faults does what it is to do. -/
theorem run_of_no_fault (s : σ) (h : ∀ n call, launch.faults n call = none) :
    Entry.calls (launch.run fs s).1.progress.journal = (launch.intent fs s).calls ∧
      (launch.run fs s).2 = fs.afterAll s (launch.intent fs s).calls ∧
      (launch.run fs s).1.result =
        (launch.intent fs s).result.map (.ofOutcomes (launch.intent fs s).outcomes) := by
  have hrun := launch.run_follows fs s
  rw [attempt, Attempt.ofCalls_of_no_fault h] at hrun
  simpa only [Attempt.made, Option.map_none, Option.toList_none, List.append_nil] using hrun

theorem run_faultless (s : σ) :
    Entry.calls (launch.faultless.run fs s).1.progress.journal = (launch.intent fs s).calls ∧
      (launch.faultless.run fs s).2 = fs.afterAll s (launch.intent fs s).calls ∧
      (launch.faultless.run fs s).1.result =
        (launch.intent fs s).result.map (.ofOutcomes (launch.intent fs s).outcomes) := by
  rw [← launch.intent_faultless fs s]
  exact launch.faultless.run_of_no_fault fs s fun _ _ => rfl

/-- What a run `ran` from a state is beside the run of its launch without faults, `whole`. -/
structure Begins (s : σ) (ran whole : Finished × σ) : Prop where
  initial : Entry.calls ran.1.progress.journal <+: Entry.calls whole.1.progress.journal
  /-- A call that fails is the last one. The run ends with its fault, and the state shows the calls
  before it alone. -/
  stopped : ∀ n call fault, (Entry.calls ran.1.progress.journal)[n]? = some call →
    launch.faults n call = some fault →
      (Entry.calls ran.1.progress.journal).length = n + 1 ∧
        ran.1.result = .error (.output call.path fault) ∧
        ran.2 = fs.afterAll s ((Entry.calls ran.1.progress.journal).take n)
  /-- If no call fails, the run is as it is without faults. -/
  completed : (∀ n call, (Entry.calls ran.1.progress.journal)[n]? = some call →
      launch.faults n call = none) →
    Entry.calls ran.1.progress.journal = Entry.calls whole.1.progress.journal ∧
      ran.1.result = whole.1.result ∧ ran.2 = whole.2 ∧
      ran.2 = fs.afterAll s (Entry.calls ran.1.progress.journal)

/-- A run begins as it would without faults, and stops at the first call that fails. -/
theorem fault_ends_run (s : σ) :
    launch.Begins fs s (launch.run fs s) (launch.faultless.run fs s) := by
  obtain ⟨hcalls, hstate, hresult⟩ := launch.run_follows fs s
  obtain ⟨hwhole, hwholeState, hwholeResult⟩ := launch.run_faultless fs s
  have hfaults : ∀ n call, launch.faults (0 + n) call = launch.faults n call := by
    intro n call
    rw [Nat.zero_add]
  constructor
  case initial =>
    rw [hcalls, hwhole]
    exact Attempt.made_initial
  case stopped =>
    intro n call fault hcall hfault
    rw [hcalls] at hcall ⊢
    obtain ⟨hfailed, hlength⟩ :=
      Attempt.failed_of_made hcall ((hfaults n call).trans hfault)
    rw [attempt] at *
    rw [hfailed] at hresult
    refine ⟨?_, hresult, ?_⟩
    · rw [Attempt.made, hfailed, List.length_append, hlength]
      rfl
    · rw [hstate, Attempt.made, ← hlength, List.take_left]
  case completed =>
    intro hnone
    rw [hcalls] at hnone ⊢
    have hfailed : (launch.attempt fs s).failed = none :=
      Attempt.failed_eq_none_of_made fun n call hcall => (hfaults n call).trans (hnone n call hcall)
    have hmade : (launch.attempt fs s).made = (launch.intent fs s).calls :=
      Attempt.ofCalls_made_of_failed_eq_none hfailed
    have hdone : (launch.attempt fs s).done = (launch.intent fs s).calls :=
      Attempt.ofCalls_done_of_failed_eq_none hfailed
    rw [hfailed] at hresult
    refine ⟨?_, ?_, ?_, ?_⟩
    · rw [hmade, hwhole]
    · rw [hresult, hwholeResult]
    · rw [hstate, hdone, hwholeState]
    · rw [hstate, hdone, hmade]

/-- The launch of the shop with one of its calls failing. -/
def shopFailingAt (n : Nat) : Launch :=
  { shop with faults := fun m _ => if m = n then some .readOnly else none }

theorem fault_ends_run_shop :
    (shopFailingAt 2).Begins Memory.fileSystem .empty
        ((shopFailingAt 2).run Memory.fileSystem .empty)
        ((shopFailingAt 2).faultless.run Memory.fileSystem .empty) ∧
      (Entry.calls ((shopFailingAt 2).run Memory.fileSystem .empty).1.progress.journal)[2]? =
        some (.createDirectory ⟨"shop-rest/src/main/resources"⟩) ∧
      ((shopFailingAt 2).run Memory.fileSystem .empty).1.result =
        .error (.output ⟨"shop-rest/src/main/resources"⟩ .readOnly) := by
  have hbegins := (shopFailingAt 2).fault_ends_run Memory.fileSystem .empty
  have hcall : (Entry.calls
      ((shopFailingAt 2).run Memory.fileSystem .empty).1.progress.journal)[2]? =
        some (.createDirectory ⟨"shop-rest/src/main/resources"⟩) := by
    decide +kernel
  obtain ⟨-, hresult, -⟩ := hbegins.stopped 2 _ .readOnly hcall rfl
  exact ⟨hbegins, hcall, hresult⟩

end Launch

end RestModule
