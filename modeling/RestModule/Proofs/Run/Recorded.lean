import RestModule.Proofs.Run.Intent
import RestModule.Store.Recording

/-!
# Actions that predict others

An action over a recording predicts one over the store itself if it completes whenever that does
(`Run.Predicts`). What the two have in common before and after is a relation between how far each has
come, so that predictions are composed as the actions are. -/

namespace RestModule.Run

variable {τ α β γ α' β' : Type}

/-! ## Execution over a recording -/

/-- Executes an action over a recording from a progress, a recording and a state. -/
def rehearse (action : Run (StateT Recording (StateM τ)) α) (progress : Progress)
    (recording : Recording) (t : τ) : Ending (Recording × τ) α :=
  let (((result, progress), recording), t) := action.run.run progress recording t
  ⟨result, progress, (recording, t)⟩

section

variable (progress : Progress) (recording : Recording) (t : τ)

@[simp]
theorem rehearse_get :
    rehearse get progress recording t = ⟨.ok progress, progress, (recording, t)⟩ := rfl

@[simp]
theorem rehearse_modify (f : Progress → Progress) :
    rehearse (modify f) progress recording t = ⟨.ok (), f progress, (recording, t)⟩ := rfl

@[simp]
theorem rehearse_lift (effect : StateT Recording (StateM τ) α) :
    rehearse (liftM effect) progress recording t =
      ⟨.ok (effect recording t).1.1, progress, ((effect recording t).1.2, (effect recording t).2)⟩ :=
  rfl

@[simp]
theorem rehearse_ofExcept (result : Except Error α) :
    rehearse (ofExcept result) progress recording t = ⟨result, progress, (recording, t)⟩ := by
  cases result <;> rfl

@[simp]
theorem rehearse_bind (action : Run (StateT Recording (StateM τ)) α)
    (next : α → Run (StateT Recording (StateM τ)) β) :
    rehearse (action >>= next) progress recording t =
      match (rehearse action progress recording t).result with
      | .ok a =>
        rehearse (next a) (rehearse action progress recording t).progress
          (rehearse action progress recording t).state.1
          (rehearse action progress recording t).state.2
      | .error error =>
        ⟨.error error, (rehearse action progress recording t).progress,
          (rehearse action progress recording t).state⟩ := by
  simp only [rehearse, bind, ExceptT.run, ExceptT.bind, ExceptT.mk, StateT.bind, StateT.run]
  rcases action progress recording t with ⟨⟨⟨result | result, _⟩, _⟩, _⟩ <;> rfl

end

theorem generate_eq_rehearse (store : Store (StateT Recording (StateM τ)))
    (library : Template.Library) (config : Config)
    (source : StateT Recording (StateM τ) (Except Error String)) (recording : Recording) (t : τ) :
    (generate store library config source).run recording t =
      let ending := rehearse (body store config source) (.ofLibrary library) recording t
      ((⟨ending.result, close ending.result ending.progress⟩, ending.state.1), ending.state.2) := rfl

/-! ## Predictions -/

/-- How far a run and its rehearsal have come. -/
structure Pace (τ : Type) where
  progress : Progress
  state : τ
  rehearsed : Progress
  recording : Recording

/-- If an action completes, so does its rehearsal, and what holds of both before leads to what holds
of both after. The rehearsal leaves the state as it is. -/
def Predicts (t : τ) (before : Pace τ → Prop) (action : Run (StateM τ) α)
    (rehearsal : Run (StateT Recording (StateM τ)) α') (after : α → α' → Pace τ → Prop) : Prop :=
  ∀ pace, before pace → ∀ a progress state,
    exec action pace.progress pace.state = ⟨.ok a, progress, state⟩ →
      ∃ a' rehearsed recording,
        rehearse rehearsal pace.rehearsed pace.recording t = ⟨.ok a', rehearsed, (recording, t)⟩ ∧
          after a a' ⟨progress, state, rehearsed, recording⟩

namespace Predicts

variable {t : τ} {before : Pace τ → Prop}

theorem pure {a : α} {a' : α'} {after : α → α' → Pace τ → Prop}
    (h : ∀ pace, before pace → after a a' pace) :
    Predicts t before (Pure.pure a) (Pure.pure a') after := by
  rintro pace hbefore _ _ _ ⟨⟩
  exact ⟨a', pace.rehearsed, pace.recording, rfl, h pace hbefore⟩

theorem get : Predicts t before MonadState.get MonadState.get fun progress rehearsed pace =>
    before pace ∧ progress = pace.progress ∧ rehearsed = pace.rehearsed := by
  rintro pace hbefore _ _ _ ⟨⟩
  exact ⟨pace.rehearsed, pace.rehearsed, pace.recording, rfl, hbefore, rfl, rfl⟩

theorem update {f g : Progress → Progress} {after : Pace τ → Prop}
    (h : ∀ pace, before pace →
      after { pace with progress := f pace.progress, rehearsed := g pace.rehearsed }) :
    Predicts t before (modify f) (modify g) fun _ _ => after := by
  rintro pace hbefore _ _ _ ⟨⟩
  exact ⟨(), g pace.rehearsed, pace.recording, rfl, h pace hbefore⟩

theorem lift {effect : StateM τ α} {recorded : StateT Recording (StateM τ) α'}
    {after : α → α' → Pace τ → Prop}
    (h : ∀ pace, before pace → ∃ a' recording, recorded pace.recording t = ((a', recording), t) ∧
      after (effect pace.state).1 a'
        { pace with state := (effect pace.state).2, recording }) :
    Predicts t before (liftM effect) (liftM recorded) after := by
  rintro pace hbefore _ _ _ ⟨⟩
  obtain ⟨a', recording, hrecorded, hafter⟩ := h pace hbefore
  refine ⟨a', pace.rehearsed, recording, ?_, hafter⟩
  rw [rehearse_lift, hrecorded]

theorem bind {action : Run (StateM τ) α} {next : α → Run (StateM τ) β}
    {rehearsal : Run (StateT Recording (StateM τ)) α'}
    {rehearsalNext : α' → Run (StateT Recording (StateM τ)) β'}
    {middle : α → α' → Pace τ → Prop} {after : β → β' → Pace τ → Prop}
    (h : Predicts t before action rehearsal middle)
    (hnext : ∀ a a', Predicts t (middle a a') (next a) (rehearsalNext a') after) :
    Predicts t before (action >>= next) (rehearsal >>= rehearsalNext) after := by
  intro pace hbefore b progress state hexec
  rw [exec_bind] at hexec
  split at hexec
  case h_2 => cases hexec
  next a ha =>
  obtain ⟨a', rehearsed, recording, hrehearse, hmiddle⟩ :=
    h pace hbefore a _ _ (congrArg (Ending.mk · _ _) ha)
  obtain ⟨b', rehearsed', recording', hrehearse', hafter⟩ :=
    hnext a a' _ hmiddle b progress state hexec
  refine ⟨b', rehearsed', recording', ?_, hafter⟩
  rw [rehearse_bind, hrehearse]
  exact hrehearse'

theorem weaken {action : Run (StateM τ) α} {rehearsal : Run (StateT Recording (StateM τ)) α'}
    {after after' : α → α' → Pace τ → Prop} (h : Predicts t before action rehearsal after)
    (hafter : ∀ a a' pace, after a a' pace → after' a a' pace) :
    Predicts t before action rehearsal after' := by
  intro pace hpace a progress state hexec
  obtain ⟨a', rehearsed, recording, hrehearse, hholds⟩ := h pace hpace a progress state hexec
  exact ⟨a', rehearsed, recording, hrehearse, hafter _ _ _ hholds⟩

/-- Actions that end with the same value, of which something is known. -/
theorem bind_same {action : Run (StateM τ) α} {next : α → Run (StateM τ) β}
    {rehearsal : Run (StateT Recording (StateM τ)) α}
    {rehearsalNext : α → Run (StateT Recording (StateM τ)) β'} {known : α → Prop}
    {middle : Pace τ → Prop} {after : β → β' → Pace τ → Prop}
    (h : Predicts t before action rehearsal fun a a' pace => (a' = a ∧ known a) ∧ middle pace)
    (hnext : ∀ a, known a → Predicts t middle (next a) (rehearsalNext a) after) :
    Predicts t before (action >>= next) (rehearsal >>= rehearsalNext) after := by
  refine h.bind ?_
  rintro a a' pace ⟨⟨rfl, hknown⟩, hmiddle⟩
  exact hnext a' hknown pace hmiddle

/-- A computation without effects. -/
theorem ofExcept (result : Except Error α) :
    Predicts t before (Run.ofExcept result) (Run.ofExcept result) fun a a' pace =>
      (a' = a ∧ result = .ok a) ∧ before pace := by
  intro pace hbefore a progress state h
  rw [exec_ofExcept] at h
  cases h
  exact ⟨a, pace.rehearsed, pace.recording, rehearse_ofExcept .., ⟨rfl, rfl⟩, hbefore⟩

/-- A call that the rehearsal answers as the store does. -/
theorem request {call call' : Call} {effect : StateM τ (Except Fault Unit)}
    {recorded : StateT Recording (StateM τ) (Except Fault Unit)} {after : Pace τ → Prop}
    (h : ∀ pace, before pace → ∀ state, effect pace.state = (.ok (), state) →
      ∃ recording, recorded pace.recording t = ((.ok (), recording), t) ∧
        after ⟨pace.progress.record (.call call), state, pace.rehearsed.record (.call call'),
          recording⟩) :
    Predicts t before (Run.request call effect) (Run.request call' recorded) fun _ _ => after := by
  intro pace hbefore a progress state hexec
  simp only [Run.request, exec_bind, exec_modify, exec_lift] at hexec
  cases hanswer : (effect pace.state).1 with
  | error fault =>
    rw [hanswer] at hexec
    cases hexec
  | ok done =>
    rw [hanswer] at hexec
    cases hexec
    obtain ⟨recording, hrecorded, hafter⟩ :=
      h pace hbefore _ (Prod.ext (hanswer : _ = Except.ok ()) rfl)
    refine ⟨(), _, recording, ?_, hafter⟩
    simp only [Run.request, rehearse_bind, rehearse_modify, rehearse_lift, hrecorded]
    rfl

/-- Actions on the elements of a list, each of which keeps what holds. -/
theorem mapM {action : γ → Run (StateM τ) α} {rehearsal : γ → Run (StateT Recording (StateM τ)) α'}
    {xs : List γ}
    (h : ∀ x ∈ xs, Predicts t before (action x) (rehearsal x) fun _ _ => before) :
    Predicts t before (xs.mapM action) (xs.mapM rehearsal) fun _ _ => before := by
  induction xs with
  | nil => exact pure fun _ h => h
  | cons x rest ih =>
    obtain ⟨hx, hrest⟩ := List.forall_mem_cons.mp h
    rw [List.mapM_cons, List.mapM_cons]
    exact hx.bind fun _ _ => (ih hrest).bind fun _ _ => pure fun _ h => h

theorem forM_append {action : γ → Run (StateM τ) PUnit}
    {rehearsal : γ → Run (StateT Recording (StateM τ)) PUnit} {xs ys : List γ}
    {middle after : Pace τ → Prop}
    (h : Predicts t before (xs.forM action) (xs.forM rehearsal) fun _ _ => middle)
    (hmore : Predicts t middle (ys.forM action) (ys.forM rehearsal) fun _ _ => after) :
    Predicts t before ((xs ++ ys).forM action) ((xs ++ ys).forM rehearsal) fun _ _ => after := by
  change Predicts t before (ForM.forM (xs ++ ys) action) (ForM.forM (xs ++ ys) rehearsal) _
  rw [List.forM_append, List.forM_append]
  exact h.bind fun _ _ => hmore

theorem forM {action : γ → Run (StateM τ) PUnit}
    {rehearsal : γ → Run (StateT Recording (StateM τ)) PUnit} {xs : List γ}
    (h : ∀ x ∈ xs, Predicts t before (action x) (rehearsal x) fun _ _ => before) :
    Predicts t before (xs.forM action) (xs.forM rehearsal) fun _ _ => before := by
  induction xs with
  | nil => exact pure fun _ h => h
  | cons x rest ih =>
    obtain ⟨hx, hrest⟩ := List.forall_mem_cons.mp h
    exact hx.bind fun _ _ => ih hrest

end Predicts

end RestModule.Run
