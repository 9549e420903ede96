import RestModule.Proofs.Run.Sheets
import RestModule.Proofs.Run.Intent

/-!
# The stages of a run

The events of a run tell how it went from stage to stage, and with which file or error. Whatever a run
is given and whatever its store answers, it goes through its stages in order, as far as it comes, and
its last event says how it ended (`Run.stages_go_forward`). What an action adds to the journal is looked
at by the rules of `Run.Leads`: an action leads from one condition on the progress to another. -/

namespace RestModule

/-! ## What events report -/

namespace Event

/-- The stages that a run goes from and to. -/
def transition? : Event → Option (Stage × Stage)
  | entered before after => some (before, after)
  | _ => none

/-- The file that is left as it is. -/
def kept? : Event → Option Kept
  | kept path protection => some ⟨path, protection⟩
  | _ => none

/-- The stage in which a run stops, and the error it stops at. -/
def stop? : Event → Option (Stage × Error)
  | stopped stage error => some (stage, error)
  | _ => none

end Event

namespace Entry

/-- The transitions that a journal reports, in order. -/
def transitions (journal : List Entry) : List (Stage × Stage) :=
  (events journal).filterMap Event.transition?

/-- The stages that are entered by a journal, in order. -/
def stages (journal : List Entry) : List Stage :=
  (transitions journal).map Prod.snd

/-- The files that a journal reports as left, in order. -/
def kept (journal : List Entry) : List Kept :=
  (events journal).filterMap Event.kept?

/-- Where and at which errors a journal reports a run to stop. -/
def stops (journal : List Entry) : List (Stage × Error) :=
  (events journal).filterMap Event.stop?

/-- What is read off the events of a journal to which one is added. -/
theorem filterMap_concat_event {α : Type} (read : Event → Option α) (journal : List Entry)
    (event : Event) :
    (events (journal ++ [.event event])).filterMap read =
      (events journal).filterMap read ++ (read event).toList := by
  cases hread : read event <;> simp [events, hread]

theorem events_concat_call (journal : List Entry) (call : Call) :
    events (journal ++ [.call call]) = events journal := by
  simp [events]

/-- A call in a journal to which an entry is added is that entry or was there before. -/
theorem call_concat {journal before after : List Entry} {entry : Entry} {call : Call}
    (h : journal ++ [entry] = before ++ .call call :: after) :
    (entry = .call call ∧ before = journal) ∨ ∃ rest, journal = before ++ .call call :: rest := by
  rcases List.eq_nil_or_concat after with rfl | ⟨rest, last, rfl⟩
  · obtain ⟨hjournal, hentry⟩ := List.append_inj' h rfl
    exact .inl ⟨(List.cons.inj hentry).1, hjournal.symm⟩
  · rw [List.concat_eq_append, ← List.cons_append, ← List.append_assoc] at h
    exact .inr ⟨rest, (List.append_inj' h rfl).1⟩

/-- A journal tells of stages that were entered one after the other, with no call before the one of
the directories, of files that were left as they are, and of where the run stopped. -/
structure Tells (journal : List Entry) (entered : List Stage) (left : List Kept)
    (stops : List (Stage × Error)) : Prop where
  transitions : Entry.transitions journal = (.start :: entered).zip entered
  calls : ∀ before call after, journal = before ++ .call call :: after →
    .directories ∈ stages before
  kept : Entry.kept journal = left
  stops : Entry.stops journal = stops

theorem zip_concat {α : Type} (first last : α) (rest : List α) :
    (first :: (rest ++ [last])).zip (rest ++ [last]) =
      (first :: rest).zip rest ++ [(rest.getLastD first, last)] := by
  induction rest generalizing first with
  | nil => rfl
  | cons second rest ih =>
    rw [List.getLastD_cons]
    exact congrArg ((first, second) :: ·) (ih second)

namespace Tells

variable {journal : List Entry} {entered : List Stage} {left : List Kept}
  {stops : List (Stage × Error)}

theorem stages (h : Tells journal entered left stops) : Entry.stages journal = entered := by
  rw [Entry.stages, h.transitions]
  exact List.map_snd_zip (Nat.le_succ _)

theorem chain (h : Tells journal entered left stops) :
    Entry.transitions journal =
      (.start :: Entry.stages journal).zip (Entry.stages journal) := by
  rw [h.stages, h.transitions]

theorem calls_concat_event (h : Tells journal entered left stops) (event : Event) :
    ∀ before call after, journal ++ [.event event] = before ++ .call call :: after →
      .directories ∈ Entry.stages before := by
  intro before call after heq
  rcases call_concat heq with ⟨hentry, -⟩ | ⟨rest, hrest⟩
  · cases hentry
  · exact h.calls before call rest hrest

/-- An event that is no transition. -/
theorem concat_event (h : Tells journal entered left stops) (event : Event)
    (htransition : event.transition? = none) :
    Tells (journal ++ [.event event]) entered (left ++ event.kept?.toList)
      (stops ++ event.stop?.toList) := by
  constructor
  case transitions =>
    rw [← h.transitions, Entry.transitions, filterMap_concat_event, htransition]
    exact List.append_nil _
  case calls => exact h.calls_concat_event event
  case kept => rw [← h.kept, Entry.kept, filterMap_concat_event, Entry.kept]
  case stops => rw [← h.stops, Entry.stops, filterMap_concat_event, Entry.stops]

theorem concat_entered (h : Tells journal entered left stops) (stage : Stage) :
    Tells (journal ++ [.event (.entered (entered.getLastD .start) stage)]) (entered ++ [stage]) left
      stops := by
  constructor
  case transitions =>
    rw [zip_concat, ← h.transitions, Entry.transitions, filterMap_concat_event]
    rfl
  case calls => exact h.calls_concat_event _
  case kept =>
    rw [← h.kept, Entry.kept, filterMap_concat_event]
    exact List.append_nil _
  case stops =>
    rw [← h.stops, Entry.stops, filterMap_concat_event]
    exact List.append_nil _

/-- Calls are made once the stage of the directories has been entered. -/
theorem concat_call (h : Tells journal entered left stops) (hentered : .directories ∈ entered)
    (call : Call) : Tells (journal ++ [.call call]) entered left stops := by
  constructor
  case transitions => rw [Entry.transitions, events_concat_call, ← h.transitions, Entry.transitions]
  case calls =>
    intro before call after heq
    rcases call_concat heq with ⟨-, rfl⟩ | ⟨rest, hrest⟩
    · rwa [h.stages]
    · exact h.calls before call rest hrest
  case kept => rw [Entry.kept, events_concat_call, ← h.kept, Entry.kept]
  case stops => rw [Entry.stops, events_concat_call, ← h.stops, Entry.stops]

end Tells

end Entry

/-- A progress that has entered some stages and has still to keep account of some files that it left
as they are. -/
structure Progress.Stands (entered : List Stage) (pending : List Kept) (progress : Progress) :
    Prop where
  stage : progress.stage = entered.getLastD .start
  tells : Entry.Tells progress.journal entered (progress.skipped ++ pending) []

namespace Progress.Stands

variable {entered : List Stage} {pending : List Kept} {progress : Progress}

/-- An event that is neither a transition nor about a file that is left or the end of a run. -/
theorem record (h : progress.Stands entered pending) {event : Event}
    (htransition : event.transition? = none) (hkept : event.kept? = none)
    (hstop : event.stop? = none) : (progress.record (.event event)).Stands entered pending := by
  have htells := h.tells.concat_event event htransition
  rw [hkept, hstop] at htells
  simp only [Option.toList_none, List.append_nil] at htells
  exact ⟨h.stage, htells⟩

theorem record_kept (h : progress.Stands entered []) (path : FilePath) (protection : Protection) :
    (progress.record (.event (.kept path protection))).Stands entered [⟨path, protection⟩] := by
  have htells := h.tells.concat_event (.kept path protection) rfl
  rw [List.append_nil] at htells
  exact ⟨h.stage, htells⟩

theorem record_call (h : progress.Stands entered pending) (hentered : .directories ∈ entered)
    (call : Call) : (progress.record (.call call)).Stands entered pending :=
  ⟨h.stage, h.tells.concat_call hentered call⟩

theorem enter (h : progress.Stands entered pending) (stage : Stage) :
    (progress.enter stage).Stands (entered ++ [stage]) pending := by
  have htells := h.tells.concat_entered stage
  rw [← h.stage] at htells
  exact ⟨by simp [Progress.enter], htells⟩

/-- Account is kept of what became of a file. -/
theorem add {outcome : Outcome} (h : progress.Stands entered outcome.skipped?.toList) :
    (progress.add outcome).Stands entered [] := by
  refine ⟨?_, ?_⟩
  · cases outcome <;> exact h.stage
  · cases outcome with
    | written path => exact h.tells
    | skipped kept =>
      have htells := h.tells
      rw [← List.append_nil (progress.skipped ++ _)] at htells
      exact htells

end Progress.Stands

/-! ## Actions -/

namespace Run

variable {τ α β γ : Type}

/-- From a progress with a property an action leads to one with another, as it ends. -/
def Leads (before : Progress → Prop) (action : Run (StateM τ) α) (after : α → Progress → Prop)
    (failed : Progress → Prop) : Prop :=
  ∀ progress t, before progress →
    match (exec action progress t).result with
    | .ok a => after a (exec action progress t).progress
    | .error _ => failed (exec action progress t).progress

namespace Leads

variable {before failed : Progress → Prop} {after : α → Progress → Prop}

theorem pure {a : α} (h : ∀ progress, before progress → after a progress) :
    Leads before (Pure.pure a : Run (StateM τ) α) after failed :=
  fun progress _ hbefore => h progress hbefore

theorem get {after : Progress → Progress → Prop}
    (h : ∀ progress, before progress → after progress progress) :
    Leads before (MonadState.get : Run (StateM τ) Progress) after failed :=
  fun progress _ hbefore => h progress hbefore

theorem ofExcept {result : Except Error α}
    (hok : ∀ a progress, result = .ok a → before progress → after a progress)
    (herror : ∀ progress, before progress → failed progress) :
    Leads before (Run.ofExcept result : Run (StateM τ) α) after failed := by
  intro progress t hbefore
  rw [exec_ofExcept]
  cases result with
  | ok a => exact hok a progress rfl hbefore
  | error error => exact herror progress hbefore

/-- What a lifted effect answers. -/
theorem answer {effect : StateM τ α}
    (h : ∀ t progress, before progress → after (effect t).1 progress) :
    Leads before (liftM effect : Run (StateM τ) α) after failed :=
  fun progress t hbefore => h t progress hbefore

theorem lift {effect : StateM τ α} (h : ∀ a progress, before progress → after a progress) :
    Leads before (liftM effect : Run (StateM τ) α) after failed :=
  .answer fun _ => h _

/-- A fact that does not depend on the progress holds throughout. -/
theorem of_fact {action : Run (StateM τ) α} {fact : Prop}
    (h : fact → Leads before action after failed) :
    Leads (fun progress => fact ∧ before progress) action after failed :=
  fun progress t hbefore => h hbefore.1 progress t hbefore.2

theorem update {f : Progress → Progress} {after : Progress → Prop}
    (h : ∀ progress, before progress → after (f progress)) :
    Leads before (modify f : Run (StateM τ) Unit) (fun _ => after) failed :=
  fun progress _ hbefore => h progress hbefore

theorem bind {action : Run (StateM τ) α} {next : α → Run (StateM τ) β} {middle : α → Progress → Prop}
    {after : β → Progress → Prop} (h : Leads before action middle failed)
    (hnext : ∀ a, Leads (middle a) (next a) after failed) :
    Leads before (action >>= next) after failed := by
  intro progress t hbefore
  have hmiddle := h progress t hbefore
  rw [exec_bind]
  cases hresult : (exec action progress t).result with
  | ok a =>
    rw [hresult] at hmiddle
    exact hnext a _ _ hmiddle
  | error error =>
    rw [hresult] at hmiddle
    exact hmiddle

theorem weaken {action : Run (StateM τ) α} {less : Progress → Prop}
    (h : Leads before action after failed) (hfailed : ∀ progress, failed progress → less progress) :
    Leads before action after less := by
  intro progress t hbefore
  have hafter := h progress t hbefore
  cases hresult : (exec action progress t).result with
  | ok a =>
    rw [hresult] at hafter
    exact hafter
  | error error =>
    rw [hresult] at hafter
    exact hfailed _ hafter

theorem mapM {p : Progress → Prop} {r : γ → α → Prop} {action : γ → Run (StateM τ) α} {xs : List γ}
    (h : ∀ x ∈ xs, Leads p (action x) (fun a progress => r x a ∧ p progress) p) :
    Leads p (xs.mapM action) (fun results progress => List.Forall₂ r xs results ∧ p progress) p := by
  induction xs with
  | nil => exact .pure fun _ hp => ⟨.nil, hp⟩
  | cons x rest ih =>
    obtain ⟨hx, hrest⟩ := List.forall_mem_cons.mp h
    rw [List.mapM_cons]
    exact hx.bind fun a => .of_fact fun ha => (ih hrest).bind fun results =>
      .of_fact fun hresults => .pure fun _ hp => ⟨.cons ha hresults, hp⟩

theorem forM {p : Progress → Prop} {action : γ → Run (StateM τ) PUnit} {xs : List γ}
    (h : ∀ x ∈ xs, Leads p (action x) (fun _ => p) p) : Leads p (xs.forM action) (fun _ => p) p := by
  induction xs with
  | nil => exact .pure fun _ hp => hp
  | cons x rest ih =>
    obtain ⟨hx, hrest⟩ := List.forall_mem_cons.mp h
    exact hx.bind fun _ => ih hrest

end Leads

/-- An action keeps a property of the progress. -/
abbrev Maintains (p : Progress → Prop) (action : Run (StateM τ) α) : Prop :=
  Leads p action (fun _ => p) p

namespace Maintains

variable {p : Progress → Prop}

theorem mapM {action : γ → Run (StateM τ) α} (h : ∀ x, Maintains p (action x)) (xs : List γ) :
    Maintains p (xs.mapM action) := by
  induction xs with
  | nil => exact .pure fun _ hp => hp
  | cons x rest ih =>
    rw [List.mapM_cons]
    exact (h x).bind fun a => ih.bind fun as => .pure fun _ hp => hp

theorem forM {action : γ → Run (StateM τ) PUnit} (h : ∀ x, Maintains p (action x)) (xs : List γ) :
    Maintains p (xs.forM action) :=
  Leads.forM fun x _ => h x

end Maintains

/-! ### The actions of a run -/

section Actions

variable {entered : List Stage} {pending : List Kept}

/-- Reporting an event that is neither a transition nor about a file that is left. -/
theorem maintains_note (event : Event) (htransition : event.transition? = none)
    (hkept : event.kept? = none) (hstop : event.stop? = none) :
    Maintains (Progress.Stands entered pending) (note event : Run (StateM τ) Unit) :=
  .update fun _ h => h.record htransition hkept hstop

theorem maintains_request (hentered : .directories ∈ entered) (call : Call)
    (effect : StateM τ (Except Fault Unit)) :
    Maintains (Progress.Stands entered pending) (request call effect) := by
  refine .bind (.update fun _ h => h.record_call hentered call) fun _ => ?_
  refine .bind (.lift fun _ _ h => h) fun answer => ?_
  cases answer with
  | ok _ => exact .pure fun _ h => h
  | error fault =>
    change Maintains _ (ofExcept (.error (.output call.path fault)))
    exact .ofExcept (fun _ _ _ h => h) fun _ h => h

theorem maintains_template (store : Store (StateM τ)) (name : String) :
    Maintains (Progress.Stands entered pending) (template store name) := by
  have hresult : ∀ result : Except Error String, Maintains (Progress.Stands entered pending)
      (ofExcept result : Run (StateM τ) String) :=
    fun _ => .ofExcept (fun _ _ _ h => h) fun _ h => h
  refine .bind (.get fun _ h => h) fun progress => .bind (.lift fun _ _ h => h) fun loading => ?_
  refine .bind (.update fun _ h => show Progress.Stands entered pending _ from { h with })
    fun _ => ?_
  dsimp only
  split
  · exact (maintains_note _ rfl rfl rfl).bind fun _ => hresult _
  · exact hresult _

theorem maintains_render (store : Store (StateM τ)) (sheet : Sheet) :
    Maintains (Progress.Stands entered pending) (sheet.render (template store)) := by
  refine .bind (Maintains.mapM (fun insertion => ?_) sheet.insertions) fun inserted => ?_
  · exact (maintains_template store insertion.2).bind fun text => .pure fun _ h => h
  · exact (maintains_template store sheet.template).bind fun text => .pure fun _ h => h

theorem maintains_ensureDirectory (hentered : .directories ∈ entered) (store : Store (StateM τ))
    (path : FilePath) :
    Maintains (Progress.Stands entered pending) (ensureDirectory store path) := by
  refine .bind (.lift fun _ _ h => h) fun known => ?_
  cases known with
  | true => exact .pure fun _ h => h
  | false =>
    exact (maintains_request hentered _ _).bind fun _ => maintains_note _ rfl rfl rfl

/-- A file that is left is reported before account is kept of it. -/
theorem leads_place (hentered : .directories ∈ entered) (store : Store (StateM τ)) (config : Config)
    (file : Rendered) :
    Leads (Progress.Stands entered []) (place store config file)
      (fun outcome : Outcome => Progress.Stands entered outcome.skipped?.toList)
      (Progress.Stands entered []) := by
  refine .bind (.lift fun _ _ h => h) fun kept => ?_
  cases kept with
  | true =>
    exact .bind (.update fun _ h => h.record_kept file.path file.protection) fun _ =>
      .pure fun _ h => h
  | false =>
    have hwrote : Leads (Progress.Stands entered [])
        (note (.wrote file.path) >>= fun _ => Pure.pure (Outcome.written file.path) :
          Run (StateM τ) Outcome)
        (fun outcome => Progress.Stands entered outcome.skipped?.toList)
        (Progress.Stands entered []) :=
      (maintains_note _ rfl rfl rfl).bind fun _ => .pure fun _ h => h
    have hwrite := (maintains_request hentered (.write file.path file.contents)
      (store.write file.path file.contents)).bind fun _ => hwrote
    cases hparent : file.path.parent? with
    | none => exact hwrite
    | some directory => exact (maintains_request hentered _ _).bind fun _ => hwrite

theorem maintains_make (hentered : .directories ∈ entered) (store : Store (StateM τ))
    (config : Config) (sheet : Sheet) :
    Maintains (Progress.Stands entered []) (make store config sheet) :=
  (maintains_render store sheet).bind fun file =>
    (leads_place hentered store config file).bind fun _ => .update fun _ h => h.add

end Actions

end Run

/-! ## Whole runs -/

/-- The stage that a step enters. -/
def Step.stage? : Step → Option Stage
  | enter stage => some stage
  | _ => none

namespace Plan

/-- The stages that a plan enters, in order. -/
def stages (plan : List Step) : List Stage :=
  plan.filterMap Step.stage?

theorem stages_cons (step : Step) (rest : List Step) :
    stages (step :: rest) = step.stage?.toList ++ stages rest := by
  cases hstage : step.stage? <;> simp [stages, hstage]

theorem stages_append (plan more : List Step) : stages (plan ++ more) = stages plan ++ stages more :=
  List.filterMap_append

theorem stages_eq_nil {plan : List Step} (h : ∀ step ∈ plan, step.stage? = none) :
    stages plan = [] :=
  List.filterMap_eq_nil_iff.mpr h

theorem stages_ofResource (config : Config) (version : String) (resources : List Resource) :
    stages (resources.flatMap (ofResource config version)) = [] := by
  refine stages_eq_nil fun step hstep => ?_
  obtain ⟨resource, -, hstep⟩ := List.mem_flatMap.mp hstep
  simp only [ofResource, List.mem_cons, List.not_mem_nil, or_false] at hstep
  rcases hstep with rfl | rfl <;> rfl

theorem stages_ofModel (config : Config) (reachable : List String) (components : List Component) :
    stages (components.flatMap (ofModel config reachable)) = [] := by
  refine stages_eq_nil fun step hstep => ?_
  obtain ⟨component, -, hstep⟩ := List.mem_flatMap.mp hstep
  rcases List.mem_append.mp hstep with hstep | hstep
  · split at hstep
    · cases hstep
    · rw [List.mem_singleton.mp hstep]
      rfl
  · rw [List.mem_singleton.mp hstep]
    rfl

end Plan

/-- The stages of a plan are the ones that are left once the description has been imported. -/
theorem Definition.stages_plan (definition : Definition) (config : Config) :
    .importing :: Plan.stages (definition.plan config) = Stage.working := by
  have hdirectories : Plan.stages ((Plan.directories config).map .directory) = [] := rfl
  simp only [plan, Plan.stages_cons, Plan.stages_append, Plan.stages_ofResource,
    Plan.stages_ofModel, hdirectories]
  rfl

namespace Run

variable {τ : Type}

/-- A step enters the stage it is for, if it is for one. -/
theorem leads_step {entered : List Stage} (hentered : .directories ∈ entered)
    (store : Store (StateM τ)) (config : Config) (step : Step) :
    Leads (Progress.Stands entered []) (Run.step store config step)
      (fun _ => Progress.Stands (entered ++ step.stage?.toList) [])
      (Progress.Stands entered []) := by
  have hstays : ∀ {action : Run (StateM τ) Unit}, Maintains (Progress.Stands entered []) action →
      Leads (Progress.Stands entered []) action (fun _ => Progress.Stands (entered ++ []) [])
        (Progress.Stands entered []) := by
    intro action h
    rwa [List.append_nil]
  cases step with
  | enter stage => exact .update fun _ h => h.enter stage
  | directory path => exact hstays (maintains_ensureDirectory hentered store path)
  | file sheet => exact hstays (maintains_make hentered store config sheet)
  | announce component => exact hstays (maintains_note _ rfl rfl rfl)

/-- A plan is taken through its stages in order, until the first step that fails. -/
theorem leads_steps {entered : List Stage} (hentered : .directories ∈ entered)
    (store : Store (StateM τ)) (config : Config) (plan : List Step) :
    Leads (Progress.Stands entered []) (Run.steps store config plan)
      (fun _ => Progress.Stands (entered ++ Plan.stages plan) [])
      (fun progress => ∃ taken, taken <+: Plan.stages plan ∧
        progress.Stands (entered ++ taken) []) := by
  induction plan generalizing entered with
  | nil =>
    refine .pure fun progress h => ?_
    rwa [show Plan.stages [] = [] from rfl, List.append_nil]
  | cons step rest ih =>
    have hrest := ih (List.mem_append_left step.stage?.toList hentered)
    rw [List.append_assoc, ← Plan.stages_cons] at hrest
    refine .bind ((leads_step hentered store config step).weaken fun progress h => ?_) fun _ =>
      hrest.weaken fun progress h => ?_
    · exact ⟨[], List.nil_prefix, by rwa [List.append_nil]⟩
    · obtain ⟨taken, htaken, h⟩ := h
      rw [List.append_assoc] at h
      exact ⟨_, by rwa [Plan.stages_cons, List.prefix_append_right_inj], h⟩

/-- How a run stands that has not come to its end. -/
def StandsWorking (progress : Progress) : Prop :=
  ∃ taken, taken <+: Stage.working ∧ progress.Stands taken []

theorem maintains_importText {entered : List Stage} (text : String) :
    Maintains (Progress.Stands entered []) (importText text : Run (StateM τ) Definition) := by
  refine .bind (Maintains.forM (fun _ => maintains_note _ rfl rfl rfl) _) fun _ => ?_
  refine .bind (.ofExcept (fun _ _ _ h => h) fun _ h => h) fun definition => ?_
  exact (maintains_note _ rfl rfl rfl).bind fun _ => .pure fun _ h => h

/-- The plan of a definition is taken from the stage of the import on. -/
theorem leads_plan (store : Store (StateM τ)) (config : Config) (definition : Definition) :
    Leads (Progress.Stands [.importing] []) (Run.steps store config (definition.plan config))
      (fun _ => Progress.Stands Stage.working []) StandsWorking := by
  obtain ⟨rest, hplan⟩ : ∃ rest, definition.plan config = .enter .directories :: rest := ⟨_, rfl⟩
  have hstages := definition.stages_plan config
  rw [hplan, Plan.stages_cons] at hstages
  rw [hplan, ← hstages]
  refine .bind (.update fun _ h => h.enter .directories) fun _ => ?_
  refine (leads_steps (by decide) store config rest).weaken fun progress h => ?_
  obtain ⟨taken, htaken, h⟩ := h
  refine ⟨_, ?_, h⟩
  rw [← hstages]
  exact (List.prefix_append_right_inj [.importing, .directories]).mpr htaken

theorem leads_body (store : Store (StateM τ)) (config : Config)
    (source : StateM τ (Except Error String)) :
    Leads (Progress.Stands [] []) (body store config source)
      (fun report progress => progress.Stands Stage.working [] ∧ report.skipped = progress.skipped)
      StandsWorking := by
  have hstart : ∀ progress : Progress, progress.Stands [] [] → StandsWorking progress :=
    fun progress h => ⟨[], List.nil_prefix, h⟩
  have himporting : ∀ progress : Progress, progress.Stands [.importing] [] →
      StandsWorking progress := fun progress h => ⟨[.importing], by decide, h⟩
  refine .bind (.ofExcept (fun _ _ _ h => h) hstart) fun _ => ?_
  refine .bind (.update fun _ h => h.enter .importing) fun _ => .bind (.lift fun _ _ h => h)
    fun fetched => .bind (.ofExcept (fun _ _ _ h => h) himporting) fun text => ?_
  refine .bind ((maintains_importText text).weaken himporting) fun definition => ?_
  refine .bind (leads_plan store config definition) fun _ => ?_
  exact fun progress _ h => ⟨h, rfl⟩

end Run

/-! ## The course of stages -/

/-- The stages of a run that has ended, as its journal tells. -/
structure Finished.GoesForward (finished : Finished) : Prop where
  /-- Every transition starts where the one before it ended, and the first one at the start. -/
  chain : Entry.transitions finished.progress.journal =
    (.start :: Entry.stages finished.progress.journal).zip (Entry.stages finished.progress.journal)
  done : (∃ report, finished.result = .ok report) ↔
    Entry.stages finished.progress.journal = Stage.working ++ [.done]
  aborted : (∃ error, finished.result = .error error) ↔
    ∃ taken, taken <+: Stage.working ∧
      Entry.stages finished.progress.journal = taken ++ [.aborted]
  /-- Nothing is created or written before the stage of the directories. -/
  calls : ∀ before call after, finished.progress.journal = before ++ .call call :: after →
    .directories ∈ Entry.stages before
  /-- A run that stops says so once, in the stage that it was in, and then goes to the last one. -/
  stopped : ∀ error, finished.result = .error error → ∃ before stage,
    finished.progress.journal =
      before ++ [.event (.stopped stage error), .event (.entered stage .aborted)] ∧
    stage = (Entry.stages before).getLastD .start ∧
    Entry.stops finished.progress.journal = [(stage, error)]
  /-- The files that are reported as left are those of the report, in its order. -/
  kept : ∀ report, finished.result = .ok report →
    Entry.stops finished.progress.journal = [] ∧
      Entry.kept finished.progress.journal = report.skipped

namespace Run

variable {τ : Type}

private theorem last_of_append {taken more : List Stage} {last other : Stage}
    (h : taken ++ [last] = more ++ [other]) : last = other :=
  (List.cons.inj (List.append_inj' h rfl).2).1

theorem goesForward_done {progress : Progress} {report : Report}
    (h : progress.Stands Stage.working []) (hreport : report.skipped = progress.skipped) :
    Finished.GoesForward ⟨.ok report, close (.ok report) progress⟩ := by
  have hcompleted : (Event.completed report.written.length report.skipped.length).transition? =
      none := rfl
  have htells : Entry.Tells (close (.ok report) progress).journal (Stage.working ++ [.done])
      (progress.skipped ++ []) [] := ((h.enter .done).record hcompleted rfl rfl).tells
  constructor
  case chain => exact htells.chain
  case done => exact ⟨fun _ => htells.stages, fun _ => ⟨report, rfl⟩⟩
  case aborted =>
    refine ⟨nofun, fun ⟨taken, _, h⟩ => ?_⟩
    cases last_of_append (htells.stages.symm.trans h)
  case calls => exact htells.calls
  case stopped => nofun
  case kept =>
    rintro _ ⟨⟩
    rw [hreport, ← List.append_nil progress.skipped]
    exact ⟨htells.stops, htells.kept⟩

theorem goesForward_aborted {progress : Progress} (h : StandsWorking progress) (error : Error) :
    Finished.GoesForward ⟨.error error, close (.error error) progress⟩ := by
  obtain ⟨taken, htaken, hstage, hbefore⟩ := h
  have htells := (hbefore.concat_event (.stopped progress.stage error) rfl).concat_entered .aborted
  have hjournal : (close (.error error) progress).journal = progress.journal ++
      [.event (.stopped progress.stage error), .event (.entered progress.stage .aborted)] :=
    List.append_assoc ..
  rw [← hstage, List.append_assoc, List.singleton_append, ← hjournal] at htells
  constructor
  case chain => exact htells.chain
  case done =>
    refine ⟨nofun, fun h => ?_⟩
    cases last_of_append (htells.stages.symm.trans h)
  case aborted => exact ⟨fun _ => ⟨taken, htaken, htells.stages⟩, fun _ => ⟨error, rfl⟩⟩
  case calls => exact htells.calls
  case stopped =>
    rintro _ ⟨⟩
    rw [← hbefore.stages] at hstage
    exact ⟨progress.journal, progress.stage, hjournal, hstage, htells.stops⟩
  case kept => nofun

/-- Every run takes its stages in their order, as far as it comes, and ends as its result says. -/
theorem stages_go_forward (store : Store (StateM τ)) (library : Template.Library) (config : Config)
    (source : StateM τ (Except Error String)) (t : τ) :
    (generate store library config source t).1.GoesForward := by
  have hstart : (Progress.ofLibrary library).Stands [] [] :=
    ⟨rfl, rfl, fun before _ _ h => absurd h (by simp [Progress.ofLibrary]), rfl, rfl⟩
  have hbody := leads_body store config source (.ofLibrary library) t hstart
  rw [generate_eq_exec]
  generalize exec (body store config source) (.ofLibrary library) t = ending at hbody
  obtain ⟨result, progress, state⟩ := ending
  cases result with
  | ok report => exact goesForward_done hbody.1 hbody.2
  | error error => exact goesForward_aborted hbody error

end Run

end RestModule
