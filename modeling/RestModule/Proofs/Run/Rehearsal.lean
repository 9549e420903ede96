import RestModule.Disk.Host
import RestModule.Proofs.Disk.Growth
import RestModule.Proofs.Run.Course
import RestModule.Proofs.Run.Recorded
import RestModule.Proofs.Sheet.Place

/-!
# Rehearsals of runs on a disk

A rehearsal of a run reads the disk as it is and only records what the run would make. It comes to the
same report as the run does, and leaves the disk alone (`Disk.rehearsal_predicts`). The disk changes
under the run with every step, so the two are compared step by step (`Tracks`): what the run finds on
the disk later is what was there before and the files that it has written, which are recorded. -/

namespace RestModule

open FilePath (IsInner)

/-! ## Templates -/

namespace Template

/-- What the name of a built-in template is like. -/
theorem name_of_builtin {name : String} (h : (builtin? name).isSome = true) :
    FilePath.IsInner name ∧ name.toList.getLast? = some 'l' := by
  obtain ⟨entry, hentry, heq⟩ := List.lookup_isSome_iff.mp h
  rw [beq_iff_eq.mp heq]
  have hnames : ∀ name ∈ [applicationFile, basicAuthenticationFile, bundleFile, buildFile, modelFile,
      implementationFile, interfaceFile],
        FilePath.IsInner name ∧ name.toList.getLast? = some 'l' := by
    unfold FilePath.IsInner
    decide
  exact hnames _ (List.mem_map_of_mem (f := Prod.fst) hentry)

namespace Library

/-- What is readable, or built in, is found and remembered. -/
private theorem resolve_readable (library : Library) {name : String} (file : Option FilePath)
    {found : Override} (hname : (builtin? name).isSome = true)
    (hfound : ∀ fault, found ≠ .unreadable fault) :
    ∃ text, (library.resolve name file found).result = .ok text ∧
      (library.resolve name file found).library = library.remember name text := by
  obtain ⟨builtin, hbuiltin⟩ := Option.isSome_iff_exists.mp hname
  cases found with
  | unreadable fault => exact absurd rfl (hfound fault)
  | absent => cases file <;> exact ⟨builtin, by simp [resolve, hbuiltin], by simp [resolve, hbuiltin]⟩
  | text text =>
    cases file with
    | none => exact ⟨builtin, by simp [resolve, hbuiltin], by simp [resolve, hbuiltin]⟩
    | some file => exact ⟨text, rfl, rfl⟩

/-- Libraries of one directory that know texts for the same names. -/
structure Alike (library other : Library) : Prop where
  directory : other.directory = library.directory
  known : ∀ name, (other.known.lookup name).isSome = (library.known.lookup name).isSome

namespace Alike

variable {library other : Library}

theorem remember (h : library.Alike other) (name text text' : String) :
    (library.remember name text).Alike (other.remember name text') where
  directory := h.directory
  known name' := by
    simp only [Library.remember, List.lookup_cons]
    split
    · rfl
    · exact h.known name'

/-- If a library gives a built-in name a text, so does one like it that finds no override unreadable
but those that the first one does. -/
theorem loading {look look' : FilePath → Override} (h : library.Alike other) {name text : String}
    (hname : (builtin? name).isSome = true)
    (hlook : ∀ directory fault, library.directory = some directory →
      look' (directory.join name) = .unreadable fault → look (directory.join name) = .unreadable fault)
    (hok : (library.loading look name).result = .ok text) :
    ∃ text', (other.loading look' name).result = .ok text' ∧
      (library.loading look name).library.Alike (other.loading look' name).library := by
  have hknown := h.known name
  unfold Library.loading at hok ⊢
  cases hlookup : library.known.lookup name with
  | some text =>
    rw [hlookup, Option.isSome_some, Option.isSome_iff_exists] at hknown
    obtain ⟨text', hother⟩ := hknown
    rw [hother]
    exact ⟨text', rfl, h⟩
  | none =>
    rw [hlookup, Option.isSome_none, Option.isSome_eq_false_iff, Option.isNone_iff_eq_none] at hknown
    rw [hknown, h.directory]
    rw [hlookup] at hok
    have hresolve : ∀ (file : Option FilePath) (found found' : Override),
        (∀ fault, found ≠ .unreadable fault) → (∀ fault, found' ≠ .unreadable fault) →
          ∃ text', (other.resolve name file found').result = .ok text' ∧
            (library.resolve name file found).library.Alike
              (other.resolve name file found').library := by
      intro file found found' hfound hfound'
      obtain ⟨text, -, hlibrary⟩ := library.resolve_readable file hname hfound
      obtain ⟨text', hresult, hother⟩ := other.resolve_readable file hname hfound'
      exact ⟨text', hresult, hlibrary ▸ hother ▸ h.remember name text text'⟩
    cases hdirectory : library.directory with
    | none =>
      exact hresolve none .absent .absent nofun nofun
    | some directory =>
      rw [hdirectory] at hok
      have hfound : ∀ fault, look (directory.join name) ≠ .unreadable fault := by
        intro fault heq
        simp only [heq, resolve] at hok
        cases hok
      exact hresolve (some _) _ _ hfound fun fault heq =>
        hfound fault (hlook directory fault hdirectory heq)

end Alike

end Library

end Template

/-! ## What a recording answers -/

namespace Disk

variable (disk : Disk) (recording : Recording) (path : FilePath)

theorem source_eq (spec : FilePath) :
    host.source spec disk = ((disk.readText spec).mapError (.specUnreadable spec), disk) := by
  have hread : ∀ next : Except Fault String → StateM Disk (Except Error String),
      (host.readText spec >>= next) disk = next (disk.readText spec) disk := fun _ => rfl
  unfold CommandLine.Host.source
  rw [hread]
  cases disk.readText spec <;> rfl

theorem load_store (library : Template.Library) (name : String) :
    (library.load store.look name : StateM Disk Template.Loading) disk =
      (library.loading disk.look name, disk) := by
  unfold Template.Library.load Template.Library.loading
  cases library.known.lookup name with
  | some text => rfl
  | none => cases library.directory <;> rfl

theorem load_recorded (library : Template.Library) (name : String) :
    (library.load store.recorded.look name : StateT Recording (StateM Disk) Template.Loading)
      recording disk = ((library.loading disk.look name, recording), disk) := by
  unfold Template.Library.load Template.Library.loading
  cases library.known.lookup name with
  | some text => rfl
  | none => cases library.directory <;> rfl

theorem has_recorded :
    store.recorded.has path recording disk =
      ((disk.has path || recording.files.any (·.same path), recording), disk) := by
  change (if disk.has path then _ else _ : StateT Recording (StateM Disk) Bool) recording disk = _
  cases disk.has path <;> rfl

theorem createDirectory_recorded :
    store.recorded.createDirectory path recording disk =
      ((.ok (), if disk.has path then recording else recording.addDirectory path), disk) := by
  change (if disk.has path then _ else _ : StateT Recording (StateM Disk) (Except Fault Unit))
    recording disk = _
  cases disk.has path <;> rfl

end Disk

/-! ## Steps of a run and of its rehearsal -/

/-- The path of a call that creates a directory. -/
def Call.directory? : Call → Option FilePath
  | createDirectory path => some path
  | write .. => none

/-- The directories that are created by the calls of a journal. -/
def Entry.created (journal : List Entry) : List FilePath :=
  (Entry.calls journal).filterMap Call.directory?

namespace Progress

/-- A later progress for which no more directories have been created and files reported. -/
structure Keeps (progress later : Progress) : Prop where
  created : Entry.created later.journal = Entry.created progress.journal
  written : later.written = progress.written
  skipped : later.skipped = progress.skipped

theorem keeps_event (progress : Progress) (event : Event) :
    progress.Keeps (progress.record (.event event)) :=
  ⟨by simp [record, Entry.created, Entry.calls], rfl, rfl⟩

theorem keeps_enter (progress : Progress) (stage : Stage) :
    progress.Keeps (progress.enter stage) :=
  ⟨by simp [enter, record, Entry.created, Entry.calls], rfl, rfl⟩

theorem keeps_write (progress : Progress) (path : FilePath) (contents : String) :
    progress.Keeps (progress.record (.call (.write path contents))) :=
  ⟨by simp [record, Entry.created, Entry.calls, Call.directory?], rfl, rfl⟩

theorem created_directory (progress : Progress) (path : FilePath) :
    Entry.created (progress.record (.call (.createDirectory path))).journal =
      Entry.created progress.journal ++ [path] := by
  simp [record, Entry.created, Entry.calls, Call.directory?]

end Progress

/-- A run and its rehearsal on a disk have come equally far: they have written the same files, the
`pending` ones not yet reported, and the recording has these and the missing ones of the directories
that have been created, whose names in the module `allowed` holds of. -/
structure Tracks (config : Config) (disk : Disk) (allowed : List String → Prop)
    (pending : List FilePath) (pace : Run.Pace Disk) : Prop where
  grown : disk.Grown (Entry.created pace.progress.journal) (pace.progress.written ++ pending)
    pace.state
  written : pace.rehearsed.written = pace.progress.written
  skipped : pace.rehearsed.skipped = pace.progress.skipped
  library : pace.progress.library.Alike pace.rehearsed.library
  files : pace.recording.files = pace.progress.written ++ pending
  directories : pace.recording.directories =
    ((Entry.created pace.progress.journal).filter (!disk.has ·)).foldl Recording.addPath []
  inModule : ∀ directory ∈ Entry.created pace.progress.journal, ∃ names, allowed names ∧
    IsDirectories names ∧ directory.components = config.outputPath.components ++ names
  ofSheets : ∀ file ∈ pace.progress.written ++ pending, ∃ (sheet : Sheet) (names : List String)
    (name : String), sheet.Lies config names name ∧ file = sheet.path

namespace Tracks

variable {config : Config} {disk : Disk} {allowed : List String → Prop} {pending : List FilePath}
  {pace : Run.Pace Disk}

theorem placeOf_directory {parts : List String} (hparts : ∀ part ∈ parts, IsInner part) :
    disk.placeOf (config.directory parts) = disk.placeOf config.outputPath ++ parts :=
  disk.placeOf_within (Config.components_directory fun part hpart => (hparts part hpart).1) hparts

/-- Files of sheets that lead to the place of a path in the module are that path. -/
theorem eq_of_placeOf (h : Tracks config disk allowed pending pace) {parts : List String}
    (hparts : ∀ part ∈ parts, IsInner part) {file : FilePath}
    (hfile : file ∈ pace.progress.written ++ pending)
    (hplace : disk.placeOf file = disk.placeOf (config.directory parts)) :
    file = config.directory parts := by
  obtain ⟨sheet, names, name, hlies, rfl⟩ := h.ofSheets file hfile
  rw [hlies.path, placeOf_directory hlies.isInner, placeOf_directory hparts] at hplace
  rw [hlies.path, List.append_cancel_left hplace]

/-- A path that the directories created do not lead through exists for the run exactly if it does for
the rehearsal. -/
theorem has_eq (h : Tracks config disk allowed pending pace) (htree : disk.IsTree)
    (hascents : disk.HasAscents config.outputPath) {parts : List String}
    (hparts : ∀ part ∈ parts, IsInner part) (hfresh : ∀ names, allowed names → ¬ parts <+: names) :
    pace.state.has (config.directory parts) =
      (disk.has (config.directory parts) ||
        pace.recording.files.any (·.same (config.directory parts))) := by
  have hcomponents : (config.directory parts).components = config.outputPath.components ++ parts :=
    Config.components_directory fun part hpart => (hparts part hpart).1
  rw [h.grown.has_eq htree (hascents.within hcomponents hparts) (fun directory hdirectory habove => ?_)
    fun file hfile => h.eq_of_placeOf hparts hfile, h.files]
  · congr 1
    rw [Bool.eq_iff_iff, List.contains_iff_mem, List.any_eq_true]
    constructor
    · exact fun hmem => ⟨_, hmem, FilePath.same_self _⟩
    · rintro ⟨file, hfile, hsame⟩
      have hplace := disk.placeOf_congr (FilePath.same_iff_components.mp hsame)
      exact h.eq_of_placeOf hparts hfile hplace ▸ hfile
  · obtain ⟨names, hallowed, hnames, hcomponents⟩ := h.inModule directory hdirectory
    have hinner : ∀ name ∈ names, IsInner name :=
      fun name hname => (hnames name hname).1.isInner (hnames name hname).2
    rw [placeOf_directory hparts, disk.placeOf_within hcomponents hinner] at habove
    exact hfresh names hallowed ((List.prefix_append_right_inj _).mp habove)

theorem mono (h : Tracks config disk allowed pending pace) {allowed' : List String → Prop}
    (hallowed : ∀ names, allowed names → allowed' names) :
    Tracks config disk allowed' pending pace :=
  { h with
    inModule := fun directory hdirectory =>
      let ⟨names, hnames, hinner⟩ := h.inModule directory hdirectory
      ⟨names, hallowed names hnames, hinner⟩ }

/-- Events and templates aside, nothing has changed. -/
theorem of_keeps (h : Tracks config disk allowed pending pace) {progress rehearsed : Progress}
    (hrun : pace.progress.Keeps progress) (hrehearsal : pace.rehearsed.Keeps rehearsed)
    (hlibrary : progress.library.Alike rehearsed.library) :
    Tracks config disk allowed pending { pace with progress, rehearsed } := by
  obtain ⟨hcreated, hwritten, hskipped⟩ := hrun
  obtain ⟨-, hwritten', hskipped'⟩ := hrehearsal
  constructor
  case library => exact hlibrary
  case written => rw [hwritten, hwritten', h.written]
  case skipped => rw [hskipped, hskipped', h.skipped]
  all_goals simp only [hcreated, hwritten]
  case grown => exact h.grown
  case files => exact h.files
  case directories => exact h.directories
  case inModule => exact h.inModule
  case ofSheets => exact h.ofSheets

end Tracks

namespace Run

/-- What an action does with a template that has been looked up. -/
private def receive {m : Type → Type} [Monad m] (name : String) (loading : Template.Loading) :
    Run m String := do
  modify fun progress => { progress with library := loading.library }
  if let some file := loading.file then note (.overridden name file)
  ofExcept loading.result

/-- The progress after a template has been looked up. -/
private def received (name : String) (loading : Template.Loading) (progress : Progress) : Progress :=
  match loading.file with
  | some file =>
    Progress.record (.event (.overridden name file)) { progress with library := loading.library }
  | none => { progress with library := loading.library }

private theorem keeps_received (name : String) (loading : Template.Loading) (progress : Progress) :
    progress.Keeps (received name loading progress) ∧
      (received name loading progress).library = loading.library := by
  unfold received
  cases loading.file with
  | none => exact ⟨⟨rfl, rfl, rfl⟩, rfl⟩
  | some file =>
    obtain ⟨hcreated, -, -⟩ :=
      Progress.keeps_event { progress with library := loading.library } (.overridden name file)
    exact ⟨⟨hcreated, rfl, rfl⟩, rfl⟩

private theorem exec_receive {τ : Type} (name : String) (loading : Template.Loading)
    (progress : Progress) (t : τ) :
    exec (receive name loading) progress t =
      ⟨loading.result, received name loading progress, t⟩ := by
  unfold receive received
  cases loading.file <;> simp [note]

private theorem rehearse_receive {τ : Type} (name : String) (loading : Template.Loading)
    (progress : Progress) (recording : Recording) (t : τ) :
    rehearse (receive name loading) progress recording t =
      ⟨loading.result, received name loading progress, (recording, t)⟩ := by
  unfold receive received
  cases loading.file <;> simp [note]

namespace Predicts

variable {config : Config} {disk : Disk} {allowed : List String → Prop} {pending : List FilePath}

theorem note (event : Event) :
    Predicts disk (Tracks config disk allowed pending) (Run.note event) (Run.note event)
      fun _ _ => Tracks config disk allowed pending :=
  update fun pace h =>
    h.of_keeps (pace.progress.keeps_event event) (pace.rehearsed.keeps_event event) h.library

theorem enter (stage : Stage) :
    Predicts disk (Tracks config disk allowed pending) (Run.enter stage) (Run.enter stage)
      fun _ _ => Tracks config disk allowed pending :=
  update fun pace h =>
    h.of_keeps (pace.progress.keeps_enter stage) (pace.rehearsed.keeps_enter stage) h.library

/-- Built-in templates are found by the rehearsal if they are by the run: an override that the
rehearsal could not read would be unreadable to the run, too. -/
theorem template (htree : disk.IsTree) {name : String}
    (hname : (Template.builtin? name).isSome = true) :
    Predicts disk (Tracks config disk allowed pending) (Run.template Disk.store name)
      (Run.template Disk.store.recorded name) fun _ _ => Tracks config disk allowed pending := by
  intro pace h text progress state hexec
  obtain ⟨hinner, hending⟩ := Template.name_of_builtin hname
  have hreal : exec (Run.template Disk.store name) pace.progress pace.state =
      exec (receive name (pace.progress.library.loading pace.state.look name)) pace.progress
        pace.state := by
    change exec (MonadState.get >>= _) _ _ = _
    simp only [exec_bind, exec_get, exec_lift, Disk.load_store]
    rfl
  have hrecorded : rehearse (Run.template Disk.store.recorded name) pace.rehearsed pace.recording
      disk = rehearse (receive name (pace.rehearsed.library.loading disk.look name)) pace.rehearsed
        pace.recording disk := by
    change rehearse (MonadState.get >>= _) _ _ _ = _
    simp only [rehearse_bind, rehearse_get, rehearse_lift, Disk.load_recorded]
    rfl
  rw [hreal, exec_receive] at hexec
  obtain ⟨hresult, rfl, rfl⟩ := Ending.mk.inj hexec
  have hlook : ∀ directory fault, pace.progress.library.directory = some directory →
      disk.look (directory.join name) = .unreadable fault →
        pace.state.look (directory.join name) = .unreadable fault := by
    intro directory fault _ hlook
    refine h.grown.look_unreadable htree (fun file hfile hplace => ?_) hlook
    -- the override would be a file of the module, whose name is not that of a template
    obtain ⟨sheet, names, last, hlies, rfl⟩ := h.ofSheets file hfile
    rw [hlies.path, Tracks.placeOf_directory hlies.isInner, ← List.append_assoc,
      disk.placeOf_within (FilePath.components_join directory hinner.1)
        (List.forall_mem_singleton.mpr hinner)] at hplace
    obtain rfl := List.singleton_inj.mp (List.append_inj' hplace rfl).2
    exact hlies.ending hending
  obtain ⟨text', hresult', halike⟩ := h.library.loading hname hlook hresult
  obtain ⟨hkeeps, hlibrary⟩ := keeps_received name
    (pace.progress.library.loading pace.state.look name) pace.progress
  obtain ⟨hkeeps', hlibrary'⟩ := keeps_received name
    (pace.rehearsed.library.loading disk.look name) pace.rehearsed
  refine ⟨text', _, pace.recording, by rw [hrecorded, rehearse_receive, hresult'], ?_⟩
  exact h.of_keeps hkeeps hkeeps' (by rw [hlibrary, hlibrary']; exact halike)

/-- The two renderings of a sheet may differ in their contents alone. -/
theorem render (htree : disk.IsTree) {sheet : Sheet}
    (hsheet : ∀ name ∈ sheet.templates, (Template.builtin? name).isSome = true) :
    Predicts disk (Tracks config disk allowed pending) (sheet.render (Run.template Disk.store))
      (sheet.render (Run.template Disk.store.recorded)) fun file file' pace =>
        (file.path = sheet.path ∧ ∃ contents, file' = { file with contents }) ∧
          Tracks config disk allowed pending pace := by
  refine (mapM fun insertion hinsertion => ?_).bind fun inserted inserted' => ?_
  · refine (template htree (hsheet _ ?_)).bind fun text text' => pure fun _ h => h
    exact List.mem_append_left _ (List.mem_map_of_mem hinsertion)
  · refine (template htree (hsheet _ ?_)).bind fun text text' => pure fun _ h => ⟨⟨rfl, _, rfl⟩, h⟩
    exact List.mem_append_right _ List.mem_cons_self

/-- A directory of the module that both create. -/
theorem createDirectory (hascents : disk.HasAscents config.outputPath) {names : List String}
    (hallowed : allowed names) (hnames : IsDirectories names) {path : FilePath}
    (hpath : path.components = config.outputPath.components ++ names) :
    Predicts disk (Tracks config disk allowed pending)
      (Run.request (.createDirectory path) (Disk.store.createDirectory path))
      (Run.request (.createDirectory path) (Disk.store.recorded.createDirectory path))
      fun _ _ => Tracks config disk allowed pending := by
  have hinner : ∀ name ∈ names, IsInner name :=
    fun name hname => (hnames name hname).1.isInner (hnames name hname).2
  refine request fun pace h state hok => ⟨_, Disk.createDirectory_recorded .., ?_⟩
  exact
    { grown := by
        rw [Progress.created_directory]
        exact h.grown.createDirectory (hascents.within hpath hinner) hok
      written := h.written
      skipped := h.skipped
      library := h.library
      files := by
        refine Eq.trans ?_ h.files
        dsimp only
        split <;> rfl
      directories := by
        rw [Progress.created_directory, List.filter_append, List.foldl_append, ← h.directories]
        split
        · next hhas => rw [List.filter_cons_of_neg (by simp [hhas])]; rfl
        · next hhas => rw [List.filter_cons_of_pos (by simp [hhas])]; rfl
      inModule := by
        rw [Progress.created_directory]
        exact List.forall_mem_append.mpr
          ⟨h.inModule, List.forall_mem_singleton.mpr ⟨names, hallowed, hnames, hpath⟩⟩
      ofSheets := h.ofSheets }

/-- The file of a sheet that both write, the one on the disk and the other one on record. -/
theorem write {sheet : Sheet} {names : List String} {name : String}
    (hlies : sheet.Lies config names name) (contents contents' : String) :
    Predicts disk (Tracks config disk allowed [])
      (Run.request (.write sheet.path contents) (Disk.store.write sheet.path contents))
      (Run.request (.write sheet.path contents') (Disk.store.recorded.write sheet.path contents'))
      fun _ _ => Tracks config disk allowed [sheet.path] := by
  refine request fun pace h state hok => ⟨_, rfl, ?_⟩
  obtain ⟨hcreated, -, -⟩ := pace.progress.keeps_write sheet.path contents
  constructor
  case written => exact h.written
  case skipped => exact h.skipped
  case library => exact h.library
  all_goals simp only [hcreated]
  case grown => simpa [Progress.record] using h.grown.write hok
  case files => simpa [Progress.record, Recording.addFile] using h.files
  case directories => exact h.directories
  case inModule => exact h.inModule
  case ofSheets =>
    refine List.forall_mem_append.mpr ⟨?_, List.forall_mem_singleton.mpr ⟨sheet, _, _, hlies, rfl⟩⟩
    simpa [Progress.record] using h.ofSheets

/-- Run and rehearsal decide alike whether the file of a sheet is left as it is. -/
theorem isKept (htree : disk.IsTree) (hascents : disk.HasAscents config.outputPath) {sheet : Sheet}
    {names : List String} {name : String} (hlies : sheet.Lies config names name)
    {file : Rendered} (hpath : file.path = sheet.path) (contents : String) :
    Predicts disk (Tracks config disk IsDirectories [])
      (liftM (Run.isKept Disk.store config file))
      (liftM (Run.isKept Disk.store.recorded config { file with contents }))
      fun kept kept' pace => (kept' = kept ∧ True) ∧ Tracks config disk IsDirectories [] pace := by
  refine lift fun pace h => ?_
  unfold Run.isKept
  cases file.protection.isLifted config with
  | true => exact ⟨_, _, rfl, ⟨rfl, trivial⟩, h⟩
  | false =>
    refine ⟨_, _, Disk.has_recorded .., ⟨?_, trivial⟩, h⟩
    have hhas := h.has_eq htree hascents hlies.isInner fun _ => hlies.not_above
    rw [← hlies.path, ← hpath] at hhas
    exact hhas.symm

variable (config disk) in
/-- Both have come to the same outcome for the file of a sheet, which is not reported yet. -/
def Placed (outcome outcome' : Outcome) (pace : Pace Disk) : Prop :=
  outcome' = outcome ∧ Tracks config disk IsDirectories outcome.written?.toList pace

theorem place (htree : disk.IsTree) (hascents : disk.HasAscents config.outputPath) {sheet : Sheet}
    {names : List String} {name : String} (hlies : sheet.Lies config names name)
    {file : Rendered} (hpath : file.path = sheet.path) (contents : String) :
    Predicts disk (Tracks config disk IsDirectories []) (Run.place Disk.store config file)
      (Run.place Disk.store.recorded config { file with contents }) (Placed config disk) := by
  refine (isKept htree hascents hlies hpath contents).bind_same fun kept _ => ?_
  cases kept with
  | true => exact (note _).bind fun _ _ => pure fun _ h => ⟨rfl, h⟩
  | false =>
    obtain ⟨path, own, protection⟩ := file
    obtain rfl : path = sheet.path := hpath
    have hplaced : Predicts disk (Tracks config disk IsDirectories [sheet.path])
        (Pure.pure (.written sheet.path)) (Pure.pure (.written sheet.path)) (Placed config disk) :=
      pure fun _ h => ⟨rfl, h⟩
    have hwrite := (write hlies own contents).bind fun _ _ =>
      (note (.wrote sheet.path)).bind fun _ _ => hplaced
    cases hparent : sheet.path.parent? with
    | none =>
      simp only
      exact hwrite
    | some directory =>
      simp only
      exact (createDirectory hascents hlies.named hlies.named
        (hlies.components_parent hparent)).bind fun _ _ => hwrite

/-- Keeping account of what became of the file of a sheet. -/
theorem add (outcome : Outcome) :
    Predicts disk (Tracks config disk allowed outcome.written?.toList) (modify (·.add outcome))
      (modify (·.add outcome)) fun _ _ => Tracks config disk allowed [] := by
  refine update fun pace h => ?_
  cases outcome with
  | written path =>
    exact
      { h with
        grown := by simpa [Progress.add, Outcome.written?] using h.grown
        written := by simpa [Progress.add] using h.written
        files := by simpa [Progress.add, Outcome.written?] using h.files
        ofSheets := by simpa [Progress.add, Outcome.written?, eq_comm] using h.ofSheets }
  | skipped kept => exact { h with skipped := by simpa [Progress.add] using h.skipped }

theorem make (htree : disk.IsTree) (hascents : disk.HasAscents config.outputPath) {sheet : Sheet}
    {names : List String} {name : String} (hlies : sheet.Lies config names name)
    (hsheet : ∀ name ∈ sheet.templates, (Template.builtin? name).isSome = true) :
    Predicts disk (Tracks config disk IsDirectories []) (Run.make Disk.store config sheet)
      (Run.make Disk.store.recorded config sheet)
      fun _ _ => Tracks config disk IsDirectories [] := by
  refine (render htree hsheet).bind ?_
  rintro file _ pace ⟨⟨hpath, contents, rfl⟩, h⟩
  refine ((place htree hascents hlies hpath contents).bind ?_) pace h
  rintro outcome _ pace ⟨rfl, h⟩
  exact add _ pace h

/-- A directory of the module that is created unless it exists. -/
theorem ensureDirectory (htree : disk.IsTree) (hascents : disk.HasAscents config.outputPath)
    {names : List String} (hnames : IsDirectories names)
    (hfresh : ∀ other, allowed other → ¬ names <+: other) :
    Predicts disk (Tracks config disk allowed [])
      (Run.ensureDirectory Disk.store (config.directory names))
      (Run.ensureDirectory Disk.store.recorded (config.directory names))
      fun _ _ => Tracks config disk (fun other => allowed other ∨ other = names) [] := by
  have hinner : ∀ name ∈ names, IsInner name :=
    fun name hname => (hnames name hname).1.isInner (hnames name hname).2
  have hcomponents : (config.directory names).components = config.outputPath.components ++ names :=
    Config.components_directory fun name hname => (hinner name hname).1
  have hknown : Predicts disk (Tracks config disk allowed [])
      (liftM (Disk.store.has (config.directory names)))
      (liftM (Disk.store.recorded.has (config.directory names))) fun known known' pace =>
        (known' = known ∧ True) ∧
          Tracks config disk (fun other => allowed other ∨ other = names) [] pace := by
    refine lift fun pace h => ⟨_, _, Disk.has_recorded .., ⟨?_, trivial⟩, h.mono fun _ => .inl⟩
    exact (h.has_eq htree hascents hinner hfresh).symm
  refine hknown.bind_same fun known _ => ?_
  cases known with
  | true => exact pure fun _ h => h
  | false =>
    exact (createDirectory hascents (.inr rfl) hnames hcomponents).bind fun _ _ => note _

/-- The same for several directories, none of which is above one before it. -/
theorem directories (htree : disk.IsTree) (hascents : disk.HasAscents config.outputPath)
    {rest : List (List String)} (hnames : ∀ names ∈ rest, IsDirectories names)
    (hfresh : ∀ names ∈ rest, ∀ other, allowed other → ¬ names <+: other)
    (hrest : rest.Pairwise fun other names => ¬ names <+: other) :
    Predicts disk (Tracks config disk allowed [])
      (Run.steps Disk.store config ((rest.map config.directory).map .directory))
      (Run.steps Disk.store.recorded config ((rest.map config.directory).map .directory))
      fun _ _ => Tracks config disk (fun other => allowed other ∨ other ∈ rest) [] := by
  induction rest generalizing allowed with
  | nil => exact pure fun _ h => h.mono fun _ => .inl
  | cons names rest ih =>
    obtain ⟨hnames, hrestNames⟩ := List.forall_mem_cons.mp hnames
    obtain ⟨hfresh, hrestFresh⟩ := List.forall_mem_cons.mp hfresh
    obtain ⟨hfirst, hrest⟩ := List.pairwise_cons.mp hrest
    refine (ensureDirectory htree hascents hnames hfresh).bind fun _ _ => ?_
    have hfreshAfter : ∀ next ∈ rest, ∀ other, allowed other ∨ other = names → ¬ next <+: other := by
      rintro next hnext other (hother | rfl)
      · exact hrestFresh next hnext other hother
      · exact hfirst next hnext
    refine weaken (ih hrestNames hfreshAfter hrest) fun _ _ _ h => h.mono fun other hother => ?_
    rw [List.mem_cons]
    exact or_assoc.mp hother

/-- The steps of a plan after its directories. -/
theorem work (htree : disk.IsTree) (hascents : disk.HasAscents config.outputPath) {text : String}
    {definition : Definition} (hconfig : config.validate = .ok ())
    (htext : Definition.ofText text = .ok definition) :
    Predicts disk (Tracks config disk IsDirectories [])
      (Run.steps Disk.store config (definition.work config))
      (Run.steps Disk.store.recorded config (definition.work config))
      fun _ _ => Tracks config disk IsDirectories [] := by
  refine forM fun step hstep => ?_
  cases step with
  | enter stage => exact enter stage
  | announce component => exact note _
  | directory path => cases Definition.isDirectory_of_mem_work hstep
  | file sheet =>
    have hsheet : sheet ∈ definition.sheets config := by
      rw [← Definition.filterMap_work]
      exact List.mem_filterMap.mpr ⟨_, hstep, rfl⟩
    obtain ⟨names, name, hlies⟩ := Definition.exists_lies hconfig htext hsheet
    exact make htree hascents hlies fun _ => Definition.builtin_of_mem_sheets hsheet

theorem steps (htree : disk.IsTree) (hascents : disk.HasAscents config.outputPath) {text : String}
    {definition : Definition} (hconfig : config.validate = .ok ())
    (htext : Definition.ofText text = .ok definition) :
    Predicts disk (Tracks config disk (fun _ => False) [])
      (Run.steps Disk.store config (definition.plan config))
      (Run.steps Disk.store.recorded config (definition.plan config))
      fun _ _ => Tracks config disk IsDirectories [] := by
  rw [Definition.plan_eq, Config.planDirectories_eq, Config.roots_eq]
  have hnames : ∀ names ∈ [[], ["src", "main", "java"], ["src", "main", "resources"]],
      IsDirectories names := by
    unfold IsDirectories
    decide
  refine forM_append ((enter .directories).bind fun _ _ => ?_) (work htree hascents hconfig htext)
  refine weaken (directories htree hascents hnames (fun _ _ _ => False.elim) (by decide))
    fun _ _ _ h => h.mono fun names hmem => hnames names (hmem.resolve_left id)

/-- The import of a description, which has no part in what is on the disk. -/
theorem importText (text : String) :
    Predicts disk (Tracks config disk allowed pending) (Run.importText text) (Run.importText text)
      fun definition definition' pace =>
        (definition' = definition ∧ Definition.ofText text = .ok definition) ∧
          Tracks config disk allowed pending pace :=
  (forM fun _ _ => note _).bind fun _ _ => (ofExcept _).bind_same fun _ hdefinition =>
    (note _).bind fun _ _ => pure fun _ h => ⟨⟨rfl, hdefinition⟩, h⟩

/-- Both read the same description, before anything has changed. -/
theorem source (spec : FilePath) :
    Predicts disk (fun pace => pace.state = disk ∧ Tracks config disk allowed pending pace)
      (liftM (Disk.host.source spec))
      (liftM (liftM (Disk.host.source spec) : StateT Recording (StateM Disk) (Except Error String)))
      fun text text' pace => (text' = text ∧ True) ∧ Tracks config disk allowed pending pace := by
  rintro ⟨progress, _, rehearsed, recording⟩ ⟨rfl, h⟩ _ _ _ heq
  rw [exec_lift, Disk.source_eq] at heq
  cases heq
  refine ⟨_, rehearsed, recording, ?_, ⟨rfl, trivial⟩, h⟩
  have hlift : ∀ disk, (liftM (Disk.host.source spec) : StateT Recording (StateM Disk) _) recording
      disk = (((Disk.host.source spec disk).1, recording), (Disk.host.source spec disk).2) :=
    fun _ => rfl
  rw [rehearse_lift, hlift, Disk.source_eq]

/-- A run and its rehearsal come to the same report. -/
theorem body (htree : disk.IsTree) (hascents : disk.HasAscents config.outputPath)
    (spec : FilePath) :
    Predicts disk (fun pace => pace.state = disk ∧ Tracks config disk (fun _ => False) [] pace)
      (Run.body Disk.store config (Disk.host.source spec))
      (Run.body Disk.store.recorded config (liftM (Disk.host.source spec)))
      fun report report' pace => report' = report ∧ report.written = pace.progress.written ∧
        Tracks config disk IsDirectories [] pace := by
  refine (ofExcept _).bind_same fun _ hconfig => ?_
  have henter : Predicts disk (fun pace => pace.state = disk ∧
      Tracks config disk (fun _ => False) [] pace) (Run.enter .importing) (Run.enter .importing)
      fun _ _ pace => pace.state = disk ∧ Tracks config disk (fun _ => False) [] pace :=
    update fun pace h => ⟨h.1, h.2.of_keeps (pace.progress.keeps_enter _)
      (pace.rehearsed.keeps_enter _) h.2.library⟩
  refine henter.bind fun _ _ => (source spec).bind_same fun text _ => ?_
  refine (ofExcept text).bind_same fun text _ => (importText text).bind_same fun definition htext => ?_
  refine (steps htree hascents hconfig htext).bind fun _ _ => get.bind fun progress rehearsed => ?_
  refine pure fun pace ⟨h, hprogress, hrehearsed⟩ => ⟨?_, ?_, h⟩
  · rw [hprogress, hrehearsed, Progress.report, Progress.report, h.written, h.skipped]
  · rw [hprogress]
    rfl

end Predicts

end Run

/-! ## Whole runs -/

theorem Recording.foldl_addPath (paths : List FilePath) :
    paths.foldl addPath [] = paths.eraseDupsBy FilePath.same := by
  suffices h : ∀ seen : List FilePath,
      paths.foldl addPath seen.reverse = List.eraseDupsBy.loop FilePath.same paths seen from h []
  induction paths with
  | nil => exact fun _ => rfl
  | cons path rest ih =>
    intro seen
    have hany : seen.reverse.any (·.same path) = seen.any path.same := by
      rw [List.any_reverse]
      refine congrArg seen.any (funext fun other => ?_)
      rw [FilePath.same, FilePath.same, Bool.beq_comm]
    rw [List.foldl_cons, List.eraseDupsBy.loop, addPath, hany]
    cases seen.any path.same with
    | true => exact ih seen
    | false => rw [← ih (path :: seen), List.reverse_cons]; rfl

namespace Disk

/-- A run that completes on a disk has been predicted by its rehearsal there: the rehearsal completes
with the same report and leaves the disk as it is, and it records the files that the run writes and,
each of them once, the directories that the run creates and that the disk did not have. Where the
output path goes up, the directory that it goes up from has to be there: else making it would give
the paths of files that exist another name. -/
theorem rehearsal_predicts {disk later : Disk} (htree : disk.IsTree) {config : Config}
    (hascents : disk.HasAscents config.outputPath) {templates : Option FilePath} {spec : FilePath}
    {finished : Finished} {report : Report}
    (hrun : host.generate config templates spec disk = (finished, later))
    (hreport : finished.result = .ok report) :
    ∃ rehearsed recording,
      host.rehearse config templates spec disk = ((rehearsed, recording), disk) ∧
        rehearsed.result = .ok report ∧ recording.files = report.written ∧
        recording.directories = ((Entry.created finished.progress.journal).filter
          (!disk.has ·)).eraseDupsBy FilePath.same := by
  have hinitial : Tracks config disk (fun _ => False) []
      ⟨.ofLibrary (.ofDirectory templates), disk, .ofLibrary (.ofDirectory templates), .empty⟩ :=
    { grown := .refl htree
      written := rfl
      skipped := rfl
      library := ⟨rfl, fun _ => rfl⟩
      files := rfl
      directories := rfl
      inModule := fun _ hmem => nomatch hmem
      ofSheets := fun _ hmem => nomatch hmem }
  rw [CommandLine.Host.generate, Run.generate_eq_exec] at hrun
  obtain ⟨rfl, rfl⟩ := Prod.mk.inj hrun
  obtain ⟨_, rehearsed, recording, hrehearse, hsame, hwritten, h⟩ :=
    Run.Predicts.body htree hascents spec _ ⟨rfl, hinitial⟩ report _ _
      (congrArg (Ending.mk · _ _) hreport)
  rw [hsame] at hrehearse
  refine ⟨⟨.ok report, Run.close (.ok report) rehearsed⟩, recording, ?_, rfl, ?_, ?_⟩
  · dsimp only at hrehearse
    change (Run.generate store.recorded _ _ _).run _ _ = _
    rw [Run.generate_eq_rehearse, hrehearse]
  · rw [h.files, hwritten, List.append_nil]
  · rw [h.directories, Recording.foldl_addPath, Entry.created, Entry.created, Launch.calls_close]
    rfl

/-- A working directory with an empty description and plain templates, where a module was made before:
its bundle descriptor is still there. -/
def plain : Disk where
  entries :=
    [(["work"], .directory), (["work", "plain.json"], .file (.text "\x7b\x7d")),
      (["work", "out"], .directory), (["work", "out", "bnd.bnd"], .file (.text "edited")),
      (["work", "templates"], .directory),
      (["work", "templates", "bnd.bnd.tpl"], .file (.text "bundle")),
      (["work", "templates", "build.gradle.tpl"], .file (.text "build")),
      (["work", "templates", "Application.java.tpl"], .file (.text "application"))]
  working := ["work"]

theorem rehearsal_predicts_plain :
    ∃ report rehearsed recording,
      (host.generate Launch.plainConfig (some ⟨"templates"⟩) ⟨"plain.json"⟩ plain).1.result = .ok report ∧
        host.rehearse Launch.plainConfig (some ⟨"templates"⟩) ⟨"plain.json"⟩ plain =
          ((rehearsed, recording), plain) ∧
        rehearsed.result = .ok report ∧ recording.files = report.written := by
  have hcompletes : (host.generate Launch.plainConfig (some ⟨"templates"⟩) ⟨"plain.json"⟩
      plain).1.result.toOption.isSome = true := by decide +kernel
  obtain ⟨report, hreport⟩ := Except.exists_ok_of_isSome hcompletes
  have htree : plain.IsTree := ⟨by decide, by decide⟩
  have hascents : plain.HasAscents Launch.plainConfig.outputPath := .of_not_mem plain (by decide)
  obtain ⟨rehearsed, recording, hrehearse, hresult, hfiles, -⟩ :=
    rehearsal_predicts htree hascents (Prod.eta _).symm hreport
  exact ⟨report, rehearsed, recording, hreport, hrehearse, hresult, hfiles⟩

end Disk

end RestModule
