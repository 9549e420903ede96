import RestModule.Proofs.Run.Failure

/-!
# Protected files

No history of runs changes an existing resource implementation or bundle descriptor unless one of
its launches lifts the protection (`FileSystem.history_spares_protected`). Each call of such a run
that writes a file of that name finds no file there (`Spares`). This takes two facts: a protected
file that exists is kept, and no other file of a module is named like a protected one. -/

namespace RestModule

/-! ## Calls that spare files -/

/-- No call writes over a file whose name has a property. -/
inductive Spares {σ : Type} (fs : FileSystem σ) (p : String → Prop) : σ → List Call → Prop where
  | nil (s : σ) : Spares fs p s []
  | createDirectory {s : σ} {rest : List Call} (directory : FilePath)
    (h : Spares fs p (fs.after s (.createDirectory directory)) rest) :
    Spares fs p s (.createDirectory directory :: rest)
  | write {s : σ} {rest : List Call} {file : FilePath} {contents : String}
    (hnew : p file.name → fs.read? s file = none)
    (h : Spares fs p (fs.after s (.write file contents)) rest) :
    Spares fs p s (.write file contents :: rest)

namespace Spares

variable {σ : Type} {fs : FileSystem σ} {p : String → Prop} {s : σ}

theorem append_iff {first second : List Call} :
    Spares fs p s (first ++ second) ↔
      Spares fs p s first ∧ Spares fs p (fs.afterAll s first) second := by
  constructor
  · intro h
    induction first generalizing s with
    | nil => exact ⟨.nil s, h⟩
    | cons call rest ih =>
      cases h with
      | createDirectory directory h => exact ⟨.createDirectory directory (ih h).1, (ih h).2⟩
      | write hnew h => exact ⟨.write hnew (ih h).1, (ih h).2⟩
  · rintro ⟨hfirst, hsecond⟩
    induction hfirst with
    | nil => exact hsecond
    | createDirectory directory _ ih => exact .createDirectory directory (ih hsecond)
    | write hnew _ ih => exact .write hnew (ih hsecond)

theorem of_initial {first calls : List Call} (h : Spares fs p s calls) (hbefore : first <+: calls) :
    Spares fs p s first := by
  obtain ⟨rest, rfl⟩ := hbefore
  exact (append_iff.mp h).1

/-- A file that is spared keeps its contents. -/
theorem read?_afterAll {calls : List Call} {path : FilePath} {contents : String}
    (h : Spares fs p s calls) (hname : p path.name) (hread : fs.read? s path = some contents) :
    fs.read? (fs.afterAll s calls) path = some contents := by
  induction h with
  | nil => exact hread
  | createDirectory directory _ ih =>
    refine ih ?_
    rw [fs.read?_createDirectory]
    exact hread
  | write hnew _ ih =>
    refine ih ?_
    rw [fs.read?_write]
    split
    · next hsame =>
      rw [FilePath.name_eq_of_same hsame] at hname
      rw [fs.read?_same hsame, hnew hname] at hread
      cases hread
    · exact hread

theorem bind {α β : Type} {intent : Intent α} {next : α → Intent β}
    (h : Spares fs p s intent.calls)
    (hnext : ∀ a, intent.result = .ok a →
      Spares fs p (fs.afterAll s intent.calls) (next a).calls) :
    Spares fs p s (intent.bind next).calls := by
  unfold Intent.bind
  split
  · next a ha => exact append_iff.mpr ⟨h, hnext a ha⟩
  · exact h

end Spares

/-! ## Names of protected files -/

namespace Sheet.Named

variable {config : Config} {protection : Protection} {part : String}

private theorem suffix_of_java {name : String}
    (h : "ResourceImpl.java".toList <:+ (name ++ ".java").toList) :
    "ResourceImpl".toList <:+ name.toList := by
  have hsplit : "ResourceImpl.java".toList = "ResourceImpl".toList ++ ".java".toList := by decide
  obtain ⟨before, h⟩ := h
  rw [hsplit, String.toList_append, ← List.append_assoc] at h
  exact ⟨before, List.append_cancel_right h⟩

/-- The longer one of two endings of a text ends in the shorter one. -/
private theorem suffix_of_endings {short long : String} {text : List Char}
    (hshort : short.toList <:+ text) (hlong : long.toList <:+ text)
    (h : short.toList.length ≤ long.toList.length) : short.toList <:+ long.toList :=
  List.suffix_of_suffix_length_le hshort hlong h

/-- Only resource implementations are named like resource implementations. -/
theorem implementation_of_suffix (h : Named config protection part)
    (hclass : ¬ "ResourceImpl".toList <:+ config.applicationClass.toList)
    (hpart : "ResourceImpl.java".toList <:+ part.toList) : protection = .implementation := by
  have hname : ∀ {name ending : String}, part = name ++ ending ++ ".java" →
      ending.toList.length ≤ 12 → ending.toList <:+ "ResourceImpl".toList := by
    rintro name ending rfl hlength
    have hending : ending.toList <:+ (name ++ ending).toList := by
      rw [String.toList_append]
      exact List.suffix_append _ _
    exact suffix_of_endings hending (suffix_of_java hpart) hlength
  cases h with
  | bundle => exact absurd hpart (by decide)
  | build => exact absurd hpart (by decide)
  | interface resource => exact absurd (hname rfl (by decide)) (by decide)
  | implementation resource => rfl
  | model component => exact absurd (hname rfl (by decide)) (by decide)
  | application => exact absurd (suffix_of_java hpart) hclass

/-- Only the bundle descriptor is named like it. -/
theorem metadata_of_suffix (h : Named config protection part)
    (hpart : "bnd.bnd".toList <:+ part.toList) : protection = .metadata := by
  have hjava : ∀ name : String, part ≠ name ++ ".java" := by
    rintro name rfl
    have hending : ".java".toList <:+ (name ++ ".java").toList := by
      rw [String.toList_append]
      exact List.suffix_append _ _
    exact absurd (suffix_of_endings hending hpart (by decide)) (by decide)
  cases h with
  | bundle => rfl
  | build => exact absurd hpart (by decide)
  | interface resource => exact absurd rfl (hjava _)
  | implementation resource => exact absurd rfl (hjava _)
  | model component => exact absurd rfl (hjava _)
  | application => exact absurd rfl (hjava _)

end Sheet.Named

/-! ## Runs -/

namespace Launch

variable {σ : Type} {launch : Launch} {fs : FileSystem σ} {p : String → Prop}

/-- A sheet that goes to a file of such a name is protected in a launch. -/
def Guards (launch : Launch) (p : String → Prop) (sheet : Sheet) : Prop :=
  p sheet.path.name → sheet.protection.isLifted launch.config = false

theorem spares_placing {file : Rendered}
    (h : p file.path.name → file.protection.isLifted launch.config = false) (s : σ) :
    Spares fs p s (launch.placing fs s file).calls := by
  unfold placing
  split
  · exact .nil s
  · next hkeeps =>
    have hnew : p file.path.name → fs.read? s file.path = none := by
      intro hname
      have hhas : ¬ fs.has s file.path = true := by
        intro hhas
        exact hkeeps (by simp [FileSystem.keeps, h hname, hhas])
      exact Option.eq_none_iff_forall_ne_some.mpr fun contents hread =>
        hhas (fs.has_of_read? hread)
    unfold Rendered.calls
    cases file.path.parent? with
    | none => exact .write hnew (.nil _)
    | some directory =>
      refine .createDirectory directory (.write (fun hname => ?_) (.nil _))
      rw [fs.read?_createDirectory]
      exact hnew hname

theorem spares_doing {step : Step} (h : ∀ sheet, step.sheet? = some sheet → launch.Guards p sheet)
    (s : σ) : Spares fs p s (launch.doing fs s step).calls := by
  cases step with
  | enter stage => exact .nil s
  | announce component => exact .nil s
  | directory path =>
    rw [doing]
    split
    · exact .nil s
    · exact .createDirectory path (.nil _)
  | file sheet =>
    refine Spares.bind (.nil s) fun file hfile => ?_
    obtain ⟨hpath, hprotection⟩ := rendered_ok hfile
    refine Spares.bind (spares_placing (fun hname => ?_) s) fun outcome _ => .nil _
    rw [hprotection]
    exact h sheet rfl (hpath ▸ hname)

theorem spares_course {plan : List Step}
    (h : ∀ sheet ∈ plan.filterMap Step.sheet?, launch.Guards p sheet) (s : σ) :
    Spares fs p s (launch.course fs s plan).calls := by
  induction plan generalizing s with
  | nil => exact .nil s
  | cons step rest ih =>
    refine Spares.bind (spares_doing (fun sheet hsheet => ?_) s) fun _ _ =>
      ih (fun sheet hmem => ?_) _
    · exact h sheet (List.mem_filterMap.mpr ⟨step, List.mem_cons_self, hsheet⟩)
    · obtain ⟨other, hother, hsheet⟩ := List.mem_filterMap.mp hmem
      exact h sheet (List.mem_filterMap.mpr ⟨other, List.mem_cons_of_mem _ hother, hsheet⟩)

/-- A run whose sheets guard the files of some names spares those. -/
theorem spares_attempt
    (h : ∀ definition : Definition, ∀ sheet ∈ definition.sheets launch.config,
      launch.Guards p sheet) (s : σ) :
    Spares fs p s (launch.attempt fs s).done := by
  refine Spares.of_initial ?_ (Attempt.ofCalls_done_initial 0 (launch.intent fs s).calls)
  refine Spares.bind (.nil s) fun definition _ => ?_
  refine Spares.bind (spares_course (fun sheet hsheet => ?_) s) fun _ _ => .nil _
  rw [Definition.filterMap_plan] at hsheet
  exact h definition sheet hsheet

variable (launch fs) in
/-- The calls of a run that took effect: all but the one whose fault it ended with. -/
def effects (s : σ) : List Call :=
  let (finished, _) := launch.run fs s
  match finished.result with
  | .error (.output _ _) => (Entry.calls finished.progress.journal).dropLast
  | _ => Entry.calls finished.progress.journal

theorem effects_eq (s : σ) : launch.effects fs s = (launch.attempt fs s).done := by
  obtain ⟨hcalls, -, hresult⟩ := launch.run_follows fs s
  simp only [effects, hcalls, hresult, Attempt.made]
  cases hfailed : (launch.attempt fs s).failed with
  | some failed => simp
  | none =>
    dsimp only
    split
    · next path fault heq =>
      rcases intent_error (Except.map_error heq) with ⟨hinput, -⟩ | ⟨_, _, heq⟩
      · exact absurd (.output path fault) hinput.not_ofOutput
      · cases heq
    · simp

end Launch

namespace FileSystem

variable {σ : Type} (fs : FileSystem σ)

/-- The state after the runs of launches, one after another. -/
def runAll (s : σ) (history : List Launch) : σ :=
  history.foldl (fun s launch => (launch.run fs s).2) s

/-- The calls of these runs that took effect. -/
def effects (s : σ) : List Launch → List Call
  | [] => []
  | launch :: rest => launch.effects fs s ++ effects (launch.run fs s).2 rest

theorem runAll_eq (s : σ) (history : List Launch) :
    fs.runAll s history = fs.afterAll s (fs.effects s history) := by
  induction history generalizing s with
  | nil => rfl
  | cons launch rest ih =>
    rw [effects, afterAll_append, Launch.effects_eq, ← (launch.run_follows fs s).2.1]
    exact ih _

theorem spares_effects {p : String → Prop} {history : List Launch}
    (h : ∀ launch ∈ history, ∀ definition : Definition,
      ∀ sheet ∈ definition.sheets launch.config, launch.Guards p sheet) (s : σ) :
    Spares fs p s (fs.effects s history) := by
  induction history generalizing s with
  | nil => exact .nil s
  | cons launch rest ih =>
    rw [effects, Launch.effects_eq]
    refine Spares.append_iff.mpr ⟨Launch.spares_attempt (h launch List.mem_cons_self) s, ?_⟩
    rw [← (launch.run_follows fs s).2.1]
    exact ih (fun launch hlaunch => h launch (List.mem_cons_of_mem _ hlaunch)) _

/-- A file that existed at some point of a history keeps its contents if the runs guard its name. -/
theorem read?_of_guards {p : String → Prop} {history : List Launch}
    (h : ∀ launch ∈ history, ∀ definition : Definition,
      ∀ sheet ∈ definition.sheets launch.config, launch.Guards p sheet)
    {s : σ} {earlier later : List Call} (hearlier : earlier <+: later)
    (hlater : later <+: fs.effects s history) {path : FilePath} {contents : String}
    (hname : p path.name) (hread : fs.read? (fs.afterAll s earlier) path = some contents) :
    fs.read? (fs.afterAll s later) path = some contents := by
  have hspares := (fs.spares_effects h s).of_initial hlater
  obtain ⟨between, rfl⟩ := hearlier
  rw [fs.afterAll_append]
  exact (Spares.append_iff.mp hspares).2.read?_afterAll hname hread

/-- No history of runs changes an existing resource implementation or bundle descriptor that all of
its launches protect. -/
theorem history_spares_protected (s : σ) (history : List Launch) :
    fs.runAll s history = fs.afterAll s (fs.effects s history) ∧
      ((∀ launch ∈ history, launch.config.overwriteImplementation = false ∧
          ¬ "ResourceImpl".toList <:+ launch.config.applicationClass.toList) →
        ∀ earlier later path contents, earlier <+: later → later <+: fs.effects s history →
          "ResourceImpl.java".toList <:+ path.name.toList →
          fs.read? (fs.afterAll s earlier) path = some contents →
          fs.read? (fs.afterAll s later) path = some contents) ∧
      ((∀ launch ∈ history, launch.config.overwriteMetadata = false) →
        ∀ earlier later path contents, earlier <+: later → later <+: fs.effects s history →
          path.name = "bnd.bnd" →
          fs.read? (fs.afterAll s earlier) path = some contents →
          fs.read? (fs.afterAll s later) path = some contents) := by
  refine ⟨fs.runAll_eq s history, ?_, ?_⟩
  · intro hlaunches earlier later path contents hearlier hlater hname hread
    refine fs.read?_of_guards (p := fun name => "ResourceImpl.java".toList <:+ name.toList)
      (fun launch hlaunch definition sheet hsheet hname => ?_) hearlier hlater hname hread
    obtain ⟨hoverwrite, hclass⟩ := hlaunches launch hlaunch
    obtain ⟨base, part, hpath, hnamed⟩ := Definition.named_of_mem_sheets hsheet
    rw [hnamed.implementation_of_suffix hclass (hname.trans (hpath ▸ hnamed.name_suffix base))]
    exact hoverwrite
  · intro hlaunches earlier later path contents hearlier hlater hname hread
    refine fs.read?_of_guards (p := (· = "bnd.bnd"))
      (fun launch hlaunch definition sheet hsheet hname => ?_) hearlier hlater hname hread
    obtain ⟨base, part, hpath, hnamed⟩ := Definition.named_of_mem_sheets hsheet
    have hpart := hnamed.name_suffix base
    rw [← hpath, hname] at hpart
    rw [hnamed.metadata_of_suffix hpart]
    exact hlaunches launch hlaunch

theorem history_spares_protected_shop :
    let edited : FilePath :=
      ⟨"shop-rest/src/main/java/org/shop/rest/internal/resource/ProductsResourceImpl.java"⟩
    let s := (Memory.empty.withFile edited "edited").withFile ⟨"shop-rest/bnd.bnd"⟩ "tuned"
    let fs := Memory.fileSystem
    fs.read? (fs.runAll s [.shop, .shop]) edited = some "edited" ∧
      fs.read? (fs.runAll s [.shop, .shop]) ⟨"shop-rest/bnd.bnd"⟩ = some "tuned" := by
  intro edited s fs
  obtain ⟨hrun, himplementation, hmetadata⟩ := fs.history_spares_protected s [.shop, .shop]
  rw [hrun]
  have hclass : ∀ launch ∈ [Launch.shop, .shop], launch.config.overwriteImplementation = false ∧
      ¬ "ResourceImpl".toList <:+ launch.config.applicationClass.toList := by
    simp only [List.mem_cons, List.not_mem_nil, or_false, or_self, forall_eq]
    decide
  refine ⟨himplementation hclass [] _ edited "edited" List.nil_prefix List.prefix_rfl ?_ ?_,
    hmetadata ?_ [] _ _ "tuned" List.nil_prefix List.prefix_rfl ?_ ?_⟩
  · decide +kernel
  · decide +kernel
  · simp only [List.mem_cons, List.not_mem_nil, or_false, or_self, forall_eq]
    rfl
  · decide +kernel
  · decide +kernel

end FileSystem

end RestModule
