import RestModule.Proofs.Run.Decisions
import RestModule.Proofs.Run.Regeneration
import RestModule.Proofs.Sheet.Place

/-!
# Lifting one protection

A configuration has a flag for each protection that lets the files under it be replaced. Two runs
whose configurations differ in one flag part at the first file under that protection, and yet
decide alike on every other file and leave the same contents everywhere else
(`Launch.flags_independent`): what they do differently replaces a file that exists, and a file that
exists is all that a later decision could notice. -/

namespace RestModule

namespace FileSystem

variable {σ : Type} (fs : FileSystem σ)

/-- States in which the same of some files exist, and which hold the same at every path but those of
the exempt ones. -/
structure Near (files : List Rendered) (exempt : Rendered → Prop) (s t : σ) : Prop where
  has : ∀ file ∈ files, fs.has s file.path = fs.has t file.path
  read? : ∀ path, (∀ file ∈ files, exempt file → path.same file.path = false) →
    fs.read? s path = fs.read? t path

/-- Creating the directory of one file makes no other file exist. -/
def Spares (files : List Rendered) : Prop :=
  ∀ file ∈ files, ∀ directory, file.path.parent? = some directory →
    ∀ other ∈ files, fs.makes directory other.path = false

variable {fs} {files : List Rendered} {exempt : Rendered → Prop} {s t : σ}

namespace Near

theorem refl (s : σ) : fs.Near files exempt s s :=
  ⟨fun _ _ => rfl, fun _ _ => rfl⟩

theorem symm (h : fs.Near files exempt s t) : fs.Near files exempt t s :=
  ⟨fun file hfile => (h.has file hfile).symm, fun path hpath => (h.read? path hpath).symm⟩

theorem after (h : fs.Near files exempt s t) (call : Call) :
    fs.Near files exempt (fs.after s call) (fs.after t call) := by
  cases call with
  | createDirectory directory =>
    refine ⟨fun file hfile => ?_, fun path hpath => ?_⟩
    · rw [fs.has_createDirectory, fs.has_createDirectory, h.has file hfile]
    · rw [fs.read?_createDirectory, fs.read?_createDirectory, h.read? path hpath]
  | write target contents =>
    refine ⟨fun file hfile => ?_, fun path hpath => ?_⟩
    · rw [fs.has_write, fs.has_write, h.has file hfile]
    · rw [fs.read?_write, fs.read?_write, h.read? path hpath]

theorem afterAll (h : fs.Near files exempt s t) (calls : List Call) :
    fs.Near files exempt (fs.afterAll s calls) (fs.afterAll t calls) := by
  induction calls generalizing s t with
  | nil => exact h
  | cons call rest ih => exact ih (h.after call)

/-- Replacing an exempt file that exists goes unnoticed. -/
theorem replace (h : fs.Near files exempt s t) (hspares : fs.Spares files) {file : Rendered}
    (hfile : file ∈ files) (hexempt : exempt file) (hhas : fs.has t file.path = true) :
    fs.Near files exempt s (fs.afterAll t file.calls) where
  has other hother := by
    have hdirectory : fs.has (fs.afterAll t (file.path.parent?.map .createDirectory).toList)
        other.path = fs.has t other.path := by
      cases hparent : file.path.parent? with
      | none => rfl
      | some directory =>
        have hmakes := hspares file hfile directory hparent other hother
        exact (fs.has_createDirectory ..).trans (by rw [hmakes, Bool.or_false])
    rw [h.has other hother, Rendered.calls, afterAll_append, afterAll_cons, afterAll_nil,
      fs.has_write, hdirectory]
    cases hsame : other.path.same file.path with
    | false => rw [Bool.or_false]
    | true => rw [fs.has_same hsame, hhas, Bool.true_or]
  read? path hpath := by
    rw [h.read? path hpath, read?_afterAll_calls, hpath file hfile hexempt]
    rfl

end Near

end FileSystem

namespace Launch

variable {σ : Type} {launch other : Launch} {fs : FileSystem σ} {exempt : Rendered → Prop}

/-! ## Two runs side by side -/

/-- If the protections of all files but the exempt ones are lifted alike, runs decide alike on these
files, and so stay near each other. -/
theorem decisions_near {files rest : List Rendered} (hspares : fs.Spares files)
    (hlifted : ∀ file ∈ files, ¬ exempt file →
      file.protection.isLifted launch.config = file.protection.isLifted other.config)
    (hrest : rest ⊆ files) {s t : σ} (h : fs.Near files exempt s t) :
    List.Forall₂ (fun d e => d.file = e.file ∧ (¬ exempt d.file → d.kept = e.kept))
        (launch.decisions fs s rest) (other.decisions fs t rest) ∧
      fs.Near files exempt
        (fs.afterAll s ((launch.decisions fs s rest).flatMap (·.calls)))
        (fs.afterAll t ((other.decisions fs t rest).flatMap (·.calls))) := by
  induction rest generalizing s t with
  | nil => exact ⟨.nil, h⟩
  | cons file more ih =>
    obtain ⟨hfile, hmore⟩ := List.cons_subset.mp hrest
    have hhas := h.has file hfile
    have hkept : ¬ exempt file →
        fs.keeps launch.config s file = fs.keeps other.config t file := by
      intro hexempt
      rw [FileSystem.keeps, FileSystem.keeps, hlifted file hfile hexempt, hhas]
    -- only a run that replaces what the other one keeps parts from it
    have hnext : fs.Near files exempt
        (fs.afterAll s (Decision.mk file (fs.keeps launch.config s file)).calls)
        (fs.afterAll t (Decision.mk file (fs.keeps other.config t file)).calls) := by
      by_cases hexempt : exempt file
      · cases hfirst : fs.keeps launch.config s file <;>
          cases hsecond : fs.keeps other.config t file
        · exact h.afterAll _
        · have hold := (Bool.and_eq_true_iff.mp hsecond).2
          exact (h.symm.replace hspares hfile hexempt (hhas.trans hold)).symm
        · have hold := (Bool.and_eq_true_iff.mp hfirst).2
          exact h.replace hspares hfile hexempt (hhas.symm.trans hold)
        · exact h
      · rw [hkept hexempt]
        exact h.afterAll _
    obtain ⟨hdecisions, hnear⟩ := ih hmore hnext
    refine ⟨.cons ⟨rfl, hkept⟩ hdecisions, ?_⟩
    simp only [decisions, List.flatMap_cons, fs.afterAll_append]
    exact hnear

/-- Files of a module exist by being written, not with the directory of another. -/
theorem spares_files (hmakes : fs.MakesAbove) (launch : Launch) : fs.Spares launch.files := by
  have hlies : ∀ file ∈ launch.files, ∃ (sheet : Sheet) (names : List String) (last : String),
      file.path = sheet.path ∧ sheet.Lies launch.config names last := by
    intro file hfile
    obtain ⟨definition, sheet, hdefinition, hsheet, hrendered⟩ := exists_sheet_of_mem_files hfile
    obtain ⟨_, hconfig, htext⟩ := Except.bind_ok hdefinition
    obtain ⟨names, last, hlies⟩ := Definition.exists_lies hconfig htext hsheet
    exact ⟨sheet, names, last, (rendered_ok hrendered).1, hlies⟩
  intro file hfile directory hparent second hsecond
  obtain ⟨sheet, names, last, hpath, h⟩ := hlies file hfile
  obtain ⟨sheet', names', last', hpath', h'⟩ := hlies second hsecond
  refine Bool.eq_false_iff.mpr fun hmade => ?_
  have habove := hmakes directory second.path hmade
  rw [hpath] at hparent
  rw [hpath', h'.components, h.components_parent hparent] at habove
  exact h'.not_above h.named ((List.prefix_append_right_inj _).mp habove)

/-- Two runs from one state that decide alike on all files but exempt ones, and leave the same
contents everywhere but at the paths of these. -/
structure Agree (launch other : Launch) (fs : FileSystem σ) (exempt : Rendered → Prop) (s : σ)
    (decisions others : List Decision) : Prop where
  first : launch.Decides fs s decisions (launch.run fs s)
  second : other.Decides fs s others (other.run fs s)
  decided : List.Forall₂ (fun d e => d.file = e.file ∧ (¬ exempt d.file → d.kept = e.kept))
    decisions others
  left : ∀ path,
    (∀ decision ∈ decisions, exempt decision.file → path.same decision.file.path = false) →
      fs.read? (launch.run fs s).2 path = fs.read? (other.run fs s).2 path

/-- The launch with other flags. -/
def flagged (launch : Launch) (implementation metadata : Bool) : Launch :=
  { launch with config :=
    { launch.config with
      overwriteImplementation := implementation
      overwriteMetadata := metadata } }

theorem files_flagged (launch : Launch) (implementation metadata : Bool) :
    (launch.flagged implementation metadata).files = launch.files := rfl

theorem preparing_flagged (launch : Launch) (fs : FileSystem σ) (s : σ)
    (implementation metadata : Bool) :
    (launch.flagged implementation metadata).preparing fs s = launch.preparing fs s := rfl

theorem agree_flagged (hmakes : fs.MakesAbove) (s : σ)
    (hfaults : ∀ n call, launch.faults n call = none) (implementation metadata : Bool)
    (hlifted : ∀ file ∈ launch.files, ¬ exempt file → file.protection.isLifted launch.config =
      file.protection.isLifted (launch.flagged implementation metadata).config) :
    ∃ decisions others,
      Agree launch (launch.flagged implementation metadata) fs exempt s decisions others := by
  have hfirst := launch.decides_of_no_fault fs s hfaults
  have hsecond :=
    (launch.flagged implementation metadata).decides_of_no_fault fs s hfaults
  rw [preparing_flagged, files_flagged] at hsecond
  obtain ⟨hdecided, hnear⟩ := decisions_near (spares_files hmakes launch) hlifted
    (List.Subset.refl _) (.refl (fs.afterAll s (launch.preparing fs s)))
  refine ⟨_, _, hfirst, hsecond, hdecided, fun path hpath => ?_⟩
  rw [hfirst.state, hsecond.state, preparing_flagged, fs.afterAll_append, fs.afterAll_append]
  refine hnear.read? path fun file hfile hexempt => ?_
  rw [← hfirst.files] at hfile
  obtain ⟨decision, hdecision, rfl⟩ := List.mem_map.mp hfile
  exact hpath decision hdecision hexempt

/-! ## One flag -/

/-- Only the bundle descriptor is under the protection of metadata. -/
theorem path_of_metadata {file : Rendered} (h : file ∈ launch.files)
    (hmetadata : file.protection = .metadata) :
    file.path = launch.config.outputPath.join "bnd.bnd" := by
  obtain ⟨definition, sheet, -, hsheet, hrendered⟩ := exists_sheet_of_mem_files h
  obtain ⟨hpath, hprotection⟩ := rendered_ok hrendered
  rw [hpath]
  rw [hmetadata] at hprotection
  rcases Definition.mem_sheets.mp hsheet with
    rfl | rfl | ⟨resource, -, rfl | rfl⟩ | ⟨component, -, rfl⟩ | rfl
  · rfl
  all_goals cases hprotection

/-- Of two runs whose configurations differ in one of the flags, both decide alike on every file
that the flag is not about, and leave the same contents everywhere else. -/
theorem flags_independent (launch : Launch) (hmakes : fs.MakesAbove) (s : σ)
    (hfaults : ∀ n call, launch.faults n call = none) (flag : Bool) :
    (∃ decisions others,
      Agree launch
        { launch with config := { launch.config with overwriteImplementation := flag } } fs
        (fun file => file.protection = .implementation) s decisions others) ∧
      ∃ decisions others,
        Agree launch { launch with config := { launch.config with overwriteMetadata := flag } } fs
          (fun file => file.path = launch.config.outputPath.join "bnd.bnd") s decisions others := by
  constructor
  · refine agree_flagged hmakes s hfaults flag launch.config.overwriteMetadata
      fun file _ hexempt => ?_
    cases hprotection : file.protection with
    | unprotected => rfl
    | implementation => exact absurd hprotection hexempt
    | metadata => rfl
  · refine agree_flagged hmakes s hfaults launch.config.overwriteImplementation flag
      fun file hfile hexempt => ?_
    cases hprotection : file.protection with
    | unprotected => rfl
    | implementation => rfl
    | metadata => exact absurd (path_of_metadata hfile hprotection) hexempt

/-- An implementation that has been edited is kept, or replaced where its protection is lifted. -/
theorem flags_independent_plain :
    let launch := { shop with
      config := plainConfig
      text := "\x7b\"paths\": \x7b\"/p\": \x7b\"get\": \x7b\x7d\x7d\x7d\x7d" }
    let s := Memory.empty.withFile ⟨"out/src/main/java/internal/PResourceImpl.java"⟩ "edited"
    let lifted := { launch with config := { launch.config with overwriteImplementation := true } }
    (launch.run Memory.fileSystem s).1.progress.skipped.map (·.protection) = [.implementation] ∧
      (lifted.run Memory.fileSystem s).1.progress.skipped.map (·.protection) = [] ∧
      ∃ decisions others, Agree launch lifted Memory.fileSystem
        (fun file => file.protection = .implementation) s decisions others := by
  intro launch s lifted
  have hkept : (launch.run Memory.fileSystem s).1.progress.skipped.map (·.protection) =
      [.implementation] := by
    decide +kernel
  have hreplaced : (lifted.run Memory.fileSystem s).1.progress.skipped.map (·.protection) = [] := by
    decide +kernel
  have hagree := (launch.flags_independent Memory.makesAbove s (fun _ _ => rfl) true).1
  exact ⟨hkept, hreplaced, hagree⟩

end Launch

end RestModule
