import RestModule.Proofs.FilePath
import RestModule.Run.Event
import RestModule.Store.Memory

/-!
# File systems

A file system is given by what its states answer and by what each call that succeeds does to them.
As a store it answers questions from its state, and a schedule says which of the calls fail; a call
that fails leaves the state as it is. Files in memory are a file system (`Memory.fileSystem`). -/

namespace RestModule

/-- States that hold files and directories, and what calls do to them. Paths that are the same stand
for one file or directory. -/
structure FileSystem (σ : Type) where
  /-- The contents of a file. -/
  read? : σ → FilePath → Option String
  /-- Whether a path is that of a file or directory. -/
  has : σ → FilePath → Bool
  /-- The state after a call that succeeds. -/
  after : σ → Call → σ
  /-- Whether creating a directory makes a path exist: its own, or also those above it. -/
  makes : FilePath → FilePath → Bool
  has_of_read? : ∀ {s path contents}, read? s path = some contents → has s path = true
  read?_same : ∀ {s left right}, left.same right = true → read? s left = read? s right
  has_same : ∀ {s left right}, left.same right = true → has s left = has s right
  makes_self : ∀ directory, makes directory directory = true
  read?_createDirectory : ∀ s directory path,
    read? (after s (.createDirectory directory)) path = read? s path
  has_createDirectory : ∀ s directory path,
    has (after s (.createDirectory directory)) path = (has s path || makes directory path)
  read?_write : ∀ s file contents path,
    read? (after s (.write file contents)) path =
      if path.same file then some contents else read? s path
  has_write : ∀ s file contents path,
    has (after s (.write file contents)) path = (has s path || path.same file)

namespace FileSystem

variable {σ : Type} (fs : FileSystem σ)

/-- The state after calls that succeed. -/
def afterAll (s : σ) (calls : List Call) : σ :=
  calls.foldl fs.after s

@[simp]
theorem afterAll_nil (s : σ) : fs.afterAll s [] = s := rfl

@[simp]
theorem afterAll_cons (s : σ) (call : Call) (calls : List Call) :
    fs.afterAll s (call :: calls) = fs.afterAll (fs.after s call) calls := rfl

theorem afterAll_append (s : σ) (first second : List Call) :
    fs.afterAll s (first ++ second) = fs.afterAll (fs.afterAll s first) second :=
  List.foldl_append ..

/-- The answer to a call. The state has the number of the call beside it, and `faults` says with
which fault a call of that number fails. -/
def respond (faults : Nat → Call → Option Fault) (call : Call) :
    StateM (σ × Nat) (Except Fault Unit) :=
  fun (s, n) =>
    match faults n call with
    | some fault => (.error fault, (s, n + 1))
    | none => (.ok (), (fs.after s call, n + 1))

/-- A file system as a store. What overrides templates stands apart from it. -/
def store (look : FilePath → Template.Override) (faults : Nat → Call → Option Fault) :
    Store (StateM (σ × Nat)) where
  has path := return fs.has (← get).1 path
  createDirectory path := fs.respond faults (.createDirectory path)
  write path contents := fs.respond faults (.write path contents)
  look path := return look path

/-- A file that no call writes keeps its contents. -/
theorem read?_afterAll {path : FilePath} {calls : List Call}
    (h : ∀ file contents, .write file contents ∈ calls → path.same file = false) (s : σ) :
    fs.read? (fs.afterAll s calls) path = fs.read? s path := by
  induction calls generalizing s with
  | nil => rfl
  | cons call rest ih =>
    rw [afterAll_cons, ih fun file contents hmem => h file contents (List.mem_cons_of_mem _ hmem)]
    cases call with
    | createDirectory directory => exact fs.read?_createDirectory s directory path
    | write file contents =>
      rw [fs.read?_write, h file contents List.mem_cons_self]
      simp

/-- A file that calls write holds what one of them wrote. -/
theorem exists_read?_afterAll {path : FilePath} {calls : List Call}
    (h : ∃ file contents, .write file contents ∈ calls ∧ path.same file = true) (s : σ) :
    ∃ file contents, .write file contents ∈ calls ∧ path.same file = true ∧
      fs.read? (fs.afterAll s calls) path = some contents := by
  induction calls generalizing s with
  | nil =>
    obtain ⟨file, contents, hmem, -⟩ := h
    cases hmem
  | cons call rest ih =>
    by_cases hrest : ∃ file contents, .write file contents ∈ rest ∧ path.same file = true
    · obtain ⟨file, contents, hmem, hsame, hread⟩ := ih hrest (fs.after s call)
      exact ⟨file, contents, List.mem_cons_of_mem _ hmem, hsame, hread⟩
    · obtain ⟨file, contents, hmem, hsame⟩ := h
      have hother : ∀ file contents, .write file contents ∈ rest → path.same file = false := by
        intro file contents hmem
        exact Bool.eq_false_iff.mpr fun hsame => hrest ⟨file, contents, hmem, hsame⟩
      rcases List.mem_cons.mp hmem with rfl | hmem
      · refine ⟨file, contents, List.mem_cons_self, hsame, ?_⟩
        rw [afterAll_cons, fs.read?_afterAll hother, fs.read?_write, if_pos hsame]
      · exact absurd ⟨file, contents, hmem, hsame⟩ hrest

end FileSystem

/-! ## Calls that may fail -/

/-- What became of calls made one after another until one failed. -/
structure Attempt where
  /-- The calls that took effect. -/
  done : List Call
  /-- The call that failed, with its fault. -/
  failed : Option (Call × Fault)

namespace Attempt

/-- The calls that were made, the failed one included. -/
def made (attempt : Attempt) : List Call :=
  attempt.done ++ (attempt.failed.map (·.1)).toList

/-- Calls made by a schedule of faults; `n` is the number of the first one. -/
def ofCalls (faults : Nat → Call → Option Fault) : Nat → List Call → Attempt
  | _, [] => ⟨[], none⟩
  | n, call :: rest =>
    match faults n call with
    | some fault => ⟨[], some (call, fault)⟩
    | none =>
      { ofCalls faults (n + 1) rest with done := call :: (ofCalls faults (n + 1) rest).done }

variable {faults : Nat → Call → Option Fault}

theorem ofCalls_done_initial (n : Nat) (calls : List Call) :
    (ofCalls faults n calls).done <+: calls := by
  induction calls generalizing n with
  | nil => exact List.prefix_rfl
  | cons call rest ih =>
    unfold ofCalls
    split
    · exact List.nil_prefix
    · exact List.cons_prefix_cons.mpr ⟨rfl, ih (n + 1)⟩

theorem ofCalls_done_of_failed_eq_none {n : Nat} {calls : List Call}
    (h : (ofCalls faults n calls).failed = none) : (ofCalls faults n calls).done = calls := by
  induction calls generalizing n with
  | nil => rfl
  | cons call rest ih =>
    unfold ofCalls at h ⊢
    split at h
    · cases h
    · exact congrArg _ (ih h)

theorem ofCalls_made_of_failed_eq_none {n : Nat} {calls : List Call}
    (h : (ofCalls faults n calls).failed = none) : (ofCalls faults n calls).made = calls := by
  rw [made, h, ofCalls_done_of_failed_eq_none h]
  simp

/-- Without faults every call takes effect. -/
theorem ofCalls_of_no_fault (h : ∀ n call, faults n call = none) (n : Nat) (calls : List Call) :
    ofCalls faults n calls = ⟨calls, none⟩ := by
  induction calls generalizing n with
  | nil => rfl
  | cons call rest ih => simp only [ofCalls, h, ih]

theorem ofCalls_append_of_failed {n : Nat} {first : List Call}
    (h : (ofCalls faults n first).failed ≠ none) (second : List Call) :
    ofCalls faults n (first ++ second) = ofCalls faults n first := by
  induction first generalizing n with
  | nil => exact absurd rfl h
  | cons call rest ih =>
    rw [List.cons_append]
    unfold ofCalls at h ⊢
    split
    · rfl
    · next hfault =>
      simp only [hfault] at h
      rw [ih h]

theorem ofCalls_append_of_done {n : Nat} {first : List Call}
    (h : (ofCalls faults n first).failed = none) (second : List Call) :
    ofCalls faults n (first ++ second) =
      { ofCalls faults (n + first.length) second with
        done := first ++ (ofCalls faults (n + first.length) second).done } := by
  induction first generalizing n with
  | nil => rfl
  | cons call rest ih =>
    rw [List.cons_append]
    unfold ofCalls at h
    split at h
    · cases h
    · next hfault =>
      have hlength : n + (call :: rest).length = n + 1 + rest.length := by
        rw [List.length_cons]
        omega
      rw [ofCalls, hlength]
      simp only [hfault, ih h, List.cons_append]

end Attempt

/-! ## Files in memory -/

namespace Memory

theorem lookup_put (name contents key : String) (files : List (String × String)) :
    (put name contents files).lookup key =
      if key == name then some contents else files.lookup key := by
  induction files with
  | nil => by_cases hkey : key = name <;> simp [put, List.lookup_cons, beq_false_of_ne, hkey]
  | cons file rest ih =>
    obtain ⟨other, old⟩ := file
    by_cases hother : other = name
    · subst hother
      simp only [put, beq_self_eq_true, if_true, List.lookup_cons]
      cases hkey : key == other <;> simp
    · simp only [put, beq_iff_eq, hother, if_false, List.lookup_cons]
      by_cases hkey : key = other
      · subst hkey
        simp [hother]
      · simp [beq_false_of_ne hkey, ih]

theorem has_iff {memory : Memory} {path : FilePath} :
    memory.has path = true ↔
      (memory.read? path).isSome = true ∨ path.normal.text ∈ memory.directories := by
  simp [has]

private theorem read?_normal {memory : Memory} {left right : FilePath}
    (h : left.same right = true) : memory.read? left = memory.read? right := by
  rw [read?, read?, FilePath.same_iff_normal.mp h]

/-- Files in memory as a file system. Creating a directory makes that one alone exist. -/
def fileSystem : FileSystem Memory where
  read? := read?
  has := has
  after memory
    | .createDirectory path => memory.withDirectory path
    | .write path contents => memory.withFile path contents
  makes directory path := path.same directory
  has_of_read? h := by simp [has, h]
  read?_same := read?_normal
  has_same h := by rw [has, has, read?_normal h, FilePath.same_iff_normal.mp h]
  makes_self directory := directory.same_self
  read?_createDirectory memory directory path := rfl
  has_createDirectory memory directory path := by
    rw [Bool.eq_iff_iff, Bool.or_eq_true, has_iff, has_iff, FilePath.same_iff_normal, or_assoc]
    exact or_congr_right mem_addName
  read?_write memory file contents path := by
    simp only [read?, withFile, lookup_put, beq_iff_eq, FilePath.same_iff_normal]
  has_write memory file contents path := by
    rw [Bool.eq_iff_iff, Bool.or_eq_true, has_iff, has_iff, FilePath.same_iff_normal]
    simp only [read?, withFile, lookup_put, beq_iff_eq]
    by_cases h : path.normal.text = file.normal.text <;> simp [h]

end Memory

end RestModule
