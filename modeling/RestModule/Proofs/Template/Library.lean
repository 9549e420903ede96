import RestModule.Template.Library

/-!
# Look-ups

A look-up answers with the text that is known for a name, or else with what the directory gives it at
that moment. What is answered does not depend on what has been looked up before
(`Template.Library.answer_loading`). -/

namespace RestModule.Template.Library

/-- The built-in text of a name. -/
def builtinAnswer (name : String) : Except Error String :=
  match builtin? name with
  | some text => .ok text
  | none => .error (.templateMissing name)

/-- The text that a directory gives a name, its own or the built-in one; `look` says what a file
holds. -/
def freshAnswer (look : FilePath → Override) (directory : Option FilePath) (name : String) :
    Except Error String :=
  match directory with
  | none => builtinAnswer name
  | some directory =>
    match look (directory.join name) with
    | .text text => .ok text
    | .unreadable fault => .error (.templateUnreadable (directory.join name) fault)
    | .absent => builtinAnswer name

/-- The text that a library gives a name: the one it knows, or that of its directory. -/
def answer (look : FilePath → Override) (library : Library) (name : String) :
    Except Error String :=
  match library.known.lookup name with
  | some text => .ok text
  | none => freshAnswer look library.directory name

/-- The look-up of a name where `look` says what a file holds. -/
def loading (look : FilePath → Override) (library : Library) (name : String) : Loading :=
  match library.known.lookup name with
  | some text => ⟨.ok text, none, library⟩
  | none =>
    match library.directory with
    | none => library.resolve name none .absent
    | some directory =>
      library.resolve name (some (directory.join name)) (look (directory.join name))

/-- A look-up in a monad that only answers. -/
theorem load_pure {m : Type → Type} [Monad m] [LawfulMonad m] (look : FilePath → Override)
    (library : Library) (name : String) :
    library.load (fun file => (pure (look file) : m Override)) name =
      pure (library.loading look name) := by
  unfold loading load
  cases library.known.lookup name with
  | some text => rfl
  | none =>
    cases library.directory with
    | none => rfl
    | some directory => exact pure_bind (look (directory.join name)) _

/-- The library after the look-up of a name that it did not know. -/
def learn (library : Library) (name : String) : Except Error String → Library
  | .ok text => library.remember name text
  | .error _ => library

private theorem resolve_builtin (library : Library) (name : String) (file : Option FilePath) :
    (library.resolve name file .absent).result = builtinAnswer name ∧
      (library.resolve name file .absent).library = library.learn name (builtinAnswer name) := by
  cases file <;>
  · simp only [resolve, builtinAnswer]
    cases builtin? name with
    | some text => exact ⟨rfl, rfl⟩
    | none => exact ⟨rfl, rfl⟩

theorem loading_of_known (look : FilePath → Override) {library : Library} {name text : String}
    (h : library.known.lookup name = some text) :
    library.loading look name = ⟨.ok text, none, library⟩ := by
  simp only [loading, h]

theorem loading_of_unknown (look : FilePath → Override) {library : Library} {name : String}
    (h : library.known.lookup name = none) :
    (library.loading look name).result = freshAnswer look library.directory name ∧
      (library.loading look name).library =
        library.learn name (freshAnswer look library.directory name) := by
  simp only [loading, freshAnswer, h]
  cases library.directory with
  | none => exact resolve_builtin library name none
  | some directory =>
    dsimp only
    cases look (directory.join name) with
    | text text => exact ⟨rfl, rfl⟩
    | unreadable fault => exact ⟨rfl, rfl⟩
    | absent => exact resolve_builtin library name (some (directory.join name))

theorem result_loading (look : FilePath → Override) (library : Library) (name : String) :
    (library.loading look name).result = library.answer look name := by
  unfold answer
  cases hknown : library.known.lookup name with
  | some text => rw [loading_of_known look hknown]
  | none => exact (loading_of_unknown look hknown).1

theorem directory_loading (look : FilePath → Override) (library : Library) (name : String) :
    (library.loading look name).library.directory = library.directory := by
  cases hknown : library.known.lookup name with
  | some text => rw [loading_of_known look hknown]
  | none =>
    rw [(loading_of_unknown look hknown).2]
    cases freshAnswer look library.directory name <;> rfl

/-- A look-up makes known what it answers, and only that. -/
theorem lookup_loading (look : FilePath → Override) (library : Library) (name other : String) :
    (library.loading look name).library.known.lookup other =
      if other = name then (library.answer look name).toOption
      else library.known.lookup other := by
  unfold answer
  cases hknown : library.known.lookup name with
  | some text =>
    rw [loading_of_known look hknown]
    split
    · next h => rw [h, hknown]; rfl
    · rfl
  | none =>
    rw [(loading_of_unknown look hknown).2]
    cases freshAnswer look library.directory name with
    | error error =>
      split
      · next h => rw [h]; exact hknown
      · rfl
    | ok text =>
      split
      · next h => simp [learn, remember, h, Except.toOption]
      · next h => simp [learn, remember, List.lookup_cons, beq_false_of_ne h]

/-- A look-up that fails leaves the library as it was. -/
theorem library_loading_of_error {look : FilePath → Override} {library : Library} {name : String}
    {error : Error} (h : (library.loading look name).result = .error error) :
    (library.loading look name).library = library := by
  cases hknown : library.known.lookup name with
  | some text => rw [loading_of_known look hknown]
  | none =>
    rw [(loading_of_unknown look hknown).1] at h
    rw [(loading_of_unknown look hknown).2, h]
    rfl

theorem answer_remember {look : FilePath → Override} {library : Library} {name text : String}
    (h : library.answer look name = .ok text) (other : String) :
    (library.remember name text).answer look other = library.answer look other := by
  by_cases hother : other = name
  · subst hother
    rw [h]
    simp [answer, remember]
  · simp [answer, remember, List.lookup_cons, beq_false_of_ne hother]

/-- What a library answers does not depend on what has been looked up in it. -/
theorem answer_loading (look : FilePath → Override) (library : Library) (name other : String) :
    (library.loading look name).library.answer look other = library.answer look other := by
  cases hknown : library.known.lookup name with
  | some text => rw [loading_of_known look hknown]
  | none =>
    rw [(loading_of_unknown look hknown).2]
    cases hfresh : freshAnswer look library.directory name with
    | error error => rfl
    | ok text => exact answer_remember (by rw [answer, hknown, hfresh]) other

end RestModule.Template.Library
