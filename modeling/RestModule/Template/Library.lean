import RestModule.Error
import RestModule.Template.Builtin
import RestModule.Template.Text

/-!
# Template library

Where templates come from: a file of the library's directory if there is one, else the built-in template
of that name. The text of the first successful look-up of a name serves all later ones.
-/

namespace RestModule.Template

/-- What a directory holds under a file name. -/
inductive Override where
  | absent
  | text (text : String)
  | unreadable (fault : Fault)

/-- The templates of a run: the directory whose files override built-in ones, and the texts looked up
so far. -/
structure Library where
  directory : Option FilePath
  known : List (String × String)

/-- The answer to a look-up: the text, the file that was read for it, and the library after it. -/
structure Loading where
  result : Except Error String
  file : Option FilePath
  library : Library

namespace Library

/-- The library of a directory from which nothing has been looked up. -/
def ofDirectory (directory : Option FilePath) : Library := ⟨directory, []⟩

/-- The library after a text has been found for a name. -/
def remember (library : Library) (name text : String) : Library :=
  { library with known := (name, text) :: library.known }

/-- The look-up of a name that is not known yet: `file` is its file in the directory and `found` what
that holds. -/
def resolve (library : Library) (name : String) (file : Option FilePath) (found : Override) :
    Loading :=
  match file, found with
  | some file, .text text => ⟨.ok text, some file, library.remember name text⟩
  | some file, .unreadable fault =>
    ⟨.error (.templateUnreadable file fault), some file, library⟩
  | _, _ =>
    match builtin? name with
    | some text => ⟨.ok text, none, library.remember name text⟩
    | none => ⟨.error (.templateMissing name), none, library⟩

/-- Looks a template up; `look` says what a file holds. -/
def load {m : Type → Type} [Monad m] (look : FilePath → m Override) (library : Library)
    (name : String) : m Loading :=
  match library.known.lookup name with
  | some text => pure ⟨.ok text, none, library⟩
  | none =>
    match library.directory with
    | none => pure (library.resolve name none .absent)
    | some directory => do
      let file := directory.join name
      let found ← look file
      pure (library.resolve name (some file) found)

end Library

end RestModule.Template
