import RestModule.CommandLine.Arguments
import RestModule.CommandLine.Run
import RestModule.Log.Line

/-!
# The program

Reads its arguments and the environment, runs the command on the files of the machine, and prints what
comes of it.
-/

namespace RestModule.Machine

/-- The fault of a failed call. -/
def faultOf : IO.Error → Fault
  | .noFileOrDirectory .. => .notFound
  | .alreadyExists .. => .alreadyExists
  | .inappropriateType _ 20 _ => .notDirectory
  | .inappropriateType _ 21 _ => .isDirectory
  | error => .system (toString error)

/-- The result of a call. -/
def attempt {α : Type} (act : IO α) : BaseIO (Except Fault α) := do
  match ← act.toBaseIO with
  | .ok a => return .ok a
  | .error error => return .error (faultOf error)

/-- Whether a path leads to a file or directory. -/
def has (path : FilePath) : BaseIO Bool := do
  match ← (IO.FS.Handle.mk path.text .read).toBaseIO with
  | .ok _ => return true
  | .error (.permissionDenied ..) => return true
  | .error _ => return false

/-- The text of a file. -/
def readText (path : FilePath) : BaseIO (Except Fault String) := do
  match ← attempt (IO.FS.readBinFile path.text) with
  | .error fault => return .error fault
  | .ok bytes =>
    match String.fromUTF8? bytes with
    | some text => return .ok text
    | none => return .error .notText

/-- What a path holds as the override of a template. -/
def look (path : FilePath) : BaseIO Template.Override := do
  match ← readText path with
  | .ok text => return .text text
  | .error .notFound | .error .notDirectory | .error .isDirectory => return .absent
  | .error fault => return .unreadable fault

/-- The machine that the program runs on. -/
def host : CommandLine.Host BaseIO where
  store :=
    { has
      createDirectory := fun path =>
        if path.text.isEmpty then return .ok () else attempt (IO.FS.createDirAll path.text)
      write := fun path contents => attempt (IO.FS.writeFile path.text contents)
      look }
  readText

/-- Prints the events of a journal that the log lets through. -/
def printLog (verbose : Bool) (journal : List Entry) : IO Unit := do
  let level ← IO.getEnv "RESTMODGEN_LOG_LEVEL"
  let format ← IO.getEnv "RESTMODGEN_LOG_FORMAT"
  let filter ← IO.getEnv "RUST_LOG"
  let settings := Log.Settings.ofVariables (if verbose then some "debug" else level) format
  for line in Log.linesOf settings.format (settings.rules filter) journal do
    IO.eprintln line

/-- Runs the command of the arguments; the answer is the exit code. -/
def execute (arguments : List String) : IO UInt32 := do
  match CommandLine.read (← IO.getEnv "RESTMODGEN_TEMPLATE_DIR") arguments with
  | .error usage =>
    if usage.code == 0 then IO.print usage.text else IO.eprint usage.text
    return usage.code.toUInt32
  | .ok invocation =>
    let answer ← (CommandLine.run host invocation.command : BaseIO CommandLine.Answer)
    printLog invocation.verbose answer.journal
    match answer.result with
    | .ok text =>
      IO.print text
      return 0
    | .error causes =>
      IO.eprintln ("❌ " ++ String.intercalate ": " causes)
      return 1

end RestModule.Machine

/-- The program. -/
def main (arguments : List String) : IO UInt32 :=
  RestModule.Machine.execute arguments
