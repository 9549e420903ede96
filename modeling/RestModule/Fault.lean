/-!
# Faults of the file system

The reasons for which reading or writing a file fails, with the texts the system gives them.
-/

namespace RestModule

/-- Why a call to the file system failed. -/
inductive Fault where
  | notFound
  | alreadyExists
  | notDirectory
  | isDirectory
  | nameTooLong
  | strayNul
  | notText
  | readOnly
  | system (text : String)
  deriving DecidableEq

/-- The system's text for a fault. -/
def Fault.message : Fault → String
  | notFound => "No such file or directory (os error 2)"
  | alreadyExists => "File exists (os error 17)"
  | notDirectory => "Not a directory (os error 20)"
  | isDirectory => "Is a directory (os error 21)"
  | nameTooLong => "File name too long (os error 36)"
  | strayNul => "file name contained an unexpected NUL byte"
  | notText => "stream did not contain valid UTF-8"
  | readOnly => "read-only"
  | system text => text

end RestModule
