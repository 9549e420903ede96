import RestModule.Config.Basic
import RestModule.Template.Library

/-!
# Sheets

A sheet says how a file of the generated module is made: the template, the values of its placeholders,
where the file goes, and whether it may be replaced there. Sheets depend on the definition and the
configuration alone.
-/

namespace RestModule

/-- What keeps an existing file from being replaced. -/
inductive Protection where
  /-- Nothing: the file is written by every run. -/
  | unprotected
  /-- The file is a resource implementation, which is edited by hand. -/
  | implementation
  /-- The file is the bundle descriptor. -/
  | metadata
  deriving DecidableEq

namespace Protection

/-- The configuration key that lifts a protection. -/
def key? : Protection → Option Config.Key
  | unprotected => none
  | implementation => some .overwriteImplementation
  | metadata => some .overwriteMetadata

/-- Whether a configuration lets an existing file be replaced. -/
def isLifted (config : Config) : Protection → Bool
  | unprotected => true
  | implementation => config.overwriteImplementation
  | metadata => config.overwriteMetadata

end Protection

/-- A file with its contents. -/
structure Rendered where
  path : FilePath
  contents : String
  protection : Protection
  deriving DecidableEq

/-- How a file is made. -/
structure Sheet where
  path : FilePath
  protection : Protection
  /-- File name of the template. -/
  template : String
  values : List (String × String)
  /-- Placeholders that stand for the text of another template, with its file name. -/
  insertions : List (String × String)

namespace Sheet

/-- The templates that a sheet looks up, in order. -/
def templates (sheet : Sheet) : List String :=
  sheet.insertions.map (·.2) ++ [sheet.template]

/-- The file of a sheet, given the texts that are inserted and the text of its template. -/
def filled (sheet : Sheet) (inserted : List (String × String)) (text : String) : Rendered where
  path := sheet.path
  contents := Template.render text (inserted ++ sheet.values)
  protection := sheet.protection

/-- The file of a sheet; `lookUp` finds the text of a template. -/
def render {m : Type → Type} [Monad m] (lookUp : String → m String) (sheet : Sheet) :
    m Rendered := do
  let inserted ← sheet.insertions.mapM fun (name, template) =>
    return (name, ← lookUp template)
  let text ← lookUp sheet.template
  return sheet.filled inserted text

end Sheet

end RestModule
