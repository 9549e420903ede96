import RestModule.Run.Generate
import RestModule.Store.Recording

/-!
# Summaries

What a user is told: the outcome of a run, what a run would do, and what a description declares.
-/

namespace RestModule

namespace Report

/-- The line about a file that was left as it is. -/
def skippedLine (kept : Kept) : String :=
  "⚠️  Skipped " ++ kept.path.text ++ " (exists; set "
    ++ (kept.protection.key?.map Config.Key.text).getD "an overwrite flag" ++ " to overwrite)"

/-- The summary of a run that wrote to a directory. -/
def summary (report : Report) (output : FilePath) : String :=
  Text.ofLines
    (report.skipped.map skippedLine
      ++ report.unreachable.map
        (fun component => "ℹ️  Component " ++ component ++ " is not reachable from any path")
      ++ ["✅ Generated module at " ++ output.text ++ ": " ++ Nat.repr report.written.length
        ++ " written, " ++ Nat.repr report.skipped.length ++ " skipped"])

/-- The summary of a run that was only recorded. -/
def preview (report : Report) (recording : Recording) : String :=
  Text.ofLines
    (recording.directories.map (fun path => "📁 would create " ++ path.text)
      ++ report.written.map (fun path => "📝 would write  " ++ path.text)
      ++ report.skipped.map (fun kept => "⏭️  would skip   " ++ kept.path.text)
      ++ ["🔍 Dry run: " ++ Nat.repr report.written.length ++ " files would be written, "
        ++ Nat.repr report.skipped.length ++ " skipped"])

end Report

/-- The line about a method. -/
def Method.summary (method : Method) : String :=
  "    " ++ method.verb.name ++ " " ++ method.relativePath ++ " -> " ++ method.name ++ " "
    ++ method.returnType

/-- The lines about a resource. -/
def Resource.summary (resource : Resource) : List String :=
  ["  " ++ resource.name] ++ resource.methods.map (·.summary)
    ++ ["    models: [" ++ String.intercalate ", " resource.models ++ "]"]

/-- The line about a property. -/
def Property.summary (property : Property) : String :=
  "    " ++ property.name ++ ": " ++ property.type.summary ++ " -> " ++ property.javaType

/-- The lines about a component. -/
def Component.summary (component : Component) : List String :=
  ("  " ++ component.name ++ if component.isParameter then " (parameter)" else "")
    :: component.properties.map (·.summary)

/-- What a description declares. -/
def Definition.summary (definition : Definition) : String :=
  Text.ofLines
    (["version: " ++ definition.version, "paths:"]
      ++ definition.resources.flatMap (·.summary)
      ++ ["components:"] ++ definition.components.flatMap (·.summary))

end RestModule
