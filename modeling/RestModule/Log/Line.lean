import RestModule.Json.Text
import RestModule.Log.Filter
import RestModule.Log.Settings
import RestModule.Run.Event

/-!
# Log lines

How the events of a run look in a log: level, message, the part of the program they come from, and their
fields in a fixed order.
-/

namespace RestModule

namespace Log

/-- The value of a field. -/
inductive Value where
  /-- A text that is shown as it is. -/
  | shown (text : String)
  /-- A name that is shown between quotes. -/
  | quoted (name : String)
  | count (n : Nat)

namespace Value

/-- The plain text of a value. -/
def text : Value → String
  | shown text => text
  | quoted name => name
  | count n => Nat.repr n

/-- The value as JSON. -/
def json : Value → List Char
  | count n => (Nat.repr n).toList
  | value => Json.writeText value.text

/-- The value as a line shows it. -/
def display : Value → String
  | quoted name => "\"" ++ name ++ "\""
  | value => value.text

end Value

end Log

namespace Event

open Log

/-- How grave an event is. -/
def level : Event → Level
  | entered .. | imported .. | overridden .. => .debug
  | createdDirectory _ | wrote _ | completed .. => .info
  | renamed _ | kept .. | unreachable _ => .warn
  | stopped .. => .error

/-- The message of an event. -/
def message : Event → String
  | entered .. => "Stage transition"
  | renamed _ => "Duplicate method name"
  | imported .. => "Imported spec"
  | overridden .. => "Loading template override"
  | createdDirectory _ => "Created directory"
  | kept .. => "File exists and is not regenerated; enable the overwrite flag to replace it"
  | wrote _ => "Wrote"
  | unreachable _ => "Component is not reachable from any path"
  | completed .. => "Generation complete"
  | stopped .. => "Generation aborted"

/-- The part of the program that an event comes from. -/
def target : Event → String
  | renamed _ => "restmodgen::naming"
  | imported .. => "restmodgen::spec::load"
  | overridden .. => "restmodgen::generator::templates"
  | kept .. | wrote _ => "restmodgen::generator::output"
  | entered .. | createdDirectory _ | unreachable _ | completed .. | stopped .. =>
    "restmodgen::generator::project"

/-- The fields of an event, in order. -/
def fields : Event → List (String × Value)
  | entered before after => [("from", .shown before.name), ("to", .shown after.name)]
  | renamed change => [("method", .quoted change.method), ("renamed", .shown change.renamed)]
  | imported version resources components =>
    [("version", .shown version), ("paths", .count resources), ("components", .count components)]
  | overridden template file => [("template", .quoted template), ("path", .shown file.text)]
  | createdDirectory path => [("dir", .shown path.text)]
  | kept path protection =>
    [("file", .shown path.text),
      ("flag", .quoted ((protection.key?.map Config.Key.text).getD ""))]
  | wrote path => [("file", .shown path.text)]
  | unreachable component => [("component", .shown component)]
  | completed written skipped => [("written", .count written), ("skipped", .count skipped)]
  | stopped stage error => [("stage", .shown stage.name), ("error", .shown error.message)]

/-- Whether the rules of a filter let an event through. -/
def passes (rules : List Rule) (event : Event) : Bool :=
  Log.passes rules event.level event.target ("message" :: event.fields.map (·.1))

/-- An event as a line of text; levels are padded to one width. -/
def line (event : Event) : String :=
  let name := event.level.name
  String.ofList (List.replicate (5 - name.length) ' ') ++ name ++ " " ++ event.message
    ++ String.join (event.fields.map fun (name, value) => " " ++ name ++ "=" ++ value.display)

/-- The pairs of a JSON object. -/
def jsonObject (pairs : List (String × List Char)) : List Char :=
  '\x7b' :: [','].intercalate (pairs.map fun (key, value) => Json.writeText key ++ ':' :: value)
    ++ ['\x7d']

/-- An event as a line of JSON. -/
def json (event : Event) : String :=
  let fields :=
    ("message", Json.writeText event.message)
      :: event.fields.map fun (name, value) => (name, value.json)
  .ofList (jsonObject [("level", Json.writeText event.level.name), ("fields", jsonObject fields),
    ("target", Json.writeText event.target)])

/-- The text of an event in a format. -/
def written (event : Event) : Format → String
  | .json => event.json
  | .pretty => event.line

end Event

/-- What a log shows of a journal: the events that pass its rules. -/
def Log.linesOf (format : Log.Format) (rules : List Log.Rule) (journal : List Entry) :
    List String :=
  ((Entry.events journal).filter (·.passes rules)).map (·.written format)

end RestModule
