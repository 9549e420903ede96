import RestModule.Json.Reader
import RestModule.Yaml.Reader
import RestModule.Text.Blank

/-!
# Reading a document

A text whose first visible character is an opening brace is JSON; any other text is YAML.
-/

namespace RestModule.Document

/-- Whether a text is taken as JSON. -/
def isJson (text : String) : Bool :=
  Text.firstVisible? text == some '\x7b'

/-- The document of a text, or the first offence in it. -/
def parse (text : String) : Except Error Document :=
  (if isJson text then Json.read text else Yaml.read text).document

end RestModule.Document
