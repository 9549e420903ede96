/-!
# Lines

Texts made of lines.
-/

namespace RestModule.Text

/-- Lines, each with a line break after it. -/
def ofLines (lines : List String) : String :=
  String.join (lines.map (· ++ "\n"))

/-- Lines with line breaks between them. -/
def joinLines (lines : List String) : String :=
  String.intercalate "\n" lines

end RestModule.Text
