import RestModule.Log.Filter

/-!
# Log settings

The level and format of the log, as the environment states them. A filter in the environment takes
precedence over the level; one that cannot be read counts as absent.
-/

namespace RestModule.Log

/-- How log lines are written. -/
inductive Format where
  | json
  | pretty
  deriving DecidableEq

namespace Format

/-- The format that a text names; `pretty` unless it is `json`. -/
def ofText (text : String) : Format :=
  if Text.lowerText text == "json" then json else pretty

/-- The name of a format. -/
def name : Format → String
  | json => "Json"
  | pretty => "Pretty"

end Format

/-- What the environment says about the log. -/
structure Settings where
  /-- The level as it is written. -/
  levelText : String
  format : Format

namespace Settings

/-- The settings from the values of the variables, if they are set. -/
def ofVariables (level format : Option String) : Settings where
  levelText := level.getD "info"
  format := Format.ofText (format.getD "pretty")

/-- The level that the settings name; `info` unless they name another one. -/
def level (settings : Settings) : Level :=
  (Level.ofText? settings.levelText).getD .info

/-- The rules that decide which events are written; `filter` is the filter of the environment. -/
def rules (settings : Settings) (filter : Option String) : List Rule :=
  (filter.bind filter?).getD [Rule.ofLimit (some settings.level)]

end Settings

end RestModule.Log
