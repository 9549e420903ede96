import RestModule.Text.Case

/-!
# Log levels

How grave an event is, and the limits that admit events. A limit admits the events of its own level and
of the graver ones; no limit at all admits none.
-/

namespace RestModule.Log

/-- How grave an event is. -/
inductive Level where
  | trace
  | debug
  | info
  | warn
  | error
  deriving DecidableEq

namespace Level

/-- Every level. -/
def all : List Level := [trace, debug, info, warn, error]

/-- The name of a level. -/
def name : Level → String
  | trace => "TRACE"
  | debug => "DEBUG"
  | info => "INFO"
  | warn => "WARN"
  | error => "ERROR"

/-- How much a level lets through: the gravest level is let through first. -/
def rank : Level → Nat
  | error => 1
  | warn => 2
  | info => 3
  | debug => 4
  | trace => 5

/-- The level that a text names, whatever its case. -/
def ofText? (text : String) : Option Level :=
  all.find? fun level => Text.lowerText level.name == Text.lowerText text

end Level

/-- The gravity down to which events are let through; none lets no event through. -/
abbrev Limit : Type := Option Level

namespace Limit

/-- Whether a limit admits a level. -/
def admits (limit : Limit) (level : Level) : Bool :=
  limit.any fun l => level.rank ≤ l.rank

/-- The digits of a number, which a plus sign may precede. -/
def number? (text : String) : Option Nat :=
  let digits := match text.toList with
    | '+' :: rest => rest
    | all => all
  if digits.isEmpty || !digits.all Char.isDigit then none
  else some (digits.foldl (fun n d => 10 * n + (d.toNat - '0'.toNat)) 0)

/-- The limit that a text states: a rank, the name of a level, or `off`. -/
def ofText? (text : String) : Option Limit :=
  match number? text with
  | some 0 => some none
  | some n => (Level.all.find? (·.rank == n)).map some
  | none =>
    if Text.asciiLower text == "off" then some none
    else (Level.all.find? fun level => Text.asciiLower level.name == Text.asciiLower text).map some

end Limit

end RestModule.Log
