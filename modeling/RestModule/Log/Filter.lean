import RestModule.Log.Level
import RestModule.Text.Blank
import RestModule.Text.Split

/-!
# Log filters

A filter is a list of rules between commas: `level`, `target`, `target=level`, and rules for spans such as
`target[span\x7bfield\x7d]=level`. The most specific rule that fits an event decides whether it passes.
Events here stand in no span, so rules that name a span or the value of a field never fit.
-/

namespace RestModule.Log

/-- A rule of a filter. -/
structure Rule where
  /-- What the target of an event has to begin with. -/
  target : Option String
  /-- The span the event has to stand in. -/
  span : Option String
  /-- The fields the event must have, and whether the rule asks for a value. -/
  fields : List (String × Bool)
  limit : Limit

namespace Rule

/-- A rule that holds for every event. -/
def ofLimit (limit : Limit) : Rule := ⟨none, none, [], limit⟩

/-- The part of a text between two positions. -/
def slice (text : List Char) (first last : Nat) : String :=
  .ofList ((text.drop first).take (last - first))

/-- The first position from `first` on at which a character satisfies `p`. -/
def positionFrom? (p : Char → Bool) (text : List Char) (first : Nat) : Option Nat :=
  ((text.drop first).findIdx? p).map (· + first)

/-- A character with which the target of a rule begins. -/
def isTargetStart (c : Char) : Bool :=
  c.isAlphanum || c == '-' || c == ':' || c == '_' || 128 ≤ c.toNat

/-- The limit of a rule from a position on; an empty text admits every level. -/
def limitFrom (text : List Char) (first : Nat) : Option Limit :=
  match text.drop first with
  | [] => some (some .trace)
  | rest => Limit.ofText? (.ofList rest)

/-- A rule continued after the bracket that ends its span. -/
def afterSpan (text bare : List Char) (rule : Rule) (next : Nat) : Option Rule :=
  match bare[next]? with
  | none => some rule
  | some '=' => (limitFrom text (next + 1)).map fun limit => { rule with limit }
  | some _ => none

/-- A field that a rule asks for. -/
def fieldOf (text : String) : String × Bool :=
  match Text.cutAt? '=' text.toList with
  | some (name, _) => (.ofList name, true)
  | none => (text, false)

/-- A rule continued after the bracket that starts its span. -/
def inSpan (text bare : List Char) (rule : Rule) (first : Nat) : Option Rule := do
  let stop ← positionFrom? (fun c => c == ']' || c == '\x7b') bare first
  let span := slice text first stop
  if bare[stop]? == some ']' then afterSpan text bare { rule with span } (stop + 1)
  else
    let rule := { rule with span := if span.isEmpty then none else some span }
    let close ← positionFrom? (· == '\x7d') bare (stop + 1)
    let field := slice text (stop + 1) close
    if field.isEmpty || bare[close + 1]? != some ']' then none
    else afterSpan text bare { rule with fields := [fieldOf field] } (close + 2)

/-- A rule that is a single word: a level, else a target. -/
def ofWord (word : String) : Rule :=
  match Limit.ofText? word with
  | some limit => ofLimit limit
  | none => { ofLimit (some .trace) with target := word }

/-- The rule that a text states. Its delimiters are looked for in the text without the blanks around
it, but its parts are cut out of the text as it is. -/
def ofText? (text : String) : Option Rule :=
  let whole := text.toList
  let bare := Text.dropEnds Text.isBlank whole
  let rule := ofLimit (some .trace)
  match bare with
  | [] => none
  | '[' :: _ => inSpan whole bare rule 1
  | c :: _ =>
    if !isTargetStart c then none
    else
      match positionFrom? (fun c => c == '=' || c == '[') bare 1 with
      | none => some (ofWord text)
      | some stop =>
        let rule := { rule with target := slice whole 0 stop }
        if bare[stop]? == some '=' then
          (limitFrom whole (stop + 1)).map fun limit => { rule with limit }
        else inSpan whole bare rule (stop + 1)

/-- Whether a rule can fit events that stand in no span. -/
def isStatic (rule : Rule) : Bool :=
  rule.span.isNone && !rule.fields.any (·.2)

/-- Whether a rule fits an event of a target with the given fields. -/
def fits (rule : Rule) (target : String) (fields : List String) : Bool :=
  rule.isStatic && rule.target.all (fun start => (Text.after? start target).isSome)
    && rule.fields.all fun (name, _) => name ∈ fields

/-- How specific a rule is: the size of its target counts first, then the number of its fields. -/
def weight (rule : Rule) : Nat × Nat :=
  ((rule.target.map fun target => target.utf8ByteSize + 1).getD 0, rule.fields.length)

/-- Whether the left rule is preferred to the right one, which stands after it. -/
def isPreferred (left right : Rule) : Bool :=
  let (l, r) := (left.weight, right.weight)
  r.1 < l.1 || (r.1 == l.1 && r.2 < l.2)

/-- The preferred one of the rules; of equally specific rules the last one. -/
def strongest? : List Rule → Option Rule
  | [] => none
  | rule :: rest =>
    match strongest? rest with
    | none => some rule
    | some other => some (if rule.isPreferred other then rule else other)

end Rule

/-- The rules that a text states between commas; a text without rules lets errors through. -/
def filter? (text : String) : Option (List Rule) :=
  match ((Text.splitAt ',' text).filter (!·.isEmpty)).mapM Rule.ofText? with
  | some [] => some [Rule.ofLimit (some .error)]
  | rules => rules

/-- Whether rules let an event through: its level, its target and its fields. -/
def passes (rules : List Rule) (level : Level) (target : String) (fields : List String) : Bool :=
  match Rule.strongest? (rules.filter (·.fits target fields)) with
  | some rule => rule.limit.admits level
  | none => false

end RestModule.Log
