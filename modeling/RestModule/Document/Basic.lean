/-!
# Documents

A document is a tree of values as JSON and YAML have them. A mapping is the list of its entries, since
their order counts.
-/

namespace RestModule

/-- A value of a JSON or YAML document. -/
inductive Document where
  | null
  | bool (value : Bool)
  | int (value : Int)
  | float (value : Float)
  | text (value : String)
  | list (items : List Document)
  | map (entries : List (String × Document))

namespace Document

/-- The value of a key of a mapping; other documents have no keys. -/
def get? (key : String) : Document → Option Document
  | map entries => entries.lookup key
  | _ => none

/-- The text of a text. -/
def text? : Document → Option String
  | text value => some value
  | _ => none

/-- The truth value of a truth value. -/
def bool? : Document → Option Bool
  | bool value => some value
  | _ => none

/-- The entries of a mapping. -/
def entries? : Document → Option (List (String × Document))
  | map entries => some entries
  | _ => none

/-- The text of a key of a mapping, if it is a text. -/
def textAt? (key : String) (document : Document) : Option String :=
  (document.get? key).bind text?

/-- Whether a document is a mapping. -/
def isMap : Document → Bool
  | map _ => true
  | _ => false

mutual

/-- Whether every mapping of a document has distinct keys. -/
def hasDistinctKeys : Document → Bool
  | list items => itemsHaveDistinctKeys items
  | map entries => entriesHaveDistinctKeys entries
  | _ => true

/-- Whether every mapping below a list has distinct keys. -/
def itemsHaveDistinctKeys : List Document → Bool
  | [] => true
  | item :: rest => item.hasDistinctKeys && itemsHaveDistinctKeys rest

/-- Whether a mapping and every mapping below it have distinct keys. -/
def entriesHaveDistinctKeys : List (String × Document) → Bool
  | [] => true
  | (key, value) :: rest =>
    !(rest.any (·.1 == key)) && value.hasDistinctKeys && entriesHaveDistinctKeys rest

end

end Document

end RestModule
