import RestModule.Proofs.Document.Offence
import RestModule.Proofs.Json.Number
import RestModule.Proofs.Json.Text
import RestModule.Spec.Import

/-!
# A document is read from its JSON text

A layout says what white space a JSON text has, and `Json.write` is the text of a document in a layout.
The tree of a portable document has no offence and stands for the document itself
(`Document.Portable.unambiguous_node`, `Document.plain_node`). -/

namespace RestModule

namespace Json

/-- The white space of a JSON text: what comes before an item, an entry or a closing bracket at a level
of nesting, and what comes after a colon. -/
structure Layout where
  line : Nat → List Char
  gap : List Char
  isSpace_of_mem_line : ∀ level, ∀ c ∈ line level, isSpace c = true
  isSpace_of_mem_gap : ∀ c ∈ gap, isSpace c = true

/-- A text on one line, without spaces. -/
def Layout.compact : Layout where
  line _ := []
  gap := []
  isSpace_of_mem_line := by simp
  isSpace_of_mem_gap := by simp

/-- One line for each item and entry, indented by two spaces a level. -/
def Layout.pretty : Layout where
  line level := '\n' :: List.replicate (2 * level) ' '
  gap := [' ']
  isSpace_of_mem_line level c h := by
    obtain rfl | h := List.mem_cons.mp h
    · rfl
    · rw [List.eq_of_mem_replicate h]
      rfl
  isSpace_of_mem_gap := by simp [isSpace]

/-- The white space before a closing bracket, none between two brackets. -/
def Layout.closing (layout : Layout) (level : Nat) (first : Bool) : List Char :=
  if first then [] else layout.line level

theorem Layout.isSpace_of_mem_closing (layout : Layout) (level : Nat) (first : Bool) :
    ∀ c ∈ layout.closing level first, isSpace c = true := by
  cases first with
  | true => exact List.forall_mem_nil _
  | false => exact layout.isSpace_of_mem_line level

/-- The comma between an item or entry and the one before it. -/
def comma (first : Bool) : List Char :=
  if first then [] else [',']

mutual

/-- The JSON text of a document at a level of nesting. -/
def write (layout : Layout) (level : Nat) : Document → List Char
  | .null => "null".toList
  | .bool value => (if value then "true" else "false").toList
  | .int value => (toString value).toList
  | .float value => (Decimal.numberText value).toList
  | .text value => writeText value
  | .list items => '[' :: writeItems layout level true items
  | .map entries => '\x7b' :: writeEntries layout level true entries

/-- The text of the items of a list that are left, and its closing bracket. -/
def writeItems (layout : Layout) (level : Nat) (first : Bool) : List Document → List Char
  | [] => layout.closing level first ++ [']']
  | item :: rest =>
    comma first ++ layout.line (level + 1) ++ write layout (level + 1) item ++
      writeItems layout level false rest

/-- The text of the entries of a mapping that are left, and its closing brace. -/
def writeEntries (layout : Layout) (level : Nat) (first : Bool) :
    List (String × Document) → List Char
  | [] => layout.closing level first ++ ['\x7d']
  | (key, value) :: rest =>
    comma first ++ layout.line (level + 1) ++ writeText key ++ ':' :: layout.gap ++
      write layout (level + 1) value ++ writeEntries layout level false rest

end

end Json

namespace Document

/-- A document of values that JSON texts carry without loss, nested at most so deep. -/
inductive Portable : Nat → Document → Prop where
  | null {depth : Nat} : Portable depth .null
  | bool {depth : Nat} (value : Bool) : Portable depth (.bool value)
  | int {depth : Nat} {value : Int} (hvalue : Json.Fits value) : Portable depth (.int value)
  | text {depth : Nat} (value : String) : Portable depth (.text value)
  | list {depth : Nat} {items : List Document} (hitems : ∀ item ∈ items, Portable depth item) :
      Portable (depth + 1) (.list items)
  | map {depth : Nat} {entries : List (String × Document)} (hkeys : (entries.map (·.1)).Nodup)
      (hvalues : ∀ entry ∈ entries, Portable depth entry.2) :
      Portable (depth + 1) (.map entries)

mutual

/-- The tree of a document, with texts as keys. -/
def node : Document → Node
  | .null => .null
  | .bool value => .bool value
  | .int value => .int value
  | .float value => .float value
  | .text value => .text value
  | .list items => .list (itemNodes items)
  | .map entries => .map (entryNodes entries)

/-- The trees of items. -/
def itemNodes : List Document → List Node
  | [] => []
  | item :: rest => node item :: itemNodes rest

/-- The trees of values, under their keys. -/
def entryNodes : List (String × Document) → List (Key × Node)
  | [] => []
  | (key, value) :: rest => (.text key, node value) :: entryNodes rest

end

/-! ## The tree of a document -/

mutual

theorem plain_node : ∀ document : Document, document.node.plain = document
  | .null | .bool _ | .int _ | .float _ | .text _ => rfl
  | .list items => congrArg Document.list (plainItems_itemNodes items)
  | .map entries => congrArg Document.map (plainEntries_entryNodes entries)

theorem plainItems_itemNodes : ∀ items : List Document, Node.plainItems (itemNodes items) = items
  | [] => rfl
  | item :: rest => congrArg₂ List.cons (plain_node item) (plainItems_itemNodes rest)

theorem plainEntries_entryNodes :
    ∀ entries : List (String × Document), Node.plainEntries (entryNodes entries) = entries
  | [] => rfl
  | (key, value) :: rest =>
    congrArg₂ List.cons (congrArg (Prod.mk key) (plain_node value)) (plainEntries_entryNodes rest)

end

theorem itemNodes_eq_map (items : List Document) : itemNodes items = items.map node := by
  induction items with
  | nil => rfl
  | cons item rest ih => rw [itemNodes, ih, List.map_cons]

theorem entryNodes_eq_map (entries : List (String × Document)) :
    entryNodes entries = entries.map fun entry => (.text entry.1, entry.2.node) := by
  induction entries with
  | nil => rfl
  | cons entry rest ih => rw [entryNodes, ih, List.map_cons]

theorem Portable.unambiguous_node {depth : Nat} {document : Document}
    (h : Portable depth document) : document.node.Unambiguous := by
  induction h with
  | null => exact .null
  | bool value => exact .bool value
  | int _ => exact .int _
  | text value => exact .text value
  | list _ ih =>
    rw [node, itemNodes_eq_map]
    exact .list (List.forall_mem_map.mpr ih)
  | @map _ entries hkeys _ ih =>
    have htexts : Node.keyTexts (entryNodes entries) = entries.map (·.1) := by
      simp [Node.keyTexts, entryNodes_eq_map, List.filterMap_map, Key.text?]
    rw [node]
    apply Node.Unambiguous.map
    · rw [entryNodes_eq_map]
      exact List.forall_mem_map.mpr fun _ _ => nofun
    · rwa [htexts]
    · rw [entryNodes_eq_map]
      exact List.forall_mem_map.mpr ih

end Document

end RestModule
