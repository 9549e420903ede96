import RestModule.Yaml.Event
import RestModule.Yaml.Resolve

/-!
# Reading YAML

A reader that delivers the nodes of the first document of a YAML text in reading order. An alias repeats
the node of its anchor. Lists and mappings nest up to 128 deep, and aliases are followed at most a
hundred times per event.
-/

namespace RestModule.Yaml

/-- How deep lists and mappings may nest. -/
def depthLimit : Nat := 128

/-- A part of a document: an event without the name of its anchor. -/
inductive Part where
  | alias (anchor : Nat)
  | scalar (tag : Option String) (text : String) (plain : Bool)
  | sequenceStart (tag : Option String)
  | sequenceEnd
  | mappingStart (tag : Option String)
  | mappingEnd

/-- The parts of a document as far as it can be read. -/
structure Draft where
  parts : Array Part
  /-- The number of each anchor name: how many names there were when it was declared. -/
  names : List (String × Nat)
  /-- The place of each anchor number, the latest first. -/
  places : List (Nat × Nat)
  /-- Whether the document ends as it must and nothing comes after it. -/
  complete : Bool

namespace Draft

/-- A document of which nothing has been read. -/
def empty : Draft := ⟨#[], [], [], false⟩

/-- Declares an anchor at the next part. A name declared again gets a new number. -/
def declare (anchor : Option String) (d : Draft) : Draft :=
  match anchor with
  | none => d
  | some name =>
    let number := d.names.length
    { d with
      names := (name, number) :: d.names.filter (·.1 != name)
      places := (number, d.parts.size) :: d.places }

/-- Adds a part. -/
def push (part : Part) (d : Draft) : Draft :=
  { d with parts := d.parts.push part }

/-- Reads a document, and whether the stream ends after it. -/
def read (d : Draft) : Nat → Composer → Draft
  | 0, _ => d
  | fuel + 1, composer =>
    match composer.next with
    | none => d
    | some (event, rest) =>
      match event with
      | .streamStart | .documentStart => d.read fuel rest
      | .streamEnd => { d.push (.scalar none "" true) with complete := true }
      | .documentEnd =>
        match rest.next with
        | some (.streamEnd, _) => { d with complete := true }
        | _ => d
      | .alias name =>
        match d.names.lookup name with
        | some number => (d.push (.alias number)).read fuel rest
        | none => d
      | .scalar properties text plain =>
        ((d.declare properties.anchor).push (.scalar properties.tag text plain)).read fuel rest
      | .sequenceStart properties =>
        ((d.declare properties.anchor).push (.sequenceStart properties.tag)).read fuel rest
      | .sequenceEnd => (d.push .sequenceEnd).read fuel rest
      | .mappingStart properties =>
        ((d.declare properties.anchor).push (.mappingStart properties.tag)).read fuel rest
      | .mappingEnd => (d.push .mappingEnd).read fuel rest

/-- Where the walk over the parts has come to, and how many aliases it has followed. -/
structure Place where
  index : Nat
  jumps : Nat

/-- The place after the part at a place. -/
def Place.after (place : Place) : Place :=
  { place with index := place.index + 1 }

/-- A node under its tag, if the tag is local. -/
def underTag (tag : Option String) (node : Node) : Node :=
  match tag.bind localTag? with
  | some name => .tagged name node
  | none => node

/-- The key that a node makes. -/
def keyOf : Node → Key
  | .text value => .text value
  | .bool value => .bool value
  | .int value => .int value
  | .float value => .float value
  | _ => .broken

mutual

/-- The node at a place, and the place after it unless the node is broken. -/
def nodeAt (d : Draft) (fuel depth : Nat) (place : Place) : Node × Option Place :=
  match fuel with
  | 0 => (.broken, none)
  | fuel + 1 =>
    match d.parts[place.index]? with
    | some (.alias number) =>
      if place.jumps + 1 > d.parts.size * 100 then (.broken, none)
      else
        match d.places.lookup number with
        | none => (.broken, none)
        | some index =>
          let (node, after) := d.nodeAt fuel depth ⟨index, place.jumps + 1⟩
          (node, after.map fun end_ => ⟨place.index + 1, end_.jumps⟩)
    | some (.scalar tag text plain) =>
      match scalarNode? tag text plain with
      | some node => (node, some place.after)
      | none => (.broken, none)
    | some (.sequenceStart tag) =>
      match depth with
      | 0 => (.broken, none)
      | depth + 1 =>
        let (items, after) := d.itemsAt fuel depth place.after
        (underTag tag (.list items), after)
    | some (.mappingStart tag) =>
      match depth with
      | 0 => (.broken, none)
      | depth + 1 =>
        let (entries, after) := d.entriesAt fuel depth place.after
        (underTag tag (.map entries), after)
    | _ => (.broken, none)

/-- The items of a list from a place on. -/
def itemsAt (d : Draft) (fuel depth : Nat) (place : Place) : List Node × Option Place :=
  match fuel with
  | 0 => ([.broken], none)
  | fuel + 1 =>
    match d.parts[place.index]? with
    | some .sequenceEnd => ([], some place.after)
    | _ =>
      match d.nodeAt fuel depth place with
      | (node, none) => ([node], none)
      | (node, some next) =>
        let (items, after) := d.itemsAt fuel depth next
        (node :: items, after)

/-- The entries of a mapping from a place on. -/
def entriesAt (d : Draft) (fuel depth : Nat) (place : Place) :
    List (Key × Node) × Option Place :=
  match fuel with
  | 0 => ([(.broken, .broken)], none)
  | fuel + 1 =>
    match d.parts[place.index]? with
    | some .mappingEnd => ([], some place.after)
    | _ =>
      match d.nodeAt fuel depth place with
      | (_, none) => ([(.broken, .broken)], none)
      | (key, some next) =>
        match d.nodeAt fuel depth next with
        | (value, none) => ([(keyOf key, value)], none)
        | (value, some next) =>
          let (entries, after) := d.entriesAt fuel depth next
          ((keyOf key, value) :: entries, after)

end

end Draft

/-- Reads a YAML text. -/
def read (text : String) : Reading :=
  let source := Source.ofText text
  let draft := Draft.empty.read (10 * source.chars.length + 50) (Composer.start source)
  let fuel := 1000 * (draft.parts.size + 2)
  { node := (draft.nodeAt fuel depthLimit ⟨0, 0⟩).1, complete := draft.complete }

end RestModule.Yaml
