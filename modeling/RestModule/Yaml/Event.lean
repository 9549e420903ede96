import RestModule.Yaml.Token

/-!
# Events of a YAML text

The beginnings and ends of nodes and documents, made from tokens. Where a node is missing, an empty
plain scalar stands for it.
-/

namespace RestModule.Yaml

/-- What stands before a node: its anchor and its tag in full. -/
structure Properties where
  anchor : Option String
  tag : Option String

/-- No anchor and no tag. -/
def Properties.none : Properties := ⟨.none, .none⟩

/-- An event. -/
inductive Event where
  | streamStart
  | streamEnd
  | documentStart
  | documentEnd
  | alias (name : String)
  | scalar (properties : Properties) (text : String) (plain : Bool)
  | sequenceStart (properties : Properties)
  | sequenceEnd
  | mappingStart (properties : Properties)
  | mappingEnd

/-- What may come next. -/
inductive Expectation where
  | streamStart
  | implicitDocument
  | document
  | documentContent
  | documentEnd
  | blockNode
  | blockItem (first : Bool)
  | indentlessItem
  | blockKey (first : Bool)
  | blockValue
  | flowItem (first : Bool)
  | pairKey
  | pairValue
  | pairEnd
  | flowKey (first : Bool)
  | flowValue (empty : Bool)
  | nothing

/-- The state between two events. -/
structure Composer where
  scanner : Scanner
  expects : Expectation
  /-- What is expected after the open nodes, innermost first. -/
  later : List Expectation
  /-- The tag handles of the current document. -/
  handles : List (String × String)

namespace Composer

/-- The state before a text. -/
def start (source : Source) : Composer :=
  ⟨Scanner.start source, .streamStart, [], []⟩

/-- The next token, still to be taken. -/
def peek (c : Composer) : Option (Token × Composer) :=
  (c.scanner.peek).map fun (token, scanner) => (token, { c with scanner })

/-- Takes the token that `peek` showed. -/
def drop (c : Composer) : Composer :=
  { c with scanner := c.scanner.drop }

/-- Expects what was put off last. -/
def resume (c : Composer) : Composer :=
  match c.later with
  | next :: later => { c with expects := next, later }
  | [] => { c with expects := .nothing }

/-- An empty plain scalar, after which something else is expected. -/
def empty (next : Expectation) (c : Composer) : Option (Event × Composer) :=
  some (.scalar Properties.none "" true, { c with expects := next })

/-- The handles that every document has. -/
def defaultHandles : List (String × String) :=
  [("!", "!"), ("!!", coreTagStart)]

/-- Reads the directives before a document; there may be one version and one tag directive a
handle. -/
def readDirectives (versioned : Bool) (handles : List (String × String)) :
    Nat → Composer → Option (List (String × String) × Composer)
  | 0, _ => none
  | fuel + 1, c =>
    match c.peek with
    | some (.directive (.version major minor), c) =>
      if versioned || major != 1 || !(minor == 1 || minor == 2) then none
      else readDirectives true handles fuel c.drop
    | some (.directive (.tag handle start), c) =>
      if handles.any (·.1 == handle) then none
      else readDirectives versioned (handles ++ [(handle, start)]) fuel c.drop
    | some (_, c) => some (handles, c)
    | none => none

/-- The default handles after the ones that a document declares. -/
def withDefaults (handles : List (String × String)) : List (String × String) :=
  handles ++ defaultHandles.filter fun (handle, _) => !handles.any (·.1 == handle)

/-- Starts a document that a line of its own announces. -/
def explicitDocument (c : Composer) : Option (Event × Composer) :=
  match readDirectives false [] (c.scanner.limit + 2) c with
  | some (handles, c) =>
    match c.peek with
    | some (.documentStart, c) =>
      some (.documentStart,
        { c.drop with
          expects := .documentContent
          later := .documentEnd :: c.later
          handles := withDefaults handles })
    | _ => none
  | none => none

/-- Moves over the ends of documents. -/
def skipDocumentEnds : Nat → Composer → Option Composer
  | 0, _ => none
  | fuel + 1, c =>
    match c.peek with
    | some (.documentEnd, c) => skipDocumentEnds fuel c.drop
    | some (_, c) => some c
    | none => none

/-- Starts a document or ends the stream. -/
def document (implicit : Bool) (c : Composer) : Option (Event × Composer) :=
  match if implicit then some c else skipDocumentEnds (c.scanner.limit + 2) c with
  | none => none
  | some c =>
    match c.peek with
    | none => none
    | some (.streamEnd, c) => some (.streamEnd, { c.drop with expects := .nothing })
    | some (.directive _, c) | some (.documentStart, c) => explicitDocument c
    | some (_, c) =>
      if implicit then
        some (.documentStart,
          { c with
            expects := .blockNode
            later := .documentEnd :: c.later
            handles := defaultHandles })
      else explicitDocument c

/-- The tag that a handle and the rest of a tag stand for. -/
def resolveTag (c : Composer) (handle suffix : String) : Option String :=
  if handle.isEmpty then some suffix
  else (c.handles.lookup handle).map (· ++ suffix)

/-- The tag of an optional tag token; none if its handle is unknown. -/
def resolveTag? (c : Composer) : Option (String × String) → Option (Option String)
  | none => some none
  | some (handle, suffix) => (c.resolveTag handle suffix).map some

/-- Reads the anchor and the tag before a node, in either order. -/
def readProperties (c : Composer) :
    Option ((Option String × Option (String × String)) × Composer) :=
  match c.peek with
  | none => none
  | some (.anchor name, c) =>
    match c.drop.peek with
    | none => none
    | some (.tag handle suffix, c) => some ((some name, some (handle, suffix)), c.drop)
    | some (_, c) => some ((some name, none), c)
  | some (.tag handle suffix, c) =>
    match c.drop.peek with
    | none => none
    | some (.anchor name, c) => some ((some name, some (handle, suffix)), c.drop)
    | some (_, c) => some ((none, some (handle, suffix)), c)
  | some (_, c) => some ((none, none), c)

/-- Reads a node that is no alias. The tag `!` of a scalar says nothing and is dropped. -/
def nodeContent (block indentless : Bool) (c : Composer) : Option (Event × Composer) := do
  let ((anchor, written), c) ← c.readProperties
  let (token, c) ← c.peek
  let tag ← c.resolveTag? written
  let properties : Properties := ⟨anchor, tag⟩
  match token with
  | .blockEntry =>
    if indentless then some (.sequenceStart properties, { c with expects := .indentlessItem })
    else bare properties c
  | .scalar text plain =>
    let tag := if tag == some "!" then none else tag
    some (.scalar ⟨anchor, tag⟩ text plain, c.drop.resume)
  | .flowSequenceStart =>
    some (.sequenceStart properties, { c with expects := .flowItem true })
  | .flowMappingStart =>
    some (.mappingStart properties, { c with expects := .flowKey true })
  | .blockSequenceStart =>
    if block then some (.sequenceStart properties, { c with expects := .blockItem true })
    else bare properties c
  | .blockMappingStart =>
    if block then some (.mappingStart properties, { c with expects := .blockKey true })
    else bare properties c
  | _ => bare properties c
where
  bare (properties : Properties) (c : Composer) : Option (Event × Composer) :=
    if properties.anchor.isSome || properties.tag.isSome then
      some (.scalar properties "" true, c.resume)
    else none

/-- Reads a node. -/
def node (block indentless : Bool) (c : Composer) : Option (Event × Composer) :=
  match c.peek with
  | none => none
  | some (.alias name, c) => some (.alias name, c.drop.resume)
  | some (_, c) => nodeContent block indentless c

/-- Reads a node, after which something else is expected. -/
def nodeThen (block indentless : Bool) (next : Expectation) (c : Composer) :
    Option (Event × Composer) :=
  node block indentless { c with later := next :: c.later }

/-- The next token, once the opening token of a collection has been taken. -/
def peekInside (first : Bool) (c : Composer) : Option (Token × Composer) :=
  if first then
    match c.peek with
    | none => none
    | some (_, c) => c.drop.peek
  else c.peek

/-- The token after the one that `peek` showed. -/
def peekNext (c : Composer) : Option (Token × Composer) :=
  c.drop.peek

/-- Reads an item of a block sequence or its end. -/
def blockItem (first : Bool) (c : Composer) : Option (Event × Composer) := do
  let (token, c) ← c.peekInside first
  match token with
  | .blockEntry =>
    let (token, c) ← c.peekNext
    match token with
    | .blockEntry | .blockEnd => c.empty (.blockItem false)
    | _ => c.nodeThen true false (.blockItem false)
  | .blockEnd => some (.sequenceEnd, c.drop.resume)
  | _ => none

/-- Reads an item of a block sequence that is not indented below its key. -/
def indentlessItem (c : Composer) : Option (Event × Composer) := do
  let (token, c) ← c.peek
  match token with
  | .blockEntry =>
    let (token, c) ← c.peekNext
    match token with
    | .blockEntry | .key | .value | .blockEnd => c.empty .indentlessItem
    | _ => c.nodeThen true false .indentlessItem
  | _ => some (.sequenceEnd, c.resume)

/-- Reads a key of a block mapping or its end. -/
def blockKey (first : Bool) (c : Composer) : Option (Event × Composer) := do
  let (token, c) ← c.peekInside first
  match token with
  | .key =>
    let (token, c) ← c.peekNext
    match token with
    | .key | .value | .blockEnd => c.empty .blockValue
    | _ => c.nodeThen true true .blockValue
  | .blockEnd => some (.mappingEnd, c.drop.resume)
  | _ => none

/-- Reads a value of a block mapping. -/
def blockValue (c : Composer) : Option (Event × Composer) := do
  let (token, c) ← c.peek
  match token with
  | .value =>
    let (token, c) ← c.peekNext
    match token with
    | .key | .value | .blockEnd => c.empty (.blockKey false)
    | _ => c.nodeThen true true (.blockKey false)
  | _ => c.empty (.blockKey false)

/-- The token at the beginning of an entry of a flow collection; a comma comes before all entries
but the first. -/
def peekEntry (first : Bool) (isEnd : Token → Bool) (c : Composer) :
    Option (Token × Composer) := do
  let (token, c) ← c.peekInside first
  if first || isEnd token then some (token, c)
  else
    match token with
    | .flowEntry => c.peekNext
    | _ => none

/-- Whether a token closes a flow sequence. -/
def isSequenceEnd : Token → Bool
  | .flowSequenceEnd => true
  | _ => false

/-- Whether a token closes a flow mapping. -/
def isMappingEnd : Token → Bool
  | .flowMappingEnd => true
  | _ => false

/-- Reads an item of a flow sequence or its end; a key begins a mapping of one entry. -/
def flowItem (first : Bool) (c : Composer) : Option (Event × Composer) := do
  let (token, c) ← c.peekEntry first isSequenceEnd
  match token with
  | .flowSequenceEnd => some (.sequenceEnd, c.drop.resume)
  | .key => some (.mappingStart Properties.none, { c.drop with expects := .pairKey })
  | _ => c.nodeThen false false (.flowItem false)

/-- Reads the key of a mapping of one entry. -/
def pairKey (c : Composer) : Option (Event × Composer) := do
  let (token, c) ← c.peek
  match token with
  | .value | .flowEntry | .flowSequenceEnd => c.drop.empty .pairValue
  | _ => c.nodeThen false false .pairValue

/-- Reads the value of a mapping of one entry. -/
def pairValue (c : Composer) : Option (Event × Composer) := do
  let (token, c) ← c.peek
  match token with
  | .value =>
    let (token, c) ← c.peekNext
    match token with
    | .flowEntry | .flowSequenceEnd => c.empty .pairEnd
    | _ => c.nodeThen false false .pairEnd
  | _ => c.empty .pairEnd

/-- Reads a key of a flow mapping or its end. -/
def flowKey (first : Bool) (c : Composer) : Option (Event × Composer) := do
  let (token, c) ← c.peekEntry first isMappingEnd
  match token with
  | .flowMappingEnd => some (.mappingEnd, c.drop.resume)
  | .key =>
    let (token, c) ← c.peekNext
    match token with
    | .value | .flowEntry | .flowMappingEnd => c.empty (.flowValue false)
    | _ => c.nodeThen false false (.flowValue false)
  | _ => c.nodeThen false false (.flowValue true)

/-- Reads a value of a flow mapping. -/
def flowValue (absent : Bool) (c : Composer) : Option (Event × Composer) := do
  let (token, c) ← c.peek
  match token, absent with
  | .value, false =>
    let (token, c) ← c.peekNext
    match token with
    | .flowEntry | .flowMappingEnd => c.empty (.flowKey false)
    | _ => c.nodeThen false false (.flowKey false)
  | _, _ => c.empty (.flowKey false)

/-- Reads the content of a document that a line of its own announced. -/
def documentContent (c : Composer) : Option (Event × Composer) := do
  let (token, c) ← c.peek
  match token with
  | .directive _ | .documentStart | .documentEnd | .streamEnd =>
    some (.scalar Properties.none "" true, c.resume)
  | _ => c.node true false

/-- Ends a document. -/
def documentEnd (c : Composer) : Option (Event × Composer) := do
  let (token, c) ← c.peek
  let c := match token with
    | .documentEnd => c.drop
    | _ => c
  some (.documentEnd, { c with expects := .document, handles := [] })

/-- The next event; none where the text is no YAML, or after its end. -/
def next (c : Composer) : Option (Event × Composer) :=
  match c.expects with
  | .streamStart =>
    match c.peek with
    | none => none
    | some (_, c) => some (.streamStart, { c.drop with expects := .implicitDocument })
  | .implicitDocument => c.document true
  | .document => c.document false
  | .documentContent => c.documentContent
  | .documentEnd => c.documentEnd
  | .blockNode => c.node true false
  | .blockItem first => c.blockItem first
  | .indentlessItem => c.indentlessItem
  | .blockKey first => c.blockKey first
  | .blockValue => c.blockValue
  | .flowItem first => c.flowItem first
  | .pairKey => c.pairKey
  | .pairValue => c.pairValue
  | .pairEnd => some (.mappingEnd, { c with expects := .flowItem false })
  | .flowKey first => c.flowKey first
  | .flowValue absent => c.flowValue absent
  | .nothing => none

end Composer

end RestModule.Yaml
